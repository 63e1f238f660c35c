/-
  Artemisia.Threads.Clock — the two threads with a clock: `next_msg_out` and `last_msg_in`, the time that
  `pselect` may take in `mosquitto_loop`, and the test of `mosquitto__check_keepalive` (`loop.c`, `util_mosq.c`,
  `time_mosq.c`).

  The threads step as in `Threads.System`; between two steps time passes. What a step leaves open there is
  settled by the clock here: whether the keepalive is due. A `Watch` records when things happened; no step
  reads it.

  Proved:
  - `Timed.reach_sys`:       without the clock, a run is one of the two threads.
  - `pselectTimeout_le`:     `pselect` does not wait beyond `next_msg_out`.
  - `step_place`:            how the loop thread gets back to the top of `mosquitto_loop`.
-/
import Artemisia.Threads.Connected

namespace Artemisia.Threads

open Artemisia.Property Artemisia.Client

/-! ## The clock -/

structure Timed where
  sys : Sys
  /-- In milliseconds. -/
  clock : Nat
  nextMsgOut : Nat
  lastMsgIn : Nat
  /-- What `mosquitto_loop_forever` was called with. -/
  timeout : Int
  /-- When `pselect` returns at the latest, while the loop thread is in it. -/
  wakeAt : Option Nat

def Timed.time (t : Timed) : Nat := t.clock / 1000

theorem Timed.time_le (t : Timed) : t.time * 1000 ≤ t.clock ∧ t.clock < t.time * 1000 + 1000 := by
  unfold Timed.time
  omega

/-- `mosquitto_reinitialise`. -/
def Timed.init (id : Option Bytes) (cleanStart : Bool) (clock : Nat) : Timed where
  sys := .init id cleanStart
  clock := clock
  nextMsgOut := clock / 1000 + 60
  lastMsgIn := clock / 1000
  timeout := 0
  wakeAt := none

/-- The timeout that `mosquitto__thread_main` gives to `mosquitto_loop_forever`. -/
def loopTimeout (keepalive : Nat) : Int := if keepalive = 0 then 1000 * 86400 else keepalive * 1000

/-- `mosquitto_loop` does not wait beyond `next_msg_out`; the difference is assigned to an `int`. -/
def clipTimeout (timeout : Int) (nextMsgOut now : Nat) : Int :=
  if nextMsgOut ≠ 0 ∧ now + timeout / 1000 > nextMsgOut then (((nextMsgOut : Int) - now) * 1000).bmod (2 ^ 32)
    else timeout

/-- The timeout that `mosquitto_loop` gives to `pselect`. -/
def pselectTimeout (timeout : Int) (nextMsgOut now : Nat) : Int :=
  let timeout := clipTimeout (if timeout < 0 then 1000 else timeout) nextMsgOut now
  if timeout < 0 then 0 else timeout

/-- The test of `mosquitto__check_keepalive`. -/
def Timed.due (t : Timed) : Bool :=
  t.sys.m.keepalive ≠ 0 ∧ (t.nextMsgOut ≤ t.time ∨ t.sys.m.keepalive ≤ t.time - t.lastMsgIn)

theorem Timed.due_eq_false {t : Timed} (hk : t.sys.m.keepalive ≠ 0) (h : t.due = false) :
    t.time < t.nextMsgOut ∧ t.time - t.lastMsgIn < t.sys.m.keepalive := by
  simp only [Timed.due, decide_eq_false_iff_not] at h
  omega

/-! ## What a step does to the times -/

/-- A handler is in the middle of its work, in a callback. -/
def callsBack : LoopPc → Bool
  | .connack .. | .discCall .. => true
  | _ => false

def disconnects : LoopPc → Bool
  | .discCall .. => true
  | _ => false

/-- `packet__read` sets `last_msg_in`: at its end, or with more than 1000 bytes of the packet still to come. -/
def hears (s : Sys) (a : Act) (large : Bool) (s' : Sys) : Bool :=
  match s.loop, a with
  | .read .., .loop (.packet ..) => !callsBack s'.loop
  | .read .., .loop (.noPacket .incomplete _) => large ∧ s.m.sock ≠ none ∧ s.m.state ≠ .connectPending
  | .connack .., .loop (.tick _) => true
  | .discCall (.read ..), .loop (.tick _) => true
  | _, _ => false

/-- `packet__write` has written a packet whole, or `do_client_disconnect` is called: both set `next_msg_out`. -/
def speaks (s : Sys) (a : Act) (s' : Sys) : Bool :=
  match s.loop, a with
  | .write .., .loop (.write taken _ _) =>
    s.m.sock ≠ none ∧ s.m.state ≠ .connectPending ∧ 0 < taken ∧ unwritten s.m ≠ []
  | .read .., .loop (.packet ..) => disconnects s'.loop
  | _, _ => false

/-- `mosquitto__reconnect` sets both. -/
def restarts (s : Sys) (a : Act) (s' : Sys) : Bool :=
  match a with
  | .loop (.tick _) => s.loop = .rec_ .start ∧ s'.loop = .rec_ .reset
  | .queue _ => match s.queue, s'.queue with
    | .rec_ .start _, .rec_ .reset _ => true
    | _, _ => false
  | _ => false

/-- `mosquitto__check_keepalive` calls `send__pingreq`, and sets both. -/
def pings (s : Sys) : Act → Bool
  | .loop (.keepalive due _) =>
    s.loop = .misc ∧ s.m.sock ≠ none ∧ due ∧ s.m.keepalive ≠ 0 ∧ s.m.state = .active ∧ !s.m.pingT
  | _ => false

def isSelect : Act → Bool
  | .loop (.select _) => true
  | _ => false

/-! ## Steps -/

inductive TimedAct where
  | pass (ms : Nat)
  /-- `mosquitto_loop` as far as `pselect`. -/
  | block
  /-- A step of the threads; `large` is about `packet__read` when it has to wait for more. -/
  | act (a : Act) (large : Bool)

/-- What the clock settles. `mosquitto_loop` does not get as far as `pselect` without a socket, or with a
    descriptor that is too large. -/
def Timed.agrees (t : Timed) : Act → Bool
  | .loop (.keepalive due _) => due = t.due
  | .loop (.select .badFd) => t.wakeAt.isNone
  | .loop (.select _) => t.wakeAt.isSome ∨ t.sys.m.sock = none
  | _ => true

/-- The times after a step of the threads. -/
def Timed.after (t : Timed) (a : Act) (large : Bool) (s : Sys) : Timed where
  sys := s
  clock := t.clock
  nextMsgOut :=
    if speaks t.sys a s ∨ restarts t.sys a s ∨ pings t.sys a then t.time + t.sys.m.keepalive else t.nextMsgOut
  lastMsgIn := if hears t.sys a large s ∨ restarts t.sys a s ∨ pings t.sys a then t.time else t.lastMsgIn
  timeout := if t.sys.loop = .waitNew ∧ s.loop ≠ .waitNew then loopTimeout t.sys.m.keepalive else t.timeout
  wakeAt := if isSelect a then none else t.wakeAt

def Timed.step (t : Timed) : TimedAct → Option Timed
  | .pass ms => some { t with clock := t.clock + ms }
  | .block =>
    if t.sys.loop = .top ∧ t.wakeAt = none ∧ t.sys.m.sock ≠ none then
      some { t with wakeAt := some (t.clock + (pselectTimeout t.timeout t.nextMsgOut t.time).toNat) }
    else none
  | .act a large => if t.agrees a then (Threads.step t.sys a).map (t.after a large) else none

def IsTimedInit (t : Timed) : Prop := ∃ id cleanStart clock, t = .init id cleanStart clock

theorem step_act {t t' : Timed} {a : Act} {large : Bool} (h : t.step (.act a large) = some t') :
    t.agrees a = true ∧ ∃ s, Threads.step t.sys a = some s ∧ t' = t.after a large s := by
  simp only [Timed.step] at h
  split at h
  · rename_i ha
    obtain ⟨s, hs, rfl⟩ := Option.map_eq_some_iff.mp h
    exact ⟨ha, s, hs, rfl⟩
  · cases h

/-- Without the clock, a run is one of the two threads. -/
theorem Timed.reach_sys {ok : Timed → TimedAct → Prop} {t : Timed}
    (h : Machine.Reach Timed.step IsTimedInit ok t) :
    Machine.Reach Threads.step IsInit Machine.anyAct t.sys := by
  induction h with
  | init h =>
    obtain ⟨id, cleanStart, clock, rfl⟩ := h
    exact .init ⟨id, cleanStart, rfl⟩
  | @step t t' a _ _ hs ih =>
    cases a with
    | pass ms =>
      cases hs
      exact ih
    | block =>
      simp only [Timed.step] at hs
      split at hs
      · cases hs
        exact ih
      · cases hs
    | act a large =>
      obtain ⟨-, s, hst, rfl⟩ := step_act hs
      exact .step ih trivial hst

/-! ## `pselect` -/

/-- A timeout in whole seconds does not reach beyond `next_msg_out`, unless that is 24 days ago and the `int`
    overflows. -/
theorem pselectTimeout_le {timeout : Int} {nextMsgOut now : Nat} (h0 : 0 ≤ timeout) (h1 : timeout % 1000 = 0)
    (ht : timeout < 2147483648) (hn : nextMsgOut ≠ 0) (hlate : now ≤ nextMsgOut + 2147483) :
    pselectTimeout timeout nextMsgOut now ≤ ((nextMsgOut - now : Nat) : Int) * 1000 := by
  have hclip : clipTimeout timeout nextMsgOut now ≤ ((nextMsgOut - now : Nat) : Int) * 1000 := by
    unfold clipTimeout
    split
    · rw [Int.bmod_eq_of_le (by omega) (by omega)]
      omega
    · omega
  rw [pselectTimeout, if_neg (show ¬ timeout < 0 by omega)]
  split <;> omega

theorem loopTimeout_ok {keepalive : Nat} (h : keepalive < 65536) :
    0 ≤ loopTimeout keepalive ∧ loopTimeout keepalive % 1000 = 0 ∧ loopTimeout keepalive < 2147483648 := by
  unfold loopTimeout
  split <;> omega

/-! ## Where the loop thread stands -/

/-- Outside of `mosquitto_loop`, on the way to its `pselect`, or past it. -/
inductive Place where
  | out | top | body
  deriving DecidableEq, Repr

def place : LoopPc → Place
  | .top | .ret .success | .kaCall _ => .top
  | .read .. | .connack .. | .discCall .. | .selWrite | .write .. | .rcClose .. | .rcCall .. | .misc
  | .ret _ => .body
  | .none | .waitNew | .check1 | .sleep | .check2 | .rec_ _ | .exited => .out

section Places

variable {s s' : Sys} {a : Act} {m : Mosq} {rc : Rc} {turn : Turn}

theorem place_ret (h : rc ≠ .success) : place (.ret rc) = .body := by
  cases rc with
  | success => exact absurd rfl h
  | _ => rfl

theorem place_afterIo (hs : m.sock ≠ none) : place (afterIo m rc turn) = .body := by
  unfold afterIo
  cases turn with
  | read i n again =>
    dsimp only
    split
    · rename_i h
      exact place_ret (h.resolve_right hs)
    · rfl
  | write i n again =>
    dsimp only
    split
    · rename_i h
      exact place_ret (h.resolve_right hs)
    · rfl

theorem place_afterTurn (hs : m.sock ≠ none) : place (afterTurn m rc turn) = .body := by
  have hio := @place_afterIo m rc turn hs
  unfold afterTurn
  split
  · rfl
  · cases turn with
    | read i n again =>
      dsimp only
      split
      · exact hio
      · rfl
    | write i n again =>
      dsimp only
      split
      · exact hio
      · rfl

theorem place_selectNext {r : Select} (hs : m.sock ≠ none) (hr : r ≠ .interrupted) :
    place (selectNext m r) = .body := by
  cases r with
  | badFd => rfl
  | interrupted => exact absurd rfl hr
  | failed => simp [selectNext, hs, place]
  | ready readable => cases readable <;> simp [selectNext, hs, place]

/-- The check is made, and the socket is kept. -/
def Checked (s : Sys) (a : Act) : Prop :=
  s.loop = .misc ∧ ∃ due alloc, a = .loop (.keepalive due alloc) ∧
    (pings s a = true ∨ due = false ∨ s.m.keepalive = 0)

/-- With a socket, the loop thread gets to `pselect` from outside or by way of the check. -/
theorem step_place (h : Moves s a s') (hs : s'.m.sock ≠ none) (ht : place s'.loop = .top)
    (hi : a ≠ .loop (.select .interrupted)) :
    place s.loop = .out ∨ (place s.loop = .top ∧ isSelect a = false) ∨ Checked s a := by
  have hbody (hb : place s'.loop = .body) : place s.loop = .out ∨ (place s.loop = .top ∧ isSelect a = false) ∨
      Checked s a := by
    rw [hb] at ht
    cases ht
  cases h with
  | create => cases ht
  | waitNew env hl => exact .inl (by rw [hl]; rfl)
  | select r hl => exact hbody (place_selectNext hs (fun e => hi (by rw [e])))
  | packet i n p again alloc hl hsock hst t hp =>
    cases hp with
    | done m rc e hc he hr => exact hbody (@place_afterTurn m rc (.read i n again) hs)
    | connack m r max e hc he hr => exact hbody rfl
    | unsupported m e hc he hr => exact hbody (@place_afterTurn m .protocol (.read i n again) hs)
    | disconnect e he hr => exact hbody rfl
  | noPacket i n e again rc hl hrc => exact hbody (@place_afterTurn s.m rc (.read i n again) hs)
  | connack r max turn env hl => exact hbody (place_afterTurn hs)
  | discCall turn env hl => exact hbody (@place_afterTurn s.m .success turn hs)
  | selWrite b hl =>
    dsimp only at ht
    split at ht <;> cases ht
  | write i n taken e again m rc hl he => exact hbody (@place_afterTurn m rc (.write i n again) hs)
  | writeDisconnect i n taken e again m hl he => exact hbody rfl
  | rcClose rc turn env hl => exact hbody rfl
  | rcCall rc turn env hl => exact hbody (@place_afterIo s.m rc turn hs)
  | misc due alloc rc hl hto =>
    refine .inr (.inr ⟨hl, due, alloc, rfl, ?_⟩)
    have hto := hto hs
    simp only [timesOut, decide_eq_false_iff_not] at hto
    cases due with
    | false => exact .inr (.inl rfl)
    | true =>
      by_cases hk : s.m.keepalive = 0
      · exact .inr (.inr hk)
      · exact .inl (by simpa [pings, hl, hk, hs] using hto)
  | ping alloc hl hsock hto =>
    refine .inr (.inr ⟨hl, true, alloc, rfl, ?_⟩)
    simp only [timesOut, decide_eq_false_iff_not] at hto
    by_cases hk : s.m.keepalive = 0
    · exact .inr (.inr hk)
    · exact .inl (by simpa [pings, hl, hk, hsock] using hto)
  | unanswered => exact absurd rfl hs
  | kaCall rc env hl => exact .inr (.inl ⟨by rw [hl]; rfl, rfl⟩)
  | ret rc eproto hl =>
    dsimp only at ht
    split at ht
    · rename_i hrc
      exact .inr (.inl ⟨by rw [hl, hrc]; rfl, rfl⟩)
    · split at ht <;> cases ht
  | check1 env hl => exact .inl (by rw [hl]; rfl)
  | sleep ok hl => exact .inl (by rw [hl]; rfl)
  | check2 env hl => exact .inl (by rw [hl]; rfl)
  | loopRec env pc pc' m hl => exact .inl (by rw [hl]; rfl)
  | loopRecEnd env pc m rc hl => exact .inl (by rw [hl]; rfl)
  | _ => exact .inr (.inl ⟨ht, rfl⟩)

/-- The check: there is no socket, nothing is due, or the keepalive has run out. -/
theorem keepalive_cases {due : Bool} {alloc : Alloc}
    (h : Threads.step s (.loop (.keepalive due alloc)) = some s') :
    s.loop = .misc ∧ ((s.m.sock = none ∧ s' = { s with loop := .ret .noConn }) ∨
      (s.m.sock ≠ none ∧ (due = false ∨ s.m.keepalive = 0) ∧ s' = { s with loop := .ret .success }) ∨
      (s.m.sock ≠ none ∧ due = true ∧ s.m.keepalive ≠ 0 ∧ s' = keepaliveDue s alloc)) := by
  have hl : s.loop = .misc := by
    cases step_moves h with
    | misc due alloc rc hl => exact hl
    | ping alloc hl => exact hl
    | unanswered alloc rc hl => exact hl
  refine ⟨hl, ?_⟩
  simp only [Threads.step, loopStep, hl] at h
  split at h
  · rename_i hs
    cases h
    exact .inl ⟨hs, rfl⟩
  · rename_i hs
    split at h
    · rename_i hd
      cases h
      exact .inr (.inr ⟨hs, hd.1, hd.2, rfl⟩)
    · rename_i hd
      cases h
      refine .inr (.inl ⟨hs, ?_, rfl⟩)
      cases due with
      | false => exact .inl rfl
      | true => exact .inr (not_not.mp fun hk => hd ⟨rfl, hk⟩)

/-- A socket that is there was there before, or has been opened. -/
theorem step_sock (h : Moves s a s') (hs : s'.m.sock ≠ none) : s.m.sock ≠ none ∨ s'.m.conns ≠ s.m.conns := by
  cases step_flag h with
  | same hc ha hsock hk hh => exact .inl (hsock ▸ hs)
  | dropped hc ha hd hr hsock =>
    rcases hsock with e | ⟨-, hk⟩
    · exact absurd e hs
    · exact .inr (by omega)
  | cleared hc hsock hk hh => exact .inl (hsock ▸ hs)
  | set p again alloc r e hl hr hd hsock => exact .inl hsock

end Places

end Artemisia.Threads
