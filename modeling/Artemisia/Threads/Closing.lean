/-
  Artemisia.Threads.Closing — how often on_disconnect is called for one connection.

  Four paths close the socket and then call on_disconnect: `mosquitto__loop_rc_handle`,
  `mosquitto__check_keepalive`, and `do_client_disconnect` from a DISCONNECT read or written. The last two
  return to a loop that goes on for as many turns as messages are stored, and its next turn finds no socket.

  Proved:
  - `written_disconnect_iff`: a write ends the connection exactly when it takes a DISCONNECT.
  - `step_closing`:      after a callback there is no socket and no turn left, where the guard is met.
  - `one_disconnect`:    in a run whose DISCONNECTs are met in the last turn, and in which `connect()` opens
                         no socket between a close and its callback, on_disconnect is called at most once for a
                         connection.
  - `storedTwo_reported_twice`: with two messages stored, a DISCONNECT of the server is reported twice.
-/
import Artemisia.Threads.Moves

namespace Artemisia.Threads

open Artemisia.Property Artemisia.Client

/-! ## When a write ends the connection -/

def isDisconnect : Packet → Bool
  | .disconnect .. => true
  | _ => false

/-- A DISCONNECT is among the packets that a write takes. -/
def writesDisconnect (m : Mosq) (taken : Nat) : Bool :=
  m.sock.isSome ∧ m.state ≠ .connectPending ∧ ((unwritten m).take taken).any isDisconnect

theorem unwritten_current {m : Mosq} {p : Packet} (h : m.currentOutPacket = some p) :
    unwritten m = p :: m.outPacket := by
  simp [unwritten, h]

theorem packetWriteLoop_disconnect_iff (stop : Rc) (n : Nat) {m : Mosq}
    (h : m.currentOutPacket = none → m.outPacket = []) :
    (packetWriteLoop stop n m).2 = .disconnect ↔ ((unwritten m).take n).any isDisconnect = true := by
  induction n generalizing m with
  | zero =>
    unfold packetWriteLoop
    split <;> simp
  | succ n ih =>
    have hnext : ∀ m' : Mosq, m'.outPacket = m.outPacket →
        ((packetWriteLoop stop n (nextPacket m')).2 = .disconnect ↔
          (m.outPacket.take n).any isDisconnect = true) := by
      intro m' ho
      rw [← ho, ← unwritten_nextPacket m']
      refine ih (fun e => ?_)
      have e : m'.outPacket.head? = none := e
      simp [nextPacket, List.head?_eq_none_iff.mp e]
    unfold packetWriteLoop
    split
    · rename_i e
      simp [unwritten, e, h e]
    · rename_i r l e
      simp [unwritten_current e, isDisconnect]
    · rename_i p hne e
      have hp : isDisconnect p = false := by
        cases p with
        | disconnect r l => exact absurd rfl (hne r l)
        | _ => rfl
      rw [unwritten_current e, List.take_succ_cons, List.any_cons, hp, Bool.false_or]
      refine hnext _ ?_
      split <;> rfl

/-- A write ends the connection when it takes a DISCONNECT. -/
theorem written_disconnect_iff (stop : Rc) (n : Nat) (m : Mosq) :
    (packetWrite stop n m).2 = .disconnect ↔ writesDisconnect m n = true := by
  have hl := packetWriteLoop_disconnect_iff stop n (takeNext_current m)
  rw [unwritten_takeNext] at hl
  have hst := (takeNext_frame m).2.2
  unfold packetWrite
  split
  · rename_i hs
    simp [writesDisconnect, hs]
  · rename_i hs
    split
    · rename_i hp
      simp [writesDisconnect, ← hst, hp]
    · rename_i hp
      rw [hl]
      simp [writesDisconnect, ← hst, hp, Option.isSome_iff_ne_none, hs]

/-! ## The property -/

/-- on_disconnect has been called at most once since a socket was last opened. -/
def OneDisconnect (s : Sys) : Prop := discsSinceOpen s.m.trace ≤ 1

/-- `mosquitto_loop_read` or `mosquitto_loop_write` ends after this turn. -/
def Turn.last : Turn → Bool
  | .read i n again => again || i + 1 ≥ n
  | .write i n again => again || i + 1 ≥ n

/-- Between a close and its callback. -/
def LoopPc.closing : LoopPc → Bool
  | .discCall _ | .rcCall .. | .kaCall _ => true
  | _ => false

/-- In a turn, or between a close and its callback. -/
def LoopPc.busy : LoopPc → Bool
  | .read .. | .write .. | .connack .. | .rcClose .. | .discCall _ | .rcCall .. | .kaCall _ => true
  | _ => false

def turnOf : LoopPc → Bool → Option Turn
  | .read i n, again => some (.read i n again)
  | .write i n, again => some (.write i n again)
  | _, _ => none

def QueuePc.opening : QueuePc → Bool
  | .rec_ .connect _ => true
  | _ => false

/-- A DISCONNECT is met in the last turn only, and `connect()` opens no socket between a close and its
    callback. -/
def LastTurn (s : Sys) : Act → Prop
  | .loop (.packet p again _) => ∀ turn ∈ turnOf s.loop again, endsConnection s.m p = true → turn.last = true
  | .loop (.write taken _ again) => ∀ turn ∈ turnOf s.loop again, writesDisconnect s.m taken = true →
      turn.last = true
  | .queue _ => s.queue.opening = true → s.loop.closing = false
  | _ => True

instance (s : Sys) : (a : Act) → Decidable (LastTurn s a)
  | .loop (.packet p again _) =>
    inferInstanceAs (Decidable (∀ turn ∈ turnOf s.loop again, endsConnection s.m p = true → turn.last = true))
  | .loop (.write taken _ again) =>
    inferInstanceAs (Decidable (∀ turn ∈ turnOf s.loop again, writesDisconnect s.m taken = true →
      turn.last = true))
  | .queue _ => inferInstanceAs (Decidable (_ → _))
  | .loop (.tick _) | .loop (.select _) | .loop (.noPacket ..) | .loop (.writable _) | .loop (.keepalive ..)
  | .loop (.errno _) | .loop (.slept _) | .connect _ | .publish .. | .disconnect .. => isTrue trivial

structure Closing (s : Sys) : Prop where
  once : discsSinceOpen s.m.trace ≤ 1
  after : discsSinceOpen s.m.trace ≠ 0 → s.m.sock = none
  busy : s.loop.busy = true → discsSinceOpen s.m.trace = 0
  closed : s.loop.closing = true → s.m.sock = none
  last : ∀ turn, s.loop = .discCall turn → turn.last = true

/-! ## One step -/

@[simp] theorem busy_afterIo (m : Mosq) (rc : Rc) (turn : Turn) : (afterIo m rc turn).busy = false :=
  afterIo_elim (P := (·.busy = false)) (fun _ => rfl) rfl rfl

theorem closing_of_busy {pc : LoopPc} (h : pc.busy = false) : pc.closing = false := by
  cases pc <;> first | rfl | cases h

@[simp] theorem closing_afterTurn (m : Mosq) (rc : Rc) (turn : Turn) : (afterTurn m rc turn).closing = false :=
  afterTurn_elim (P := (·.closing = false)) (fun _ => closing_of_busy (busy_afterIo ..)) (fun _ => rfl)
    (fun _ _ => rfl)
    (fun _ _ => rfl)

theorem afterTurn_last {m : Mosq} {turn : Turn} (h : turn.last = true) :
    afterTurn m .success turn = afterIo m .success turn := by
  cases turn with
  | read i n again =>
    have h : again = true ∨ i + 1 ≥ n := by simpa [Turn.last] using h
    simp [afterTurn, h]
  | write i n again =>
    have h : again = true ∨ i + 1 ≥ n := by simpa [Turn.last] using h
    simp [afterTurn, h]

theorem not_discCall {pc : LoopPc} (h : pc.closing = false) (turn : Turn) : pc ≠ .discCall turn := by
  intro hx
  obtain rfl := hx
  cases h

/-- A step without a callback. -/
theorem Closing.keep {s s' : Sys} (hi : Closing s) (hd : discsSinceOpen s'.m.trace = discsSinceOpen s.m.trace)
    (hs : s'.m.sock = s.m.sock ∨ s'.m.sock = none) (hb : s'.loop.busy = true → discsSinceOpen s.m.trace = 0)
    (hc : s'.loop.closing = true → s'.m.sock = none) (hl : ∀ turn, s'.loop = .discCall turn → turn.last = true) :
    Closing s' := by
  refine ⟨hd ▸ hi.once, fun h => ?_, fun h => hd.trans (hb h), hc, hl⟩
  rcases hs with e | e
  · exact e.trans (hi.after (hd ▸ h))
  · exact e

/-- A step of the application that leaves the connection alone. -/
theorem Closing.same {s s' : Sys} (hi : Closing s) (hd : discsSinceOpen s'.m.trace = discsSinceOpen s.m.trace)
    (hs : s'.m.sock = s.m.sock ∨ s'.m.sock = none) (hl : s'.loop = s.loop) : Closing s' := by
  refine hi.keep hd hs (fun h => hi.busy (hl ▸ h)) (fun h => ?_) (fun turn h => hi.last turn (hl ▸ h))
  rcases hs with e | e
  · exact e.trans (hi.closed (hl ▸ h))
  · exact e

/-- A step of the loop thread that leaves the connection alone. -/
theorem Closing.goOn {s s' : Sys} (hi : Closing s) (hm : s'.m.conn = s.m.conn)
    (hb : s'.loop.busy = true → discsSinceOpen s.m.trace = 0) (hc : s'.loop.closing = false) : Closing s' :=
  hi.keep (discs_of_conn hm) (.inl (sock_of_conn hm)) hb (fun h => by simp [hc] at h)
    (fun turn e => absurd e (not_discCall hc turn))

theorem Closing.callback {s : Sys} {pc : LoopPc} (hi : Closing s) (hc : s.loop.closing = true)
    (hpc : pc.busy = false) :
    Closing { s.onDisconnect with loop := pc } := by
  have hb : s.loop.busy = true := by
    cases hl : s.loop with
    | discCall _ => rfl
    | rcCall _ _ => rfl
    | kaCall _ => rfl
    | _ => simp [hl, LoopPc.closing] at hc
  have hd : discsSinceOpen (s.m.emit .onDisconnect).trace = discsSinceOpen s.m.trace + 1 := rfl
  have h0 := hi.busy hb
  refine ⟨?_, fun _ => hi.closed hc, fun h => ?_, fun h => ?_,
    fun turn e => absurd e (not_discCall (closing_of_busy hpc) turn)⟩
  · show discsSinceOpen (s.m.emit .onDisconnect).trace ≤ 1
    omega
  · have h : pc.busy = true := h
    simp [hpc] at h
  · have h : pc.closing = true := h
    simp [closing_of_busy hpc] at h

/-- A piece of a reconnect opens a socket, or does without. -/
theorem recMoves_discs {env : RecEnv} {l : List MosquittoProperty} {m m' : Mosq} {pc : RecPc} {next : RecPc ⊕ Rc}
    (h : RecMoves env l m pc m' next) :
    (discsSinceOpen m'.trace = discsSinceOpen m.trace ∧ (m'.sock = m.sock ∨ m'.sock = none)) ∨
      (pc = .connect ∧ discsSinceOpen m'.trace = 0) := by
  cases h with
  | opened ht => exact .inr ⟨rfl, rfl⟩
  | close => exact .inl ⟨rfl, .inr rfl⟩
  | failed rc => exact .inl ⟨rfl, .inr rfl⟩
  | unopened rc hp ho => exact .inl ⟨rfl, .inr rfl⟩
  | sent hs => exact .inl ⟨discs_of_conn (conn_sendConnect ..), .inl (sock_of_conn (conn_sendConnect ..))⟩
  | unsent rc hs => exact .inl ⟨discs_of_conn (conn_sendConnect ..), .inl (sock_of_conn (conn_sendConnect ..))⟩
  | _ => exact .inl ⟨rfl, .inl rfl⟩

/-- A new socket has a clean record. -/
theorem Closing.opened {s' : Sys} (hd : discsSinceOpen s'.m.trace = 0) (hc : s'.loop.closing = false) :
    Closing s' :=
  ⟨by omega, fun h => absurd hd h, fun _ => hd, fun h => by simp [hc] at h,
    fun turn e => absurd e (not_discCall hc turn)⟩

/-- A piece of a reconnect in the application's thread. -/
theorem Closing.queueRec {s s' : Sys} (hi : Closing s) {env : RecEnv} {l : List MosquittoProperty} {pc : RecPc}
    {next : RecPc ⊕ Rc} (hg : pc = .connect → s.loop.closing = false) (h : RecMoves env l s.m pc s'.m next)
    (hl : s'.loop = s.loop) : Closing s' := by
  rcases recMoves_discs h with ⟨hd, hs⟩ | ⟨hpc, hd⟩
  · exact hi.same hd hs hl
  · exact .opened hd (hl ▸ hg hpc)

theorem Closing.loopRec {s s' : Sys} (hi : Closing s) {env : RecEnv} {l : List MosquittoProperty} {pc : RecPc}
    {next : RecPc ⊕ Rc} (h : RecMoves env l s.m pc s'.m next) (hl : s'.loop.busy = false) : Closing s' := by
  have hc := closing_of_busy hl
  rcases recMoves_discs h with ⟨hd, hs⟩ | ⟨-, hd⟩
  · exact hi.keep hd hs (fun h => by simp [hl] at h) (fun h => by simp [hc] at h)
      (fun turn e => absurd e (not_discCall hc turn))
  · exact .opened hd hc

theorem step_closing {s s' : Sys} {a : Act} (hi : Closing s) (hg : LastTurn s a) (h : Moves s a s') :
    Closing s' := by
  have hopen : s.m.sock ≠ none → discsSinceOpen s.m.trace = 0 := by
    intro hs
    by_contra h
    exact hs (hi.after h)
  cases h with
  | connect c hq =>
    have hm := conn_setupMosquitto s.m (if c.protocolVersion = .mqtt5 then c else { c with properties := [] })
    exact hi.same (congrArg Conn.discs hm) (.inl (congrArg Conn.sock hm)) rfl
  | publish alloc a hq ha =>
    have hm := conn_mosquittoPublishV5 alloc s.m a
    exact hi.same (discs_of_conn hm) (.inl (sock_of_conn hm)) rfl
  | refused r l hq hc => exact hi.same rfl (.inl rfl) rfl
  | disconnect r l hq hc => exact hi.same rfl (.inl rfl) rfl
  | create env c hq ht =>
    exact hi.keep rfl (.inl rfl) (fun h => by cases h) (fun h => by cases h) (fun _ h => by cases h)
  | created env c hq ht => exact hi.same rfl (.inl rfl) rfl
  | bind env c hq =>
    have hm := conn_connectBind env s.m c
    exact hi.same (discs_of_conn hm) (.inl (sock_of_conn hm)) rfl
  | setNew env l hq => exact hi.same rfl (.inl rfl) rfl
  | queueRec env pc pc' l m hq e => exact hi.queueRec (fun hpc => hg (by simp [hq, hpc, QueuePc.opening])) e rfl
  | queueRecEnd env pc l m rc hq e => exact hi.queueRec (fun hpc => hg (by simp [hq, hpc, QueuePc.opening])) e rfl
  | discSend env r l hq =>
    have hm := conn_disconnectSend env.alloc s.m r l
    exact hi.same (discs_of_conn hm) (.inl (sock_of_conn hm)) rfl
  | waitNew env hl =>
    have hb : (if s.m.state = .new then LoopPc.waitNew else .top).busy = false := by split <;> rfl
    exact hi.goOn rfl (fun h => by simp [hb] at h) (closing_of_busy hb)
  | select r hl =>
    refine hi.goOn rfl ?_ (selectNext_elim (P := (·.closing = false)) (fun _ => rfl) rfl (fun _ => rfl))
    exact selectNext_elim (P := fun pc => pc.busy = true → discsSinceOpen s.m.trace = 0) (fun _ h => by cases h)
      (fun h => by cases h) (fun hs _ => hopen hs)
  | packet i n p again alloc hl hs hp t ht =>
    have h0 := hopen hs
    cases ht with
    | done m rc e hc he hr => exact hi.goOn hc (fun _ => h0) (by simp)
    | connack m r max e hc he hr => exact hi.goOn hc (fun _ => h0) rfl
    | unsupported m e hc he hr => exact hi.goOn hc (fun _ => h0) (by simp)
    | disconnect e he hr =>
      refine hi.keep rfl (.inr rfl) (fun _ => h0) (fun _ => rfl) (fun turn ht => ?_)
      cases ht
      exact hg (.read i n again) (by simp [hl, turnOf]) he
  | noPacket i n e again rc hl hrc => exact hi.goOn rfl (fun _ => hi.busy (by simp [hl, LoopPc.busy])) (by simp)
  | connack r max turn env hl =>
    obtain ⟨c, hm⟩ := connackSwitch_state env.alloc s.m r
    have h0 := hi.busy (by simp [hl, LoopPc.busy])
    exact hi.keep (congrArg Conn.discs hm) (.inl (congrArg Conn.sock hm)) (fun _ => h0) (fun h => by simp at h)
      (fun turn e => absurd e (not_discCall (by simp) turn))
  | discCall turn env hl =>
    refine hi.callback (by simp [hl, LoopPc.closing]) ?_
    rw [afterTurn_last (hi.last turn hl)]
    exact busy_afterIo ..
  | selWrite b hl =>
    by_cases hb : s.m.sock.isSome = true ∧ b = true
    · simp only [hb, and_self, if_true]
      exact hi.goOn rfl (fun _ => hopen (Option.isSome_iff_ne_none.mp hb.1)) rfl
    · simp only [hb, if_false]
      exact hi.goOn rfl (fun h => by cases h) rfl
  | write i n taken e again m rc hl he =>
    exact hi.goOn (conn_written he) (fun _ => hi.busy (by simp [hl, LoopPc.busy])) (by simp)
  | writeDisconnect i n taken e again m hl he =>
    have hm := conn_writtenDisconnect he
    refine hi.keep (congrArg Conn.discs hm) (.inr (congrArg Conn.sock hm))
      (fun _ => hi.busy (by simp [hl, LoopPc.busy]))
      (fun _ => congrArg Conn.sock hm) (fun turn ht => ?_)
    cases ht
    exact hg (.write i n again) (by simp [hl, turnOf]) ((written_disconnect_iff ..).mp (by rw [he]))
  | rcClose rc turn env hl =>
    exact hi.keep rfl (.inr rfl) (fun _ => hi.busy (by simp [hl, LoopPc.busy])) (fun _ => rfl)
      (fun _ h => by cases h)
  | rcCall rc turn env hl => exact hi.callback (by simp [hl, LoopPc.closing]) (busy_afterIo ..)
  | misc due alloc rc hl ht => exact hi.goOn rfl (fun h => by cases h) rfl
  | ping alloc hl hs hp => exact hi.goOn (conn_sendPingreq ..) (fun h => by cases h) rfl
  | unanswered alloc rc hl hs ht =>
    exact hi.keep rfl (.inr rfl) (fun _ => hopen hs) (fun _ => rfl) (fun _ h => by cases h)
  | kaCall rc env hl => exact hi.callback (by simp [hl, LoopPc.closing]) rfl
  | ret rc eproto hl =>
    have hb : (if rc = .success then LoopPc.top else if fatal rc = true ∨ eproto = true then .exited
        else .check1).busy =
        false := by
      repeat' split
      all_goals rfl
    exact hi.goOn rfl (fun h => by simp [hb] at h) (closing_of_busy hb)
  | check1 env hl =>
    have hb : (if ended s.m.state = true then LoopPc.exited else .sleep).busy = false := by split <;> rfl
    exact hi.goOn rfl (fun h => by simp [hb] at h) (closing_of_busy hb)
  | sleep ok hl =>
    have hb : (if ok = true then LoopPc.check2 else .exited).busy = false := by split <;> rfl
    exact hi.goOn rfl (fun h => by simp [hb] at h) (closing_of_busy hb)
  | check2 env hl =>
    have hb : (if ended s.m.state = true then LoopPc.exited else .rec_ .start).busy = false := by split <;> rfl
    exact hi.goOn rfl (fun h => by simp [hb] at h) (closing_of_busy hb)
  | loopRec env pc pc' m hl e => exact hi.loopRec e rfl
  | loopRecEnd env pc m rc hl e =>
    refine hi.loopRec e ?_
    dsimp only
    split <;> rfl

/-! ## Runs -/

theorem init_closing {s : Sys} (h : IsInit s) : Closing s := by
  obtain ⟨id, cleanStart, rfl⟩ := h
  exact ⟨Nat.zero_le 1, fun _ => rfl, fun _ => rfl, fun _ => rfl, fun _ h => (by cases h)⟩

/-- In a run whose DISCONNECTs are met in the last turn, and in which no socket is opened between a close and its
    callback, on_disconnect is called at most once for a connection. -/
theorem one_disconnect {s : Sys} (h : Machine.Reach step IsInit LastTurn s) : OneDisconnect s :=
  (h.inv (fun _ => init_closing) (fun _ _ _ hi hg hs => step_closing hi hg (step_moves hs))).once

def disconnectIn : InPacket := .disconnect (.ok 0) .success

def serverDisconnect : List Act := established [] ++ reads disconnectIn ++ [tick]

theorem one_disconnect_serverDisconnect : ∃ s, Machine.run step (Sys.init none true) serverDisconnect = some s ∧
    discsSinceOpen s.m.trace = 1 ∧ OneDisconnect s := by
  have hm : Machine.Meets step LastTurn (Sys.init none true) serverDisconnect := by decide
  have hr : (Machine.run step (Sys.init none true) serverDisconnect).map (fun s => discsSinceOpen s.m.trace) =
      some 1 := by
    decide
  obtain ⟨s, hs, hreach, hd⟩ := Machine.reach_of_map IsInit ⟨none, true, rfl⟩ hm hr
  exact ⟨s, hs, hd, one_disconnect hreach⟩

def publishIn (mid : UInt16) : InPacket :=
  .publish { dup := false, qos := 2, retain := false, topic := .ok (.of [116]), mid := .ok mid,
             properties := .ok [], payload := [], uid := 0 }

def storedTwo : List Act :=
  established [] ++ reads (publishIn 1) ++ idles ++ reads (publishIn 2) ++ idles ++
    [.loop (.select (.ready true)), .loop (.packet disconnectIn false RecEnv.good.alloc), tick,
     .loop (.noPacket .incomplete false), tick, tick]

/-- The second turn of the loop finds no socket, and reports the end of the connection again. -/
theorem storedTwo_reported_twice : ¬ ∀ s, Machine.Reach step IsInit Machine.anyAct s → OneDisconnect s := by
  intro h
  have hr : (Machine.run step (Sys.init none true) storedTwo).map (fun s => discsSinceOpen s.m.trace) =
      some 2 := by decide
  obtain ⟨s, hs, hd⟩ := Machine.reach_of_map_any IsInit ⟨none, true, rfl⟩ hr
  have := h s hs
  simp [OneDisconnect, hd] at this

end Artemisia.Threads
