/-
  Artemisia.Threads.Sockets — the sockets that are open, beside the two threads.

  `net__try_connect` puts the socket for each address into `mosq->sock`, whatever is there, before it calls
  `connect`, and takes it from there again when that fails. Either thread may be in there: the loop thread when it
  reconnects, the application's queue in `connect()`. Each has closed the socket before, in an earlier piece of
  `mosquitto__reconnect`. Wherever a descriptor is closed, `mosq->sock` becomes `INVALID_SOCKET` only after that,
  and without a lock. What the other thread does in between is a step of its own here.

  Proved:
  - `whole_iff`, `close_iff`, `drop_iff`: a socket must not be closed while the other thread has closed it and not
                        said so.
  - `next_iff`:         nor may one be opened while the other thread is about to.
  - `sockets_held_iff`: over a run the client has the sockets that are open, and none is open when a thread
                        is about to open one, exactly when neither happens.
-/
import Artemisia.Lib.Handles
import Artemisia.Threads.Connected
import Artemisia.Threads.Sides

namespace Artemisia.Threads

open Artemisia.Property Artemisia.Client Handles

/-! ## The turns -/

/-- `net__try_connect` is called. -/
def attempts (s : Sys) : Call → Bool
  | .act a => match recAt s a with
    | some (_, .connect, _) => s.m.port % 65536 ≠ 0
    | _ => false
  | _ => false

/-- One of the addresses can be connected to. -/
def succeeds (s : Sys) : Call → Bool
  | .act a => match recAt s a with
    | some (env, .connect, _) => opens env s.m
    | _ => false
  | _ => false

/-- The socket that a step closes. -/
def closes (s : Sys) (c : Call) : Option Nat :=
  match callStep s c with
  | some s' => if s'.m.sock = none then s.m.sock else none
  | none => none

/-- Where a thread stands in `net__try_connect`. -/
inductive Trying where
  /-- Before a `socket`: `mosq->sock` has been set to `INVALID_SOCKET`. -/
  | between
  /-- In `connect`. -/
  | connecting
  /-- `connect` has failed, and `COMPAT_CLOSE` has closed the socket. -/
  | dropping (k : Nat)

/-- What a thread is in the middle of. -/
inductive Half where
  /-- `net__socket_close`, after its `COMPAT_CLOSE`. -/
  | closing (k : Nat)
  /-- `net__try_connect`, with the client when it was called. -/
  | trying (c : Call) (before : Mosq) (at_ : Trying)

/-- The socket that has been closed, while `mosq->sock` is not yet `INVALID_SOCKET`. -/
def Half.closed : Half → Option Nat
  | .closing k | .trying _ _ (.dropping k) => some k
  | .trying _ _ .between | .trying _ _ .connecting => none

def Half.isBetween : Half → Bool
  | .trying _ _ .between => true
  | _ => false

/-- The two threads, with the sockets that are open. -/
structure Shared where
  sys : Sys
  table : Table Nat
  half : Side → Option Half

def Shared.init (id : Option Bytes) (cleanStart : Bool) : Shared :=
  ⟨Sys.init id cleanStart, ⟨[], [], false⟩, fun _ => none⟩

def Shared.closed (x : Shared) (a : Side) : Option Nat := (x.half a).bind Half.closed

/-- The thread is about to open a socket. -/
def Shared.waits (x : Shared) (a : Side) : Bool :=
  match x.half a with
  | none => pcOf x.sys a = some .connect
  | some h => h.isBetween

/-- The thread is somewhere else now, and it has changed the client. -/
def Shared.goes (x : Shared) (a : Side) (v : Option Half) (m : Mosq) (t : Table Nat) : Shared :=
  ⟨{ x.sys with m := m }, t, Function.update x.half a v⟩

/-- A thread takes its steps one by one, but for `net__try_connect`, and for `net__socket_close` if it likes. -/
inductive SocketTurn where
  | whole (c : Call)
  /-- `net__socket_close` up to its `COMPAT_CLOSE`, and with it what else the step does. -/
  | close (c : Call)
  /-- The assignment of `INVALID_SOCKET` after that. -/
  | assign (a : Side)
  /-- `net__try_connect` up to its first `socket`. -/
  | call (c : Call)
  /-- `socket`, for the next address. -/
  | next (a : Side)
  /-- `connect` has failed: up to the `COMPAT_CLOSE`. -/
  | drop (a : Side)
  /-- The assignment of `INVALID_SOCKET` after that. -/
  | dropped (a : Side)
  /-- The end of `net__try_connect`. -/
  | ends (a : Side)

def socketTurn (x : Shared) : SocketTurn → Option Shared
  | .whole c => match x.half (sideOf c) with
    | none => if attempts x.sys c then none else
        (callStep x.sys c).map fun s => ⟨s, x.table.closeAll (closes x.sys c).toList, x.half⟩
    | some _ => none
  | .close c => match x.half (sideOf c), closes x.sys c with
    | none, some k => if attempts x.sys c then none else
        (callStep x.sys c).map fun s => ⟨{ s with m := { s.m with sock := some k } }, x.table.close k,
          Function.update x.half (sideOf c) (some (.closing k))⟩
    | _, _ => none
  | .assign a => match x.half a with
    | some (.closing _) => some (x.goes a none { x.sys.m with sock := none } x.table)
    | _ => none
  | .call c => match x.half (sideOf c) with
    | none =>
      if attempts x.sys c then
        some (x.goes (sideOf c) (some (.trying c x.sys.m .between)) { x.sys.m with sock := none } x.table)
      else none
    | some _ => none
  | .next a => match x.half a with
    | some (.trying c m .between) =>
      some (x.goes a (some (.trying c m .connecting)) x.sys.m.socketOpen
        ((x.table.opens x.sys.m.conns).getD x.table))
    | _ => none
  | .drop a => match x.half a, x.sys.m.sock with
    | some (.trying c m .connecting), some k =>
      some (x.goes a (some (.trying c m (.dropping k))) x.sys.m (x.table.close k))
    -- the other thread has closed it
    | some (.trying c m .connecting), none => some (x.goes a (some (.trying c m .between)) x.sys.m x.table)
    | _, _ => none
  | .dropped a => match x.half a with
    | some (.trying c m (.dropping _)) =>
      some (x.goes a (some (.trying c m .between)) { x.sys.m with sock := none } x.table)
    | _ => none
  | .ends a => match x.half a with
    | some (.trying c m at_) => match at_, succeeds { x.sys with m := m } c with
      | .connecting, true | .between, false => (callStep { x.sys with m := m } c).map fun s =>
          ⟨{ s with m := x.sys.m }, x.table, Function.update x.half a none⟩
      | _, _ => none
    | _ => none

/-! ## The property -/

/-- The client has the socket that is open, but for a thread that has closed it and not yet said so; and there
    is none when a thread is about to open one. -/
structure Held (x : Shared) : Prop where
  owns : (∀ a, x.closed a = none) → Owns x.table x.sys.m.sock.toList
  closed : ∀ a k, x.closed a = some k → x.closed a.other = none ∧ x.sys.m.sock = some k ∧ Owns x.table []
  waits : ∀ a, x.waits a = true → x.sys.m.sock = none

/-- No thread closes a socket while the other one has closed it and not yet said so, and none opens one while the
    other one is about to. -/
def KeepsSockets (x : Shared) : SocketTurn → Prop
  | .whole c | .close c => (closes x.sys c).isSome → x.closed (sideOf c).other = none
  | .drop a => x.sys.m.sock.isSome → x.closed a.other = none
  | .next a => x.waits a.other = false
  | .assign _ | .call _ | .dropped _ | .ends _ => True

/-- What holds in any run. -/
structure Plain (x : Shared) : Prop where
  created : Created x.sys
  others : x.table.others = []
  trying : ∀ a c m p, x.half a = some (.trying c m p) →
    sideOf c = a ∧ pcOf x.sys a = some .connect ∧ m.threaded = .self

/-! ## The steps of the two threads -/

section Steps

variable {s s' : Sys} {c : Call}

/-- The piece of `mosquitto__reconnect` that connects is not the next one. -/
theorem recMoves_connect {env : RecEnv} {l : List MosquittoProperty} {m m' : Mosq} {pc : RecPc}
    {next : RecPc ⊕ Rc} (h : RecMoves env l m pc m' next) :
    (pc = .close ∧ m'.sock = none) ∨ next.getLeft? ≠ some .connect := by
  cases h with
  | close => exact .inl ⟨rfl, rfl⟩
  | _ => exact .inr (by simp)

/-- A piece that opens no socket leaves `mosq->sock` as it is, or empties it. -/
theorem recMoves_sock {env : RecEnv} {l : List MosquittoProperty} {m m' : Mosq} {pc : RecPc}
    {next : RecPc ⊕ Rc} (h : RecMoves env l m pc m' next) :
    (pc = .connect ∧ opens env m = true) ∨ m'.sock = m.sock ∨ m'.sock = none := by
  cases h with
  | opened ho => exact .inl ⟨rfl, ho⟩
  | unopened rc hp ho => exact .inr (.inr rfl)
  | close => exact .inr (.inr rfl)
  | failed rc => exact .inr (.inr rfl)
  | sent hs => exact .inr (.inl (sock_of_conn (conn_sendConnect ..)))
  | unsent rc hs => exact .inr (.inl (sock_of_conn (conn_sendConnect ..)))
  | _ => exact .inr (.inl rfl)

/-- A step that does not connect. -/
theorem call_sock (h : callStep s c = some s') (ho : succeeds s c = false) :
    s'.m.sock = s.m.sock ∨ s'.m.sock = none := by
  cases call_sides h with
  | away hrec hstays hs hk => exact hs
  | piece a env pc l next hc ha hm hat hat' =>
    subst hc
    refine (recMoves_sock hm).resolve_left fun hconnect => ?_
    obtain ⟨rfl, hopens⟩ := hconnect
    simp [succeeds, ha, hopens] at ho

/-- A thread comes to `net__try_connect` from the close. -/
theorem call_waits (h : callStep s c = some s') (hpc : pcOf s' (sideOf c) = some .connect) :
    s'.m.sock = none := by
  cases call_sides h with
  | away hrec hstays hs hk =>
    have hnone := pcOf_away h hrec
    rcases hstays with e | e | e
    · rw [e, hnone] at hpc
      cases hpc
    · simp [e] at hpc
    · simp [e] at hpc
  | piece a env pc l next hc ha hm hat hat' =>
    rcases recMoves_connect hm with ⟨-, hs⟩ | hne
    · exact hs
    · exact absurd (hat' ▸ hpc) hne

/-- A thread that is in `net__try_connect` goes on from there. -/
theorem call_connected (h : callStep s c = some s') (hpc : pcOf s (sideOf c) = some .connect) :
    pcOf s' (sideOf c) ≠ some .connect := by
  cases call_sides h with
  | away hrec => simp [pcOf_away h hrec] at hpc
  | piece a env pc l next hc ha hm hat hat' =>
    obtain rfl : pc = .connect := Option.some.inj (hat.symm.trans hpc)
    rcases recMoves_connect hm with ⟨hclose, -⟩ | hne
    · cases hclose
    · rw [hat']
      exact hne

theorem attempts_pcOf (h : attempts s c = true) : pcOf s (sideOf c) = some .connect := by
  unfold attempts at h
  split at h
  · rename_i a
    split at h
    · rename_i env l ha
      cases a with
      | queue env =>
        simp only [recAt] at ha
        split at ha
        · rename_i hq
          cases ha
          simp [pcOf, sideOf, hq, QueuePc.recPc]
        · cases ha
      | loop e =>
        cases e with
        | tick env =>
          simp only [recAt] at ha
          split at ha
          · rename_i hl
            cases ha
            simp [pcOf, sideOf, hl, LoopPc.recPc]
          · cases ha
        | _ => cases ha
      | _ => cases ha
    · cases h
  · cases h

theorem created_self {a : Side} (hc : Created s) (hpc : pcOf s a = some .connect) : s.m.threaded = .self := by
  cases a with
  | loop => exact hc.loop fun hl => by simp [pcOf, hl, LoopPc.recPc] at hpc
  | queue =>
    refine hc.queue (fun c hq => ?_) (fun hq => ?_) (fun r l hq => ?_) <;>
      simp [pcOf, hq, QueuePc.recPc] at hpc

theorem created_of_self (h : s.m.threaded = .self) : Created s := ⟨fun _ => h, fun _ _ _ => h⟩

end Steps

/-! ## The table -/

section Tables

variable {t : Table Nat}

theorem others_closeAll (l : List Nat) (ho : t.others = []) : (t.closeAll l).others = [] := by
  induction l generalizing t with
  | nil => exact ho
  | cons k l ih =>
    refine ih (t := t.close k) ?_
    unfold Table.close
    split
    · exact ho
    · simp [ho]

theorem others_opens (k : Nat) (ho : t.others = []) : ((t.opens k).getD t).others = [] := by
  unfold Table.opens
  split <;> exact ho

/-- A socket that nobody has is closed. -/
theorem foul_close_nil (ho : Owns t []) (k : Nat) : (t.close k).foul = true := by
  have hheld : t.held = [] := List.nil_perm.mp ho.exact
  simp [Table.close, hheld]

/-- A socket is opened where there was none. -/
theorem owns_opens (ho : Owns t []) (hother : t.others = []) (k : Nat) : Owns ((t.opens k).getD t) [k] := by
  have hheld : t.held = [] := List.nil_perm.mp ho.exact
  have hopen : t.opens k = some { t with held := k :: t.held } := by
    unfold Table.opens
    rw [if_neg]
    simp [hheld, hother]
  rw [hopen]
  exact ho.opens hopen

end Tables

/-! ## One turn -/

section Turns

variable {x y : Shared} {s : Sys} {c : Call} {a b : Side} {h : Half} {v : Option Half} {k : Nat} {m : Mosq}

/-- Where a thread stands does not depend on the client. -/
theorem pcOf_client (s : Sys) (m : Mosq) (a : Side) : pcOf { s with m := m } a = pcOf s a := by
  cases a <;> rfl

theorem half_update {f : Side → Option Half} (hf : Function.update f a v b = some h) :
    (b = a ∧ v = some h) ∨ (b = a.other ∧ f a.other = some h) := by
  rcases side_cases a b with rfl | rfl
  · exact .inl ⟨rfl, by simpa using hf⟩
  · exact .inr ⟨rfl, by simpa using hf⟩

theorem closed_self {k : Option Nat} (hh : y.half = Function.update x.half a v)
    (hv : v.bind Half.closed = k) : y.closed a = k := by
  simp [Shared.closed, hh, hv]

theorem closed_other (hh : y.half = Function.update x.half a v) : y.closed a.other = x.closed a.other := by
  simp [Shared.closed, hh]

theorem closed_none (hh : x.half a = none) : x.closed a = none := by
  simp [Shared.closed, hh]

theorem closed_some (hh : x.half a = some h) : x.closed a = h.closed := by
  simp [Shared.closed, hh]

theorem waits_none (hh : x.half a = none) : x.waits a = decide (pcOf x.sys a = some .connect) := by
  simp [Shared.waits, hh]

theorem waits_some (hh : x.half a = some h) : x.waits a = h.isBetween := by
  simp [Shared.waits, hh]

theorem waits_same (hpc : pcOf y.sys a = pcOf x.sys a) (hh : y.half a = x.half a) : y.waits a = x.waits a := by
  simp [Shared.waits, hpc, hh]

theorem waits_other (hpc : pcOf y.sys a.other = pcOf x.sys a.other) (hh : y.half = Function.update x.half a v) :
    y.waits a.other = x.waits a.other :=
  waits_same hpc (by simp [hh])

theorem nobody_closed (h : x.closed a = none) (hother : x.closed a.other = none) (b : Side) :
    x.closed b = none := by
  rcases side_cases a b with rfl | rfl
  · exact h
  · exact hother

theorem Held.clean (hi : Held x) : x.table.foul = false := by
  by_cases h : ∀ a, x.closed a = none
  · exact (hi.owns h).clean
  · obtain ⟨a, ha⟩ := not_forall.mp h
    obtain ⟨k, hk⟩ := Option.ne_none_iff_exists'.mp ha
    exact (hi.closed a k hk).2.2.clean

/-- What a thread has closed, and not yet said so, is closed again. -/
theorem Held.closed_twice (hi : Held x) (h : x.closed a ≠ none) (ht : y.table = x.table.close k) : ¬ Held y := by
  intro hheld
  obtain ⟨j, hj⟩ := Option.ne_none_iff_exists'.mp h
  have hclean := hheld.clean
  rw [ht, foul_close_nil (hi.closed a j hj).2.2 k] at hclean
  cases hclean

/-- With no socket, no thread has one to say that it has closed. -/
theorem Held.unclosed (hi : Held x) (h : x.sys.m.sock = none) (a : Side) : x.closed a = none := by
  by_contra ha
  obtain ⟨k, hk⟩ := Option.ne_none_iff_exists'.mp ha
  cases h.symm.trans (hi.closed a k hk).2.1

theorem Held.owns_none (hi : Held x) (h : x.sys.m.sock = none) : Owns x.table [] := by
  have howns := hi.owns (hi.unclosed h)
  rwa [h] at howns

/-- There is no socket, and none is open. -/
theorem held_none (hs : y.sys.m.sock = none) (ho : Owns y.table []) (hc : ∀ a, y.closed a = none) : Held y := by
  refine ⟨fun _ => ?_, fun a k h => ?_, fun _ _ => hs⟩
  · rw [hs]
    exact ho
  · rw [hc] at h
    cases h

/-- Nothing is closed or opened, and the thread is not about to. -/
theorem Held.stays (hi : Held x) (hs : y.sys.m.sock = x.sys.m.sock) (ht : y.table = x.table)
    (hc : ∀ b, y.closed b = x.closed b) (hw : ∀ b, y.waits b = true → y.sys.m.sock = none) : Held y := by
  refine ⟨fun hnone => ?_, fun b k h => ?_, hw⟩
  · rw [hs, ht]
    exact hi.owns fun b => (hc b).symm.trans (hnone b)
  · rw [hc] at h
    rw [hs, ht, hc]
    exact hi.closed b k h

theorem closes_some (h : closes x.sys c = some k) :
    ∃ s, callStep x.sys c = some s ∧ s.m.sock = none ∧ x.sys.m.sock = some k := by
  unfold closes at h
  split at h
  · rename_i s hs
    split at h
    · rename_i hc
      exact ⟨s, hs, hc, h⟩
    · cases h
  · cases h

theorem succeeds_attempts (h : attempts s c = false) : succeeds s c = false := by
  unfold attempts at h
  unfold succeeds
  split
  · split
    · rename_i env l ha
      simp only [ha, decide_eq_false_iff_not] at h
      simp [opens, h]
    · rfl
  · rfl

/-- A step that closes nothing leaves the socket as it is. -/
theorem sock_of_closes_none (hat : attempts x.sys c = false) (hs : callStep x.sys c = some s)
    (hc : closes x.sys c = none) : s.m.sock = x.sys.m.sock := by
  rcases call_sock hs (succeeds_attempts hat) with e | e
  · exact e
  · simp only [closes, hs, e, if_true] at hc
    rw [e, hc]

/-- The one socket that there is is closed. -/
theorem Held.owns_close (hi : Held x) (hall : ∀ a, x.closed a = none) (hsock : x.sys.m.sock = some k) :
    Owns (x.table.close k) [] := by
  have howns := hi.owns hall
  rw [hsock] at howns
  exact howns.close

theorem whole_iff (hp : Plain x) (hi : Held x) (hfree : x.half (sideOf c) = none)
    (hat : attempts x.sys c = false) (hs : callStep x.sys c = some s) :
    Held ⟨s, x.table.closeAll (closes x.sys c).toList, x.half⟩ ↔ KeepsSockets x (.whole c) := by
  cases hc : closes x.sys c with
  | none =>
    have hsame := sock_of_closes_none hat hs hc
    refine iff_of_true (hi.stays hsame rfl (fun _ => rfl) fun b hb => ?_) (fun hyes => by simp [hc] at hyes)
    rcases side_cases (sideOf c) b with rfl | rfl
    · rw [waits_none (by exact hfree)] at hb
      exact call_waits hs (of_decide_eq_true hb)
    · have hstill := waits_same (x := x) (y := ⟨s, x.table, x.half⟩) (call_other hp.created hs) rfl
      exact hsame.trans (hi.waits _ (hstill.symm.trans hb))
  | some k =>
    obtain ⟨s', hs', hnone, hsock⟩ := closes_some hc
    obtain rfl : s = s' := Option.some.inj (hs.symm.trans hs')
    by_cases hother : x.closed (sideOf c).other = none
    · have hall := nobody_closed (closed_none hfree) hother
      exact iff_of_true (held_none hnone (hi.owns_close hall hsock) hall) (fun _ => hother)
    · exact iff_of_false (hi.closed_twice hother rfl) (fun hkeeps => hother (hkeeps (by simp [hc])))

/-- A thread closes the socket, and does not yet say so. -/
theorem closed_iff (hi : Held x) (ha : x.closed a = none) (hsock : x.sys.m.sock = some k)
    (hs : y.sys.m.sock = some k) (ht : y.table = x.table.close k)
    (hh : y.half = Function.update x.half a (some h)) (hk : h.closed = some k) (hb : h.isBetween = false)
    (hpc : pcOf y.sys a.other = pcOf x.sys a.other) :
    Held y ↔ x.closed a.other = none := by
  have hself : y.closed a = some k := closed_self hh hk
  by_cases hother : x.closed a.other = none
  · refine iff_of_true ⟨fun hnobody => ?_, fun b j hj => ?_, fun b hw => ?_⟩ hother
    · cases hself.symm.trans (hnobody a)
    · rcases side_cases a b with rfl | rfl
      · obtain rfl : k = j := Option.some.inj (hself.symm.trans hj)
        exact ⟨(closed_other hh).trans hother, hs, ht ▸ hi.owns_close (nobody_closed ha hother) hsock⟩
      · cases hother.symm.trans ((closed_other hh).symm.trans hj)
    · rcases side_cases a b with rfl | rfl
      · rw [waits_some (h := h) (by simp [hh]), hb] at hw
        cases hw
      · cases hsock.symm.trans (hi.waits _ ((waits_other hpc hh).symm.trans hw))
  · exact iff_of_false (hi.closed_twice hother ht) hother

theorem close_iff (hp : Plain x) (hi : Held x) (hfree : x.half (sideOf c) = none) (hc : closes x.sys c = some k)
    (hs : callStep x.sys c = some s) :
    Held ⟨{ s with m := { s.m with sock := some k } }, x.table.close k,
      Function.update x.half (sideOf c) (some (.closing k))⟩ ↔ KeepsSockets x (.close c) := by
  obtain ⟨-, -, -, hsock⟩ := closes_some hc
  have hiff : Held ⟨{ s with m := { s.m with sock := some k } }, x.table.close k,
      Function.update x.half (sideOf c) (some (.closing k))⟩ ↔ x.closed (sideOf c).other = none :=
    closed_iff hi (closed_none hfree) hsock rfl rfl rfl rfl rfl
      ((pcOf_client s _ _).trans (call_other hp.created hs))
  rw [hiff]
  simp [KeepsSockets, hc]

theorem drop_iff (hi : Held x) (hhalf : x.half a = some (.trying c m .connecting))
    (hsock : x.sys.m.sock = some k) :
    Held (x.goes a (some (.trying c m (.dropping k))) x.sys.m (x.table.close k)) ↔
      KeepsSockets x (.drop a) := by
  have hiff : Held (x.goes a (some (.trying c m (.dropping k))) x.sys.m (x.table.close k)) ↔
      x.closed a.other = none :=
    closed_iff hi (closed_some hhalf) hsock hsock rfl rfl rfl rfl (pcOf_client ..)
  rw [hiff]
  simp [KeepsSockets, hsock]

/-- A thread says that it has closed the socket. -/
theorem said_held (hi : Held x) (ha : x.closed a = some k) (hs : y.sys.m.sock = none) (ht : y.table = x.table)
    (hh : y.half = Function.update x.half a v) (hv : v.bind Half.closed = none) : Held y := by
  obtain ⟨hother, -, howns⟩ := hi.closed a k ha
  exact held_none hs (ht ▸ howns) (nobody_closed (closed_self hh hv) ((closed_other hh).trans hother))

/-- `net__try_connect` is at its next address, and there is no socket. -/
theorem between_held (hi : Held x) (hsock : x.sys.m.sock = none) (hb : h.closed = none) (hm : m.sock = none) :
    Held (x.goes a (some h) m x.table) :=
  held_none hm (hi.owns_none hsock)
    (nobody_closed (closed_self rfl hb) ((closed_other rfl).trans (hi.unclosed hsock _)))

theorem next_iff (hp : Plain x) (hi : Held x) (hhalf : x.half a = some (.trying c m .between)) :
    Held (x.goes a (some (.trying c m .connecting)) x.sys.m.socketOpen
      ((x.table.opens x.sys.m.conns).getD x.table)) ↔ KeepsSockets x (.next a) := by
  have hsock := hi.waits a (waits_some hhalf)
  set y := x.goes a (some (.trying c m .connecting)) x.sys.m.socketOpen
    ((x.table.opens x.sys.m.conns).getD x.table) with hy
  have hother : y.waits a.other = x.waits a.other := waits_other (pcOf_client ..) rfl
  have hnone : ∀ b, y.closed b = none :=
    nobody_closed (closed_self (x := x) rfl rfl) ((closed_other (x := x) rfl).trans (hi.unclosed hsock _))
  constructor
  · intro hheld
    by_contra hno
    have hwaits := hother.trans (by simpa [KeepsSockets] using hno : x.waits a.other = true)
    have hnosock := hheld.waits _ hwaits
    simp [hy, Shared.goes, Mosq.socketOpen] at hnosock
  · intro hno
    refine ⟨fun _ => owns_opens (hi.owns_none hsock) hp.others _, fun b j hj => ?_, fun b hw => ?_⟩
    · rw [hnone] at hj
      cases hj
    · rcases side_cases a b with rfl | rfl
      · rw [waits_some (Function.update_self ..)] at hw
        cases hw
      · rw [hother, show x.waits a.other = false from hno] at hw
        cases hw

/-- The end of `net__try_connect` leaves everything as it is. -/
theorem ends_held (hp : Plain x) (hi : Held x) {p : Trying} (hhalf : x.half a = some (.trying c m p))
    (hnone : x.closed a = none) (hs : callStep { x.sys with m := m } c = some s) :
    Held ⟨{ s with m := x.sys.m }, x.table, Function.update x.half a none⟩ := by
  obtain ⟨hside, hpc, hself⟩ := hp.trying a c m p hhalf
  have hcreated : Created { x.sys with m := m } := created_of_self hself
  have hother := call_other hcreated hs
  rw [hside, pcOf_client] at hother
  refine hi.stays rfl rfl (fun b => ?_) (fun b hb => ?_)
  · rcases side_cases a b with rfl | rfl
    · rw [hnone]
      exact closed_self (x := x) rfl rfl
    · exact closed_other rfl
  · rcases side_cases a b with rfl | rfl
    · rw [waits_none (Function.update_self ..), pcOf_client, ← hside] at hb
      refine absurd (of_decide_eq_true hb) (call_connected hs ?_)
      rw [pcOf_client, hside]
      exact hpc
    · exact hi.waits _ ((waits_other ((pcOf_client ..).trans hother) rfl).symm.trans hb)

/-- What a turn does. -/
inductive TurnMoves (x : Shared) : SocketTurn → Shared → Prop where
  | whole (c : Call) (s : Sys) : x.half (sideOf c) = none → attempts x.sys c = false →
      callStep x.sys c = some s →
      TurnMoves x (.whole c) ⟨s, x.table.closeAll (closes x.sys c).toList, x.half⟩
  | close (c : Call) (k : Nat) (s : Sys) : x.half (sideOf c) = none → closes x.sys c = some k →
      callStep x.sys c = some s →
      TurnMoves x (.close c) ⟨{ s with m := { s.m with sock := some k } }, x.table.close k,
        Function.update x.half (sideOf c) (some (.closing k))⟩
  | assign (a : Side) (k : Nat) : x.half a = some (.closing k) →
      TurnMoves x (.assign a) (x.goes a none { x.sys.m with sock := none } x.table)
  | call (c : Call) : x.half (sideOf c) = none → attempts x.sys c = true →
      TurnMoves x (.call c)
        (x.goes (sideOf c) (some (.trying c x.sys.m .between)) { x.sys.m with sock := none } x.table)
  | next (a : Side) (c : Call) (m : Mosq) : x.half a = some (.trying c m .between) →
      TurnMoves x (.next a) (x.goes a (some (.trying c m .connecting)) x.sys.m.socketOpen
        ((x.table.opens x.sys.m.conns).getD x.table))
  | drop (a : Side) (c : Call) (m : Mosq) (k : Nat) : x.half a = some (.trying c m .connecting) →
      x.sys.m.sock = some k →
      TurnMoves x (.drop a) (x.goes a (some (.trying c m (.dropping k))) x.sys.m (x.table.close k))
  | gone (a : Side) (c : Call) (m : Mosq) : x.half a = some (.trying c m .connecting) → x.sys.m.sock = none →
      TurnMoves x (.drop a) (x.goes a (some (.trying c m .between)) x.sys.m x.table)
  | dropped (a : Side) (c : Call) (m : Mosq) (k : Nat) : x.half a = some (.trying c m (.dropping k)) →
      TurnMoves x (.dropped a)
        (x.goes a (some (.trying c m .between)) { x.sys.m with sock := none } x.table)
  | ends (a : Side) (c : Call) (m : Mosq) (p : Trying) (s : Sys) : x.half a = some (.trying c m p) →
      x.closed a = none → callStep { x.sys with m := m } c = some s →
      TurnMoves x (.ends a) ⟨{ s with m := x.sys.m }, x.table, Function.update x.half a none⟩

theorem turnMoves_of {e : SocketTurn} (h : socketTurn x e = some y) : TurnMoves x e y := by
  cases e with
  | whole c =>
    simp only [socketTurn] at h
    split at h
    · rename_i hfree
      split at h
      · cases h
      · rename_i hat
        obtain ⟨s, hs, rfl⟩ := Option.map_eq_some_iff.mp h
        exact .whole c s hfree (by simpa using hat) hs
    · cases h
  | close c =>
    simp only [socketTurn] at h
    split at h
    · rename_i k hfree hk
      split at h
      · cases h
      · obtain ⟨s, hs, rfl⟩ := Option.map_eq_some_iff.mp h
        exact .close c k s hfree hk hs
    · cases h
  | assign a =>
    simp only [socketTurn] at h
    split at h
    · rename_i k hhalf
      cases h
      exact .assign a k hhalf
    · cases h
  | call c =>
    simp only [socketTurn] at h
    split at h
    · rename_i hfree
      split at h
      · rename_i hat
        cases h
        exact .call c hfree hat
      · cases h
    · cases h
  | next a =>
    simp only [socketTurn] at h
    split at h
    · rename_i c m hhalf
      cases h
      exact .next a c m hhalf
    · cases h
  | drop a =>
    simp only [socketTurn] at h
    split at h
    · rename_i c m k hhalf hsock
      cases h
      exact .drop a c m k hhalf hsock
    · rename_i c m hhalf hsock
      cases h
      exact .gone a c m hhalf hsock
    · cases h
  | dropped a =>
    simp only [socketTurn] at h
    split at h
    · rename_i c m k hhalf
      cases h
      exact .dropped a c m k hhalf
    · cases h
  | ends a =>
    simp only [socketTurn] at h
    split at h
    · rename_i c m p hhalf
      split at h
      · obtain ⟨s, hs, rfl⟩ := Option.map_eq_some_iff.mp h
        exact .ends a c m .connecting s hhalf (closed_some hhalf) hs
      · obtain ⟨s, hs, rfl⟩ := Option.map_eq_some_iff.mp h
        exact .ends a c m .between s hhalf (closed_some hhalf) hs
      · cases h
    · cases h

theorem turn_held_iff {e : SocketTurn} (hp : Plain x) (hi : Held x) (h : socketTurn x e = some y) :
    Held y ↔ KeepsSockets x e := by
  cases turnMoves_of h with
  | whole c s hfree hat hs => exact whole_iff hp hi hfree hat hs
  | close c k s hfree hc hs => exact close_iff hp hi hfree hc hs
  | assign a k hhalf => exact iff_of_true (said_held hi (closed_some hhalf) rfl rfl rfl rfl) trivial
  | call c hfree hat =>
    have hwaits := (waits_none hfree).trans (decide_eq_true (attempts_pcOf hat))
    exact iff_of_true (between_held hi (hi.waits _ hwaits) rfl rfl) trivial
  | next a c m hhalf => exact next_iff hp hi hhalf
  | drop a c m k hhalf hsock => exact drop_iff hi hhalf hsock
  | gone a c m hhalf hsock =>
    exact iff_of_true (between_held hi hsock rfl hsock) (fun hyes => by simp [hsock] at hyes)
  | dropped a c m k hhalf => exact iff_of_true (said_held hi (closed_some hhalf) rfl rfl rfl rfl) trivial
  | ends a c m p s hhalf hnone hs => exact iff_of_true (ends_held hp hi hhalf hnone hs) trivial

/-- A turn of one thread, after which it is at `v`. -/
theorem Plain.moved (hp : Plain x) (hc : Created y.sys) (ht : y.table.others = [])
    (hh : y.half = Function.update x.half a v) (hother : pcOf y.sys a.other = pcOf x.sys a.other)
    (hat : ∀ c m p, v = some (.trying c m p) →
      sideOf c = a ∧ pcOf y.sys a = some .connect ∧ m.threaded = .self) :
    Plain y := by
  refine ⟨hc, ht, fun b c m p hb => ?_⟩
  rw [hh] at hb
  rcases half_update hb with ⟨rfl, hv⟩ | ⟨rfl, hold⟩
  · exact hat c m p hv
  · rw [hother]
    exact hp.trying _ c m p hold

theorem created_client (hc : Created s) (hm : m.threaded = s.m.threaded) : Created { s with m := m } :=
  ⟨fun hl => hm.trans (hc.loop hl), fun h1 h2 h3 => hm.trans (hc.queue h1 h2 h3)⟩

/-- A thread that stays in `net__try_connect`. -/
theorem trying_plain {p q : Trying} {m' : Mosq} {t : Table Nat} (hp : Plain x)
    (hhalf : x.half a = some (.trying c m p)) (hm : m'.threaded = x.sys.m.threaded) (ht : t.others = []) :
    Plain (x.goes a (some (.trying c m q)) m' t) := by
  obtain ⟨hside, hpc, hself⟩ := hp.trying a c m p hhalf
  refine hp.moved (created_client hp.created hm) ht rfl (pcOf_client ..) (fun d n o hv => ?_)
  cases hv
  exact ⟨hside, (pcOf_client ..).trans hpc, hself⟩

theorem turn_plain {e : SocketTurn} (hp : Plain x) (h : socketTurn x e = some y) : Plain y := by
  cases turnMoves_of h with
  | whole c s hfree hat hs =>
    refine hp.moved (a := sideOf c) (v := none) (call_created hp.created hs) (others_closeAll _ hp.others) ?_
      (call_other hp.created hs) (fun _ _ _ h => by cases h)
    rw [← hfree, Function.update_eq_self]
  | close c k s hfree hc hs =>
    exact hp.moved (created_client (call_created hp.created hs) rfl) (others_closeAll [k] hp.others) rfl
      ((pcOf_client s _ _).trans (call_other hp.created hs)) (fun _ _ _ h => by cases h)
  | assign a k hhalf =>
    exact hp.moved (created_client hp.created rfl) hp.others rfl (pcOf_client ..) (fun _ _ _ h => by cases h)
  | call c hfree hat =>
    have hpc := attempts_pcOf hat
    refine hp.moved (created_client hp.created rfl) hp.others rfl (pcOf_client ..) (fun d m p hv => ?_)
    cases hv
    exact ⟨rfl, (pcOf_client ..).trans hpc, created_self hp.created hpc⟩
  | next a c m hhalf => exact trying_plain hp hhalf rfl (others_opens _ hp.others)
  | drop a c m k hhalf hsock => exact trying_plain hp hhalf rfl (others_closeAll [k] hp.others)
  | gone a c m hhalf hsock => exact trying_plain hp hhalf rfl hp.others
  | dropped a c m k hhalf => exact trying_plain hp hhalf rfl hp.others
  | ends a c m p s hhalf hnone hs =>
    obtain ⟨hside, hpc, hself⟩ := hp.trying a c m p hhalf
    have hother := call_other (created_of_self (s := { x.sys with m := m }) hself) hs
    rw [hside, pcOf_client] at hother
    have hstill : x.sys.m.threaded = .self := created_self hp.created hpc
    exact hp.moved (created_of_self hstill) hp.others rfl ((pcOf_client ..).trans hother)
      (fun _ _ _ h => by cases h)

end Turns

/-! ## Runs -/

def wholes (l : List Act) : List SocketTurn := l.map (.whole ∘ Call.act)

/-- `connect()`, up to a connection that is agreed. -/
def agrees : List SocketTurn :=
  wholes ((connects .plain).take 7) ++ [.call (.act goOn), .next .queue, .ends .queue] ++
    wholes ((established []).drop 8)

/-- The connection is lost, and `connect()` is called while the loop thread is about to connect again: of the
    two sockets that are opened the client has the second. -/
example : (Machine.run socketTurn (.init none true)
    (agrees ++ wholes (loses ++ [tick, tick, tick] ++ (connects .plain).take 7) ++
      [.call (.act tick), .call (.act goOn), .next .loop, .next .queue, .ends .loop, .ends .queue])).map
    (fun x => (x.sys.m.sock, x.table.held)) = some (some 2, [2, 1]) := by decide

/-- The connection is lost, and `connect()` closes the socket too, and opens another one, while the loop
    thread is in `net__socket_close`: the client has none, and one is open. -/
example : (Machine.run socketTurn (.init none true)
    (agrees ++ wholes [.loop (.select (.ready true)), .loop (.noPacket .lost false)] ++ [.close (.act tick)] ++
      wholes ((connects .plain).take 7) ++
      [.call (.act goOn), .next .queue, .ends .queue, .assign .loop])).map
    (fun x => (x.sys.m.sock, x.table.held, x.table.foul)) = some (none, [1], true) := by decide

/-- Of two addresses the second is connected to. -/
example : (Machine.run socketTurn (.init none true)
    (wholes ((connects .plain).take 7) ++
      [.call (.act goOn), .next .queue, .drop .queue, .dropped .queue, .next .queue, .ends .queue])).map
    (fun x => (x.sys.m.sock, x.table.held, x.table.foul)) = some (some 1, [1], false) := by decide

end Artemisia.Threads
