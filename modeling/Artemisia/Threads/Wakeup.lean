/-
  Artemisia.Threads.Wakeup — the pair of sockets that wakes the loop thread (`packet__queue`, `mosquitto_loop`).

  The loop thread looks whether there is something to write, and then waits in `pselect`; the application's
  queue may put a packet in between. It writes a byte to the pair after it has put the packet into the list, and
  the loop thread takes one byte in a round. Here `mosquitto_loop` is in its parts, about the client of the other
  modules: what it reads goes through the handlers, and what it writes through `packetWrite`. It is followed as
  long as the connection lasts: a read or a write that fails, a DISCONNECT from either side and the end of the
  keepalive close the socket, and what has not been written then never is.

  Proved:
  - `paired_awake`:       while a packet is to be written and no call is under way, `pselect` does not wait for
                          the server or for the time.
  - `written_two_rounds`: a packet is written within two rounds of `mosquitto_loop`, if the socket takes what it
                          is given.
  - `prompt_iff`:         the loop thread writes what is queued without the server and without the clock,
                          exactly if there is a pair.
-/
import Artemisia.Client.Sends
import Artemisia.Inbound.Receive
import Artemisia.Threads.Closing

namespace Artemisia.Wakeup

open Artemisia.Property Artemisia.Client Artemisia.Inbound

/-! ## The code -/

/-- Where the loop thread stands in `mosquitto_loop`. -/
inductive LoopPc where
  | enter
  /-- `pselect`; whether the socket is in `writefds`. -/
  | select (writefds : Bool)
  /-- `mosquitto_loop_read`; whether there is a byte in the pair, and whether the socket can be written. -/
  | read (pair writefds : Bool)
  /-- Before the byte is taken. -/
  | pairbuf (pair writefds : Bool)
  /-- `mosquitto_loop_write`, if the socket is in `writefds`. -/
  | write (writefds : Bool)
  | misc
  /-- It has returned an error. -/
  | out
  deriving DecidableEq, Repr

structure State where
  m : Mosq
  /-- The bytes in the pair. -/
  pair : Nat
  loop : LoopPc
  /-- The application's queue is in `packet__queue` between the list and the pair. -/
  calling : Bool
  /-- How many packets have been written. -/
  written : Nat

inductive LoopEv where
  | enter
  /-- `pselect` returns: what it has of the socket, and whether the time is over. -/
  | selected (readable writable timeout : Bool)
  | interrupted
  | failed
  /-- A turn of `mosquitto_loop_read` in which a packet is handled. -/
  | packet (p : InPacket) (alloc : Alloc)
  | readFailed
  | readDone
  | pairbuf
  /-- A turn of `mosquitto_loop_write`; whether there is another one. -/
  | write (taken : Nat) (e : Threads.WriteEnd) (more : Bool)
  /-- `mosquitto__check_keepalive`: whether its time has come. -/
  | misc (due : Bool) (alloc : Alloc)

inductive Act where
  /-- `packet__queue` on the application's queue, up to the pair, and its end. -/
  | queue (p : Packet)
  | wake
  /-- `mosquitto_disconnect_v5` before it sends. -/
  | disconnects
  | loop (e : LoopEv)

variable (paired : Bool) (room : Nat)

/-- The byte of `packet__queue`, if there is a pair and it is not full. -/
def byte (pair : Nat) : Nat := if paired ∧ pair ≤ room then pair + 1 else pair

/-- The loop thread has gone on with the client, with a byte for each packet that it has queued. -/
def State.onward (s : State) (m : Mosq) : State :=
  { s with
    m := m
    pair := (byte paired room)^[(unwritten m).length - (unwritten s.m).length] s.pair
    loop := if m.sock = none then .out else s.loop }

/-- `packet__write` has been called. -/
def State.wrote (s : State) (m : Mosq) (loop : LoopPc) : State :=
  { s with m := m, written := s.written + ((unwritten s.m).length - (unwritten m).length), loop := loop }

def loopStep (s : State) (e : LoopEv) : Option State :=
  match s.loop, e with
  | .enter, .enter => some { s with loop := .select (unwritten s.m ≠ []) }
  | .select writefds, .selected readable writable timeout =>
    if readable ∨ (writefds ∧ writable) ∨ s.pair ≠ 0 ∨ timeout then
      let writefds := writefds && writable
      some { s with loop := if readable then .read (s.pair ≠ 0) writefds else .pairbuf (s.pair ≠ 0) writefds }
    else none
  | .select _, .interrupted => some { s with loop := .enter }
  | .select _, .failed => some { s with loop := .out }
  | .read _ _, .packet p alloc => if survives alloc s.m p then
      some (s.onward paired room (receive alloc s.m p)) else none
  | .read _ _, .readFailed => some { s with m := endConnection s.m, loop := .out }
  | .read pair writefds, .readDone => some { s with loop := .pairbuf pair writefds }
  | .pairbuf pair writefds, .pairbuf =>
    -- the write is faked
    some { s with pair := if pair then s.pair - 1 else s.pair, loop := .write (writefds || pair) }
  | .write writefds, .write taken e more =>
    if writefds then match packetWrite e.rc taken s.m with
      | (m, .done rc) =>
        if rc = .success then some (s.wrote m (if more then .write writefds else .misc))
        else some (s.wrote (endConnection m) .out)
      | (m, .disconnect) => some (s.wrote m .out)
    else some { s with loop := .misc }
  | .misc, .misc due alloc =>
    if !due then some { s with loop := .enter }
    else if s.m.state = .active ∧ !s.m.pingT then
      some { s.onward paired room (sendPingreq alloc s.m).1 with loop := .enter }
    else some { s with m := s.m.socketClose, loop := .out }
  | _, _ => none

def step (s : State) : Act → Option State
  | .queue p => if s.calling then none else some { s with m := packetQueue s.m p, calling := true }
  | .wake => if s.calling then some { s with pair := byte paired room s.pair, calling := false } else none
  | .disconnects => if s.calling then none else some { s with m := s.m.setState .disconnected }
  | .loop e => loopStep paired room s e

/-- While the loop goes on there is a socket, which is connected. -/
structure Open (s : State) : Prop where
  sock : s.loop ≠ .out → s.m.sock ≠ none
  state : s.loop ≠ .out → s.m.state ≠ .connectPending
  store : StoreOk s.m.msgsOut.inflight

/-- A connection begins; bytes may be left in the pair, if there is one. -/
structure Starts (s : State) : Prop where
  opened : Open s
  loop : s.loop = .enter
  calling : s.calling = false
  pair : paired = false → s.pair = 0

def Reached (s : State) : Prop := Machine.Reach (step paired room) (Starts paired) Machine.anyAct s

/-! ## What a step does -/

def State.total (s : State) : Nat := s.written + (unwritten s.m).length

section Client

variable {alloc : Alloc} {m : Mosq}

theorem appends_handleConnack (m : Mosq) (flags reason : Except Rc UInt8)
    (l : Except Rc (List MosquittoProperty)) :
    unwritten (handleConnack m flags reason l).1 = unwritten m := by
  unfold handleConnack
  repeat' split
  all_goals rfl

theorem appends_handlePacket {p : InPacket} (h : (handlePacket alloc m p).2 ≠ .disconnect) :
    (unwritten m).length ≤ (unwritten (handlePacket alloc m p).1).length := by
  by_cases hp : p.sends = true
  · obtain ⟨l, hl, -⟩ := (sends_handlePacket alloc m hp).unwritten
    simp [hl]
  cases p with
  | connack flags reason l => exact (congrArg List.length (appends_handleConnack m flags reason l)).ge
  | disconnect reason tail =>
    simp only [handlePacket, handleDisconnect] at h ⊢
    repeat' split
    all_goals first | exact Nat.le_refl _ | simp_all
  | _ => exact absurd rfl hp

/-- A packet that is read closes the socket, or only adds to what is to be written. -/
theorem receive_open {p : InPacket} (hst : StoreOk m.msgsOut.inflight) (hstate : m.state ≠ .connectPending) :
    (receive alloc m p).sock = none ∨
      ((receive alloc m p).state ≠ .connectPending ∧
        (unwritten m).length ≤ (unwritten (receive alloc m p)).length) := by
  rcases conn_handlePacket alloc m p with ⟨hc, hne, -⟩ | ⟨hd, -⟩
  · have happends := appends_handlePacket hne
    have hkeeps : (handlePacket alloc m p).1.state ≠ .connectPending := by rwa [state_of_conn hc]
    unfold receive
    dsimp only
    split
    · split
      · exact .inr ⟨hkeeps, happends⟩
      · exact .inl rfl
    · rename_i r _ _
      have hs := sends_connackSwitch alloc (handlePacket alloc m p).1 r (storeOk_handlePacket alloc m p hst)
      obtain ⟨l, hl, -⟩ := hs.unwritten
      split
      · refine .inr ⟨?_, by simp only [hl, List.length_append]; omega⟩
        have hconn := Threads.conn_connackSwitch alloc (handlePacket alloc m p).1 r
        split at hconn
        · rw [show (connackSwitch alloc (handlePacket alloc m p).1 r).1.state =
            .active from congrArg Conn.state hconn]
          decide
        · rw [state_of_conn hconn]
          exact hkeeps
      · exact .inl rfl
    · exact .inl rfl
    · rename_i e
      exact absurd e hne
  · left
    unfold receive
    rw [hd]
    rfl

/-- `packet__write` writes all there is if the socket takes so much, up to a DISCONNECT. -/
theorem packetWriteLoop_all (stop : Rc) (n : Nat) {m : Mosq} (hn : (unwritten m).length ≤ n)
    (h : m.currentOutPacket = none → m.outPacket = []) :
    (packetWriteLoop stop n m).2 = .disconnect ∨
      ((packetWriteLoop stop n m).2 = .done .success ∧ unwritten (packetWriteLoop stop n m).1 = []) := by
  induction n generalizing m with
  | zero =>
    have hnil : unwritten m = [] := List.length_eq_zero_iff.mp (by omega)
    obtain ⟨hcurrent, -⟩ := List.append_eq_nil_iff.mp hnil
    have hnone : m.currentOutPacket = none := by simpa using hcurrent
    simp [packetWriteLoop, hnone, hnil]
  | succ n ih =>
    unfold packetWriteLoop
    split
    · rename_i hnone
      exact .inr ⟨rfl, by simp [unwritten, hnone, h hnone]⟩
    · exact .inl rfl
    · rename_i p hne hp
      have hlen : m.outPacket.length ≤ n := by
        have hone : (unwritten m).length = m.outPacket.length + 1 := by simp [unwritten, hp]
        omega
      have hnext (m' : Mosq) (ho : m'.outPacket = m.outPacket) := ih (m := nextPacket m')
        (by rw [unwritten_nextPacket, ho]; exact hlen) (fun hhead => by
          have hhead : m'.outPacket.head? = none := hhead
          simp [nextPacket, List.head?_eq_none_iff.mp hhead])
      dsimp only
      split
      · exact hnext _ rfl
      · exact hnext _ rfl

theorem packetWrite_all (stop : Rc) {n : Nat} (hn : (unwritten m).length ≤ n) (hsock : m.sock ≠ none)
    (hstate : m.state ≠ .connectPending) : (packetWrite stop n m).2 = .disconnect ∨
      ((packetWrite stop n m).2 = .done .success ∧ unwritten (packetWrite stop n m).1 = []) := by
  have hstate : (takeNext m).state ≠ .connectPending := by rwa [state_of_conn (Threads.conn_takeNext m)]
  unfold packetWrite
  rw [if_neg hsock, if_neg hstate]
  exact packetWriteLoop_all stop n (by rwa [unwritten_takeNext]) (takeNext_current m)

end Client

variable {paired room} {s s' : State} {a : Act}

/-- What the loop thread does. -/
inductive LoopMoves (paired : Bool) (room : Nat) (s : State) : LoopEv → State → Prop where
  | looks : s.loop = .enter → LoopMoves paired room s .enter { s with loop := .select (unwritten s.m ≠ []) }
  | selected (writefds readable writable timeout : Bool) : s.loop = .select writefds →
      LoopMoves paired room s (.selected readable writable timeout)
        { s with loop := if readable then .read (s.pair ≠ 0) (writefds && writable)
                         else .pairbuf (s.pair ≠ 0) (writefds && writable) }
  | interrupted (writefds : Bool) : s.loop = .select writefds →
      LoopMoves paired room s .interrupted { s with loop := .enter }
  | failed (writefds : Bool) : s.loop = .select writefds → LoopMoves paired room s .failed { s with loop := .out }
  | packet (pair writefds : Bool) (p : InPacket) (alloc : Alloc) : s.loop = .read pair writefds →
      LoopMoves paired room s (.packet p alloc) (s.onward paired room (receive alloc s.m p))
  | readFailed (pair writefds : Bool) : s.loop = .read pair writefds →
      LoopMoves paired room s .readFailed { s with m := endConnection s.m, loop := .out }
  | readDone (pair writefds : Bool) : s.loop = .read pair writefds →
      LoopMoves paired room s .readDone { s with loop := .pairbuf pair writefds }
  | pairbuf (pair writefds : Bool) : s.loop = .pairbuf pair writefds →
      LoopMoves paired room s .pairbuf
        { s with pair := if pair then s.pair - 1 else s.pair, loop := .write (writefds || pair) }
  | nothing (taken : Nat) (e : Threads.WriteEnd) (more : Bool) : s.loop = .write false →
      LoopMoves paired room s (.write taken e more) { s with loop := .misc }
  | wrote (taken : Nat) (e : Threads.WriteEnd) (more : Bool) (m : Mosq) : s.loop = .write true →
      packetWrite e.rc taken s.m = (m, .done .success) →
      LoopMoves paired room s (.write taken e more) (s.wrote m (if more then .write true else .misc))
  | writeFailed (taken : Nat) (e : Threads.WriteEnd) (more : Bool) (m : Mosq) (rc : Rc) : s.loop = .write true →
      packetWrite e.rc taken s.m = (m, .done rc) → rc ≠ .success →
      LoopMoves paired room s (.write taken e more) (s.wrote (endConnection m) .out)
  | writeDisconnect (taken : Nat) (e : Threads.WriteEnd) (more : Bool) (m : Mosq) : s.loop = .write true →
      packetWrite e.rc taken s.m = (m, .disconnect) →
        LoopMoves paired room s (.write taken e more) (s.wrote m .out)
  | idle (alloc : Alloc) : s.loop = .misc → LoopMoves paired room s (.misc false alloc) { s with loop := .enter }
  | ping (alloc : Alloc) : s.loop = .misc →
      LoopMoves paired room s (.misc true alloc)
        { s.onward paired room (sendPingreq alloc s.m).1 with loop := .enter }
  | dead (alloc : Alloc) : s.loop = .misc →
      LoopMoves paired room s (.misc true alloc) { s with m := s.m.socketClose, loop := .out }

theorem loopStep_moves {e : LoopEv} (h : loopStep paired room s e = some s') : LoopMoves paired room s e s' := by
  unfold loopStep at h
  split at h
  · cases h
    exact .looks ‹_›
  · split at h <;> cases h
    exact .selected _ _ _ _ ‹_›
  · cases h
    exact .interrupted _ ‹_›
  · cases h
    exact .failed _ ‹_›
  · split at h <;> cases h
    exact .packet _ _ _ _ ‹_›
  · cases h
    exact .readFailed _ _ ‹_›
  · cases h
    exact .readDone _ _ ‹_›
  · cases h
    exact .pairbuf _ _ ‹_›
  · rename_i writefds taken e more hl
    cases writefds with
    | false =>
      cases h
      exact .nothing _ _ _ hl
    | true =>
      rw [if_pos rfl] at h
      split at h
      · rename_i m rc hw
        split at h
        · rename_i hrc
          subst hrc
          cases h
          exact .wrote _ _ _ m hl hw
        · rename_i hrc
          cases h
          exact .writeFailed _ _ _ m rc hl hw hrc
      · rename_i m hw
        cases h
        exact .writeDisconnect _ _ _ m hl hw
  · rename_i due alloc hl
    cases due with
    | false =>
      cases h
      exact .idle alloc hl
    | true =>
      simp only [Bool.not_true, Bool.false_eq_true, if_false] at h
      split at h
      · cases h
        exact .ping alloc hl
      · cases h
        exact .dead alloc hl
  · cases h

/-- What a step does. -/
inductive Moves (paired : Bool) (room : Nat) (s : State) : Act → State → Prop where
  | queue (p : Packet) : Moves paired room s (.queue p) { s with m := packetQueue s.m p, calling := true }
  | wake : Moves paired room s .wake { s with pair := byte paired room s.pair, calling := false }
  | disconnects : Moves paired room s .disconnects { s with m := s.m.setState .disconnected }
  | loop (e : LoopEv) (s' : State) : loopStep paired room s e = some s' → LoopMoves paired room s e s' →
      Moves paired room s (.loop e) s'

theorem step_moves (h : step paired room s a = some s') : Moves paired room s a s' := by
  cases a with
  | queue p =>
    simp only [step] at h
    split at h <;> cases h
    exact .queue p
  | wake =>
    simp only [step] at h
    split at h <;> cases h
    exact .wake
  | disconnects =>
    simp only [step] at h
    split at h <;> cases h
    exact .disconnects
  | loop e => exact .loop e s' h (loopStep_moves h)

/-- The loop thread has returned for good. -/
theorem out_stays (hl : s.loop = .out) (h : step paired room s a = some s') : s'.loop = .out ∧
    s'.written = s.written := by
  cases step_moves h with
  | loop e _ hs => simp [loopStep, hl] at hs
  | _ => exact ⟨hl, rfl⟩

def endsRound : Act → Bool
  | .loop (.misc ..) => true
  | _ => false

/-- What is in the queue is written in this round. -/
def LoopPc.writes : LoopPc → Bool
  | .enter => true
  | .select writefds => writefds
  | .read pair writefds | .pairbuf pair writefds => writefds || pair
  | .write writefds => writefds
  | .misc | .out => false

/-- The socket can be written when `pselect` returns, and takes what it is given. -/
def Flows (s : State) : Act → Prop
  | .loop (.selected _ writable _) => writable = true
  | .loop .interrupted => False
  | .loop (.write taken _ _) => (unwritten s.m).length ≤ taken
  | _ => True

instance (s : State) : (a : Act) → Decidable (Flows s a)
  | .loop (.selected _ writable _) => inferInstanceAs (Decidable (writable = true))
  | .loop .interrupted => isFalse id
  | .loop (.write taken _ _) => inferInstanceAs (Decidable ((unwritten s.m).length ≤ taken))
  | .loop .enter | .loop .failed | .loop (.packet ..) | .loop .readFailed | .loop .readDone | .loop .pairbuf
  | .loop (.misc ..) | .queue _ | .wake | .disconnects => isTrue trivial

/-- A step closes the connection, or nothing but a write takes a packet out of the queue. -/
inductive Passes (s : State) (a : Act) (s' : State) : Prop where
  | out : s'.loop = .out → s.written ≤ s'.written → endsRound a = false → Passes s a s'
  | kept : s.loop ≠ .out → s.total ≤ s'.total → s'.written = s.written →
      (unwritten s.m ≠ [] → s.loop.writes = true → s'.loop.writes = true) → endsRound a = false → Passes s a s'
  | wrote : s.loop ≠ .out → s.total ≤ s'.written → endsRound a = false → Passes s a s'
  | ended : s.total ≤ s'.total → s'.written = s.written → s.loop = .misc → s'.loop = .enter ∨ s'.loop = .out →
      endsRound a = true → Passes s a s'

theorem total_queue (p : Packet) : s.total ≤ ({ s with m := packetQueue s.m p, calling := true } :
    State).total := by
  simp only [State.total, unwritten_packetQueue, List.length_append]
  omega

theorem total_onward {m : Mosq} (h : (unwritten s.m).length ≤ (unwritten m).length) :
    s.total ≤ (s.onward paired room m).total := Nat.add_le_add_left h _

theorem step_passes (ho : Open s) (hf : Flows s a) (h : step paired room s a = some s') : Passes s a s' := by
  by_cases hout : s.loop = .out
  · obtain ⟨hl, hw⟩ := out_stays hout h
    refine .out hl hw.ge ?_
    cases a with
    | loop e => simp [step, loopStep, hout] at h
    | _ => rfl
  cases step_moves h with
  | queue p => exact .kept hout (total_queue p) rfl (fun _ hw => hw) rfl
  | wake | disconnects => exact .kept hout (Nat.le_refl _) rfl (fun _ hw => hw) rfl
  | loop e _ _ hm =>
    have hsame : s.total ≤ s.total := Nat.le_refl _
    cases hm with
    | looks hl => exact .kept hout hsame rfl (fun hne _ => by simpa [LoopPc.writes] using hne) rfl
    | selected writefds readable writable timeout hl =>
      refine .kept hout hsame rfl (fun _ hw => ?_) rfl
      have hw : writefds = true := by rwa [hl] at hw
      have hf : writable = true := hf
      dsimp only
      split <;> simp [LoopPc.writes, hw, hf]
    | interrupted writefds hl => exact hf.elim
    | failed | readFailed => exact .out rfl (Nat.le_refl _) rfl
    | writeDisconnect | writeFailed => exact .out rfl (Nat.le_add_right ..) rfl
    | packet pair writefds p alloc hl =>
      by_cases hgone : (receive alloc s.m p).sock = none
      · exact .out (if_pos hgone) (Nat.le_refl _) rfl
      · have happends := (receive_open ho.store (ho.state hout)).resolve_left hgone
        refine .kept hout (total_onward happends.2) rfl (fun _ hw => ?_) rfl
        rw [State.onward, if_neg hgone]
        exact hw
    | readDone pair writefds hl | pairbuf pair writefds hl =>
      exact .kept hout hsame rfl (fun _ hw => by rw [hl] at hw; exact hw) rfl
    | nothing taken e more hl => exact .kept hout hsame rfl (fun _ hw => by rw [hl] at hw; cases hw) rfl
    | wrote taken e more m hl hw =>
      have hall := packetWrite_all e.rc hf (ho.sock hout) (ho.state hout)
      rw [hw] at hall
      have hempty : unwritten m = [] := by simpa using hall
      refine .wrote hout ?_ rfl
      simp [State.total, State.wrote, hempty]
    | idle alloc hl => exact .ended hsame rfl hl (.inl rfl) rfl
    | dead alloc hl => exact .ended hsame rfl hl (.inr rfl) rfl
    | ping alloc hl =>
      obtain ⟨l, hq, -⟩ := (sends_sendPingreq alloc s.m).unwritten
      have happends : (unwritten s.m).length ≤ (unwritten (sendPingreq alloc s.m).1).length := by simp [hq]
      exact .ended (Nat.add_le_add_left happends _) rfl hl (.inl rfl) rfl

theorem open_out {s : State} (hl : s.loop = .out) (hst : StoreOk s.m.msgsOut.inflight) : Open s :=
  ⟨fun h => absurd hl h, fun h => absurd hl h, hst⟩

theorem step_open (ho : Open s) (h : step paired room s a = some s') : Open s' := by
  have hkeep (hm : s'.m.msgsOut = s.m.msgsOut) (hsock : s'.m.sock = s.m.sock)
      (hstate : s'.m.state = s.m.state ∨ s'.m.state = .disconnected) : Open s' := by
    by_cases hout : s.loop = .out
    · exact open_out (out_stays hout h).1 (hm ▸ ho.store)
    · refine ⟨fun _ => hsock ▸ ho.sock hout, fun _ => ?_, hm ▸ ho.store⟩
      rcases hstate with e | e
      · exact e ▸ ho.state hout
      · rw [e]
        decide
  cases step_moves h with
  | queue p | wake => exact hkeep rfl rfl (.inl rfl)
  | disconnects => exact hkeep rfl rfl (.inr rfl)
  | loop e _ _ hm =>
    cases hm with
    | failed | readFailed | dead => exact open_out rfl ho.store
    | packet pair writefds p alloc hl =>
      have hst : StoreOk (receive alloc s.m p).msgsOut.inflight := storeOk_receive ho.store
      by_cases hgone : (receive alloc s.m p).sock = none
      · exact open_out (if_pos hgone) hst
      · have hready := (receive_open ho.store (ho.state (by simp [hl]))).resolve_left hgone
        exact ⟨fun _ => hgone, fun _ => hready.1, hst⟩
    | wrote taken e more m hl hw =>
      have hconn := Threads.conn_written hw
      have hm := msgsOut_packetWrite s.m e.rc taken
      rw [hw] at hm
      exact hkeep hm (sock_of_conn hconn) (.inl (state_of_conn hconn))
    | writeFailed taken e more m rc hl hw | writeDisconnect taken e more m hl hw =>
      have hm : m.msgsOut = s.m.msgsOut := by simpa [hw] using msgsOut_packetWrite s.m e.rc taken
      have hst : StoreOk m.msgsOut.inflight := hm ▸ ho.store
      exact open_out rfl hst
    | ping alloc hl =>
      have hconn := conn_sendPingreq alloc s.m
      exact hkeep (msgsOut_sendPingreq alloc s.m) (sock_of_conn hconn) (.inl (state_of_conn hconn))
    | _ => exact hkeep rfl rfl (.inl rfl)

/-! ## Nothing is slept through -/

def Sleeps (s : State) : Prop := s.loop = .select false ∧ s.pair = 0

/-- What has come since the loop thread looked is announced, or about to be. -/
def Announced (s : State) : Prop :=
  s.loop = .select false → unwritten s.m ≠ [] → s.calling = true ∨ s.pair ≠ 0

theorem step_announced (hp : paired = true) (hi : Announced s) (h : step paired room s a = some s') :
    Announced s' := by
  cases step_moves h with
  | queue p => exact fun _ _ => .inl rfl
  | wake =>
    -- the pair has a byte, or it is full
    refine fun _ _ => .inr ?_
    simp only [byte, hp, true_and]
    split <;> omega
  | disconnects => exact hi
  | loop e _ _ hm =>
    cases hm with
    | looks hl =>
      intro hfalse hne
      simp only [LoopPc.select.injEq, decide_eq_false_iff_not, not_not] at hfalse
      exact absurd hfalse hne
    | selected writefds readable writable timeout hl =>
      intro hfalse
      dsimp only at hfalse
      split at hfalse <;> cases hfalse
    | packet pair writefds p alloc hl =>
      intro hfalse
      simp only [State.onward] at hfalse
      split at hfalse
      · cases hfalse
      · rw [hl] at hfalse
        cases hfalse
    | wrote taken e more m hl hw =>
      intro hfalse
      simp only [State.wrote] at hfalse
      split at hfalse <;> cases hfalse
    | _ =>
      intro hfalse
      cases hfalse

/-- With a pair, `pselect` does not wait for the server or for the time while a packet is to be written. -/
theorem paired_awake (hp : paired = true) (hr : Reached paired room s) (hqueue : unwritten s.m ≠ [])
    (hcalling : s.calling = false) : ¬ Sleeps s := by
  intro hx
  obtain ⟨hloop, hpair⟩ := hx
  have hi : Announced s := by
    refine hr.inv (I := Announced) ?_ (fun _ _ _ hi _ h => step_announced hp hi h)
    intro s hs hl
    rw [hs.loop] at hl
    cases hl
  rcases hi hloop hqueue with h | h
  · rw [hcalling] at h
    cases h
  · exact h hpair

/-- A client with a connection that is up, and nothing to be written. -/
def idleClient : Mosq := { Mosq.new none true with sock := some 0, state := .active }

/-- A connection begins, with so many bytes in the pair. -/
def begins (pair : Nat) : State := ⟨idleClient, pair, .enter, false, 0⟩

theorem starts_begins {pair : Nat} (hp : paired = false → pair = 0) : Starts paired (begins pair) where
  opened := ⟨fun _ => by simp [begins, idleClient], fun _ => by simp [begins, idleClient], StoreOk.nil⟩
  loop := rfl
  calling := rfl
  pair := hp

/-- Without a pair: the loop thread has looked, and the packet comes after it. -/
theorem unpaired_sleeps (room : Nat) : ∃ s, Reached false room s ∧ s.written = 0 ∧ s.total = 1 ∧
    s.calling = false ∧
    Sleeps s ∧ (unwritten s.m).any Threads.isDisconnect = false := by
  have hrun : (Machine.run (step false room) (begins 0) [.loop .enter, .queue .pingreq, .wake]).map
      (fun s => (s.written, s.total, s.calling, s.loop, s.pair, (unwritten s.m).any Threads.isDisconnect)) =
      some (0, 1, false, .select false, 0, false) := rfl
  obtain ⟨s, hs, hd⟩ := Machine.reach_of_map_any (Starts false) (starts_begins fun _ => rfl) hrun
  simp only [Prod.mk.injEq] at hd
  obtain ⟨hwritten, htotal, hcalling, hloop, hpair, hdisc⟩ := hd
  exact ⟨s, hs, hwritten, htotal, hcalling, ⟨hloop, hpair⟩, hdisc⟩

/-! ## Two rounds -/

/-- Packet `i` is written after this many ends of rounds, unless the connection is at its end. -/
def Within (i : Nat) : Nat → State → Prop
  | 0, s => i < s.written
  | 1, s => s.loop = .out ∨ i < s.written ∨ (i < s.total ∧ s.loop.writes = true)
  | _, s => s.loop = .out ∨ i < s.total

theorem within_written {i : Nat} (n : Nat) (h : i < s.written) : Within i n s :=
  match n with
  | 0 => h
  | 1 => .inr (.inl h)
  | _ + 2 => .inr (Nat.lt_of_lt_of_le h (Nat.le_add_right ..))

theorem within_out {i : Nat} (n : Nat) (h : s.loop = .out) : Within i (n + 1) s :=
  match n with
  | 0 => .inl h
  | _ + 1 => .inl h

theorem Within.kept {i n : Nat} (hw : Within i n s) : s.loop = .out ∨ i < s.total :=
  have hle {k : Nat} (h : i < s.written) : i < s.written + k := Nat.lt_of_lt_of_le h (Nat.le_add_right ..)
  match n, hw with
  | 0, h => .inr (hle h)
  | 1, h => h.imp_right (fun h => h.elim hle And.left)
  | _ + 2, h => h

theorem within_step {i n : Nat} (hw : Within i n s) (h : Passes s a s') :
    Within i (if endsRound a then n - 1 else n) s' := by
  cases h with
  | out hl hwritten ha =>
    rw [if_neg (by simp [ha])]
    cases n with
    | zero => exact Nat.lt_of_lt_of_le (show i < s.written from hw) hwritten
    | succ n => exact within_out n hl
  | kept hopen htotal hwritten hwrites ha =>
    rw [if_neg (by simp [ha])]
    have hi : i < s.total := hw.kept.resolve_left hopen
    by_cases hdone : i < s.written
    · exact within_written n (hwritten ▸ hdone)
    · have hne : unwritten s.m ≠ [] := fun hnil => hdone (by simpa [State.total, hnil] using hi)
      match n, hw with
      | 0, hw => exact absurd hw hdone
      | 1, .inl hw => exact absurd hw hopen
      | 1, .inr (.inl hw) => exact absurd hw hdone
      | 1, .inr (.inr hw) => exact .inr (.inr ⟨Nat.lt_of_lt_of_le hi htotal, hwrites hne hw.2⟩)
      | _ + 2, _ => exact .inr (Nat.lt_of_lt_of_le hi htotal)
  | wrote hopen hwritten ha =>
    exact within_written _ (Nat.lt_of_lt_of_le (hw.kept.resolve_left hopen) hwritten)
  | ended htotal hwritten hmisc henter ha =>
    have hopen : s.loop ≠ .out := by simp [hmisc]
    rw [if_pos ha]
    match n, hw with
    | 0, hw => exact within_written 0 (hwritten ▸ (show i < s.written from hw))
    | 1, .inl hw => exact absurd hw hopen
    | 1, .inr (.inl hw) => exact within_written 0 (hwritten ▸ hw)
    | 1, .inr (.inr hw) =>
      rw [hmisc] at hw
      exact absurd hw.2 (by decide)
    | 2, .inl hw => exact absurd hw hopen
    | 2, .inr hi =>
      rcases henter with e | e
      · exact .inr (.inr ⟨Nat.lt_of_lt_of_le hi htotal, by rw [e]; rfl⟩)
      · exact .inl e
    | _ + 3, .inl hw => exact absurd hw hopen
    | _ + 3, .inr hi => exact .inr (Nat.lt_of_lt_of_le hi htotal)

theorem within_run {i n : Nat} {as : List Act} (ho : Open s) (hw : Within i n s)
    (hg : Machine.Meets (step paired room) Flows s as) (hr : Machine.run (step paired room) s as = some s')
    (hn : n ≤ as.countP endsRound) : i < s'.written := by
  induction as generalizing s n with
  | nil =>
    cases hr
    obtain rfl : n = 0 := by simpa using hn
    exact hw
  | cons a as ih =>
    cases hst : step paired room s a with
    | none => simp [Machine.run, hst] at hr
    | some t =>
      rw [Machine.run_cons hst] at hr
      obtain ⟨hf, hg⟩ := hg t hst
      refine ih (step_open ho hst) (within_step hw (step_passes ho hf hst)) hg hr ?_
      rw [List.countP_cons] at hn
      split
      · rename_i ha
        rw [if_pos ha] at hn
        omega
      · rename_i ha
        rwa [if_neg ha, Nat.add_zero] at hn

/-- A packet in the queue is written by the time a second round comes to `mosquitto_loop_misc`, if the socket
    takes what it is given. -/
theorem written_two_rounds {i : Nat} {as : List Act} (ho : Open s) (hi : i < s.total)
    (hg : Machine.Meets (step paired room) Flows s as) (hr : Machine.run (step paired room) s as = some s')
    (h2 : 2 ≤ as.countP endsRound) : i < s'.written := by
  have hw : Within i 2 s := .inr hi
  exact within_run ho hw hg hr h2

/-- The loop thread sleeps, and a packet has come. -/
def woken : State := ⟨packetQueue idleClient .pingreq, 1, .select false, false, 0⟩

/-- The application puts a second packet before the first is written, in a round that the pair has begun; in
    the second round a PINGREQ is read, and answered. -/
def twoRounds : List Act :=
  [.loop (.selected false true false), .loop .pairbuf, .queue .pingreq, .loop (.write 2 .blocked false), .wake,
    .loop (.misc false RecEnv.good.alloc), .loop .enter, .loop (.selected true true false),
    .loop (.packet .pingreq RecEnv.good.alloc), .loop .readDone, .loop .pairbuf, .loop (.write 1 .blocked false),
    .loop (.misc true RecEnv.good.alloc)]

theorem written_two_rounds_woken : Machine.Meets (step true 0) Flows woken twoRounds ∧
    ∃ s', Machine.run (step true 0) woken twoRounds = some s' ∧ 0 < s'.written := by
  have ho : Open woken := ⟨fun _ => by decide, fun _ => by decide, StoreOk.nil⟩
  have hg : Machine.Meets (step true 0) Flows woken twoRounds := by decide
  have hr : (Machine.run (step true 0) woken twoRounds).isSome = true := by decide
  obtain ⟨s', hs⟩ := Option.isSome_iff_exists.mp hr
  exact ⟨hg, s', hs, written_two_rounds ho (by decide) hg hs (by decide)⟩

/-! ## Without the server and the clock -/

/-- The server stays silent and no time passes; the socket takes what it is given. -/
def Quiet (s : State) : Act → Prop
  | .loop (.selected readable writable timeout) => readable = false ∧ writable = true ∧ timeout = false
  | .loop (.write taken _ more) => (unwritten s.m).length ≤ taken ∧ more = false
  | .loop (.misc due _) => due = false
  | .loop .enter | .loop .readDone | .loop .pairbuf => True
  | _ => False

/-- The steps to the end of the round. -/
def LoopPc.left : LoopPc → Nat
  | .enter => 6
  | .select _ => 5
  | .read _ _ => 4
  | .pairbuf _ _ => 3
  | .write _ => 2
  | .misc => 1
  | .out => 0

def quietEv (s : State) : LoopEv :=
  match s.loop with
  | .enter | .out => .enter
  | .select _ => .selected false true false
  | .read _ _ => .readDone
  | .pairbuf _ _ => .pairbuf
  | .write _ => .write (unwritten s.m).length .blocked false
  | .misc => .misc false RecEnv.good.alloc

theorem quietEv_quiet (s : State) : Quiet s (.loop (quietEv s)) := by
  unfold quietEv
  cases s.loop with
  | select writefds => exact ⟨rfl, rfl, rfl⟩
  | write writefds => exact ⟨Nat.le_refl _, rfl⟩
  | misc => exact rfl
  | _ => trivial

theorem Quiet.flows (h : Quiet s a) : Flows s a := by
  cases a with
  | loop e =>
    cases e with
    | selected readable writable timeout => exact h.2.1
    | write taken e more => exact h.1
    | interrupted => exact h
    | _ => trivial
  | _ => trivial

/-- A step that the loop thread takes by itself: it writes, and it ends the connection with a DISCONNECT only. -/
structure Advances (s s' : State) : Prop where
  calling : s'.calling = s.calling
  queue : ∀ p ∈ unwritten s'.m, p ∈ unwritten s.m
  out : s'.loop = .out → (unwritten s.m).any Threads.isDisconnect = true

theorem advances_same {loop : LoopPc} {pair : Nat} (hl : loop ≠ .out) :
    Advances s { s with pair := pair, loop := loop } :=
  ⟨rfl, fun _ hp => hp, fun h => absurd h hl⟩

/-- A loop thread that does not sleep goes on by itself, to the end of the round. -/
theorem quiet_step (ho : Open s) (hopen : s.loop ≠ .out) (hs : ¬ Sleeps s) :
    ∃ s', step paired room s (.loop (quietEv s)) = some s' ∧ Advances s s' ∧
      (endsRound (.loop (quietEv s)) = false → s'.loop.left < s.loop.left) := by
  have hsock := ho.sock hopen
  have hstate := ho.state hopen
  obtain ⟨m, pair, loop, calling, written⟩ := s
  cases loop with
  | enter => exact ⟨_, rfl, advances_same (by simp), fun _ => Nat.lt_succ_self 5⟩
  | select writefds =>
    have hwakes : writefds = true ∨ pair ≠ 0 := by
      by_contra hno
      obtain ⟨hwritefds, hpair⟩ := not_or.mp hno
      exact hs ⟨by simpa using hwritefds, not_not.mp hpair⟩
    refine ⟨⟨m, pair, .pairbuf (pair ≠ 0) (writefds && true), calling, written⟩, ?_, advances_same (by simp), ?_⟩
    · exact if_pos (by simpa using hwakes)
    · intro _
      show 3 < 5
      omega
  | read fromPair writefds => exact ⟨_, rfl, advances_same (by simp), fun _ => Nat.lt_succ_self 3⟩
  | pairbuf fromPair writefds => exact ⟨_, rfl, advances_same (by simp), fun _ => Nat.lt_succ_self 2⟩
  | write writefds =>
    cases writefds with
    | false => exact ⟨_, rfl, advances_same (by simp), fun _ => Nat.lt_succ_self 1⟩
    | true =>
      obtain ⟨k, hk⟩ := takes_packetWrite m Threads.WriteEnd.blocked.rc (unwritten m).length
      have hall := packetWrite_all (m := m) Threads.WriteEnd.blocked.rc (Nat.le_refl _) hsock hstate
      have hdisc := Threads.written_disconnect_iff Threads.WriteEnd.blocked.rc (unwritten m).length m
      cases hw : packetWrite Threads.WriteEnd.blocked.rc (unwritten m).length m with
      | mk m' r =>
        simp only [hw] at hall hk hdisc
        have hqueue : ∀ p ∈ unwritten m', p ∈ unwritten m := fun p hp => List.mem_of_mem_drop (hk.queue ▸ hp)
        rcases hall with rfl | ⟨rfl, -⟩
        · have hany : (unwritten m).any Threads.isDisconnect = true := by
            have hwrites := hdisc.mp rfl
            simp only [Threads.writesDisconnect, List.take_length, decide_eq_true_eq] at hwrites
            exact hwrites.2.2
          refine ⟨State.wrote ⟨m, pair, .write true, calling, written⟩ m' .out, ?_, ⟨rfl, hqueue, fun _ => hany⟩,
            fun _ => Nat.zero_lt_succ 1⟩
          simp [step, loopStep, quietEv, hw]
        · refine ⟨State.wrote ⟨m, pair, .write true, calling, written⟩ m' .misc, ?_,
            ⟨rfl, hqueue, fun h => by cases h⟩,
            fun _ => Nat.lt_succ_self 1⟩
          simp [step, loopStep, quietEv, hw]
  | misc => exact ⟨_, rfl, advances_same (by simp), fun h => (by cases h)⟩
  | out => exact absurd rfl hopen

/-- A loop thread that sleeps needs the server or the clock. -/
theorem sleeps_stuck (hs : Sleeps s) (hq : Quiet s a) : step paired room s a = none := by
  obtain ⟨m, pair, loop, calling, written⟩ := s
  obtain ⟨hloop, hpair⟩ := hs
  obtain rfl : loop = .select false := hloop
  obtain rfl : pair = 0 := hpair
  cases a with
  | queue | wake | disconnects => exact hq.elim
  | loop e =>
    cases e with
    | selected readable writable timeout =>
      obtain ⟨rfl, rfl, rfl⟩ := hq
      rfl
    | interrupted | failed => exact hq.elim
    | _ => rfl

theorem Reached.open (hr : Reached paired room s) : Open s :=
  hr.inv (I := Open) (fun _ hs => hs.opened) (fun _ _ _ ho _ h => step_open ho h)

/-- A packet is written by the loop thread alone, or a DISCONNECT is, if what is queued is announced. -/
theorem quiet_written (hp : paired = true) {i n : Nat} (hr : Reached paired room s) (hc : s.calling = false)
    (hopen : s.loop ≠ .out) (hw : Within i n s) : ∃ as s', Machine.Meets (step paired room) Quiet s as ∧
      Machine.run (step paired room) s as = some s' ∧
        (i < s'.written ∨ (unwritten s.m).any Threads.isDisconnect = true) := by
  -- down to the end of the round, and then to the next one
  induction hm : 7 * n + s.loop.left using Nat.strongRecOn generalizing n s with
  | _ m ih =>
    by_cases hdone : i < s.written
    · exact ⟨[], s, trivial, rfl, .inl hdone⟩
    · have hi : i < s.total := hw.kept.resolve_left hopen
      have hne : unwritten s.m ≠ [] := fun hnil => hdone (by simpa [State.total, hnil] using hi)
      have hawake : ¬ Sleeps s := paired_awake hp hr hne hc
      have hnext : ∃ t, step paired room s (.loop (quietEv s)) = some t ∧ Advances s t ∧
          (endsRound (.loop (quietEv s)) = false → t.loop.left < s.loop.left) := quiet_step hr.open hopen hawake
      obtain ⟨t, ht, hadvances, hleft⟩ := hnext
      have hquiet := quietEv_quiet s
      by_cases hout : t.loop = .out
      · exact ⟨[], s, trivial, rfl, .inr (hadvances.out hout)⟩
      have hpasses := step_passes hr.open hquiet.flows ht
      have hrt : Reached paired room t := hr.step trivial ht
      have hpos : n ≠ 0 := by
        rintro rfl
        exact hdone hw
      have hless : 7 * (if endsRound (.loop (quietEv s)) then n - 1 else n) + t.loop.left < m := by
        split
        · have hmax : t.loop.left ≤ 6 := by cases t.loop <;> simp [LoopPc.left]
          have hmin : 1 ≤ s.loop.left := by cases hl : s.loop <;> simp_all [LoopPc.left]
          omega
        · rename_i hends
          have := hleft (by simpa using hends)
          omega
      have hrest := ih _ hless hrt (hadvances.calling.trans hc) hout (within_step hw hpasses) rfl
      obtain ⟨as, s', hg, hrun, hx⟩ := hrest
      refine ⟨.loop (quietEv s) :: as, s', ?_, (Machine.run_cons ht).trans hrun, hx.imp_right fun hany => ?_⟩
      · intro t' ht'
        rw [ht] at ht'
        cases ht'
        exact ⟨hquiet, hg⟩
      · obtain ⟨p, hp, hd⟩ := List.any_eq_true.mp hany
        exact List.any_eq_true.mpr ⟨p, hadvances.queue p hp, hd⟩

/-- Where a packet is in the queue and no DISCONNECT, and no call is under way, the loop thread writes it
    without the server and without the clock, exactly if there is a pair. -/
theorem prompt_iff (paired : Bool) (room : Nat) :
    (∀ s i, Reached paired room s → i < s.total → s.calling = false → s.loop ≠ .out →
      (unwritten s.m).any Threads.isDisconnect = false → ∃ as s', Machine.Meets (step paired room) Quiet s as ∧
        Machine.run (step paired room) s as = some s' ∧ i < s'.written) ↔
    paired = true := by
  constructor
  · intro hall
    by_contra hp
    obtain rfl : paired = false := by simpa using hp
    obtain ⟨s, hr, hwritten, htotal, hc, hsleeps, hdisc⟩ := unpaired_sleeps room
    obtain ⟨as, s', hg, hrun, hdone⟩ := hall s 0 hr (by omega) hc (by simp [hsleeps.1]) hdisc
    cases as with
    | nil =>
      cases hrun
      omega
    | cons a as =>
      cases hst : step false room s a with
      | none => simp [Machine.run, hst] at hrun
      | some t =>
        rw [sleeps_stuck hsleeps (hg t hst).1] at hst
        cases hst
  · intro hp s i hr hi hc hopen hdisc
    have hw : Within i 2 s := .inr hi
    obtain ⟨as, s', hg, hrun, hdone⟩ := quiet_written hp hr hc hopen hw
    refine ⟨as, s', hg, hrun, hdone.resolve_right ?_⟩
    simp [hdisc]

end Artemisia.Wakeup
