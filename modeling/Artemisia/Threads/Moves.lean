/-
  Artemisia.Threads.Moves — what a step of the two threads can be, said once.

  Proved:
  - `afterTurn_elim`: where `mosquitto_loop_read` and `mosquitto_loop_write` lead to.
  - `step_moves`:     each step is one of the moves, with what it takes and what it leaves.
  - `conn_…`:         what the application's calls leave alone.
-/
import Artemisia.Client.Store
import Artemisia.Threads.System

namespace Artemisia.Threads

open Artemisia.Property Artemisia.Client

/-! ## Where a turn leads to -/

section Turns

variable {P : LoopPc → Prop} {m : Mosq} {rc : Rc} {turn : Turn}

theorem afterIo_elim (hret : ∀ rc, P (.ret rc)) (hsel : P .selWrite) (hmisc : P .misc) :
    P (afterIo m rc turn) := by
  unfold afterIo
  cases turn with
  | read i n again =>
    dsimp only
    split
    · exact hret rc
    · exact hsel
  | write i n again =>
    dsimp only
    split
    · exact hret rc
    · exact hmisc

theorem afterTurn_elim (hio : ∀ rc, P (afterIo m rc turn)) (hclose : ∀ rc, P (.rcClose rc turn))
    (hread : ∀ i n, P (.read i n)) (hwrite : ∀ i n, P (.write i n)) : P (afterTurn m rc turn) := by
  unfold afterTurn
  split
  · exact hclose rc
  · cases turn with
    | read i n again =>
      dsimp only
      split
      · exact hio rc
      · exact hread (i + 1) n
    | write i n again =>
      dsimp only
      split
      · exact hio rc
      · exact hwrite (i + 1) n

theorem selectNext_elim {r : Select} (hret : ∀ rc, P (.ret rc)) (hsel : P .selWrite)
    (hread : m.sock ≠ none → P (.read 0 (maxPackets m))) : P (selectNext m r) := by
  cases r with
  | badFd => exact hret .inval
  | interrupted | failed =>
    dsimp only [selectNext]
    split
    · exact hret _
    · exact hret _
  | ready readable =>
    dsimp only [selectNext]
    split
    · exact hret .noConn
    · rename_i hs
      split
      · exact hread hs
      · exact hsel

end Turns

/-! ## The pieces of a reconnect -/

/-- `net__socket_connect` succeeds. -/
def opens (env : RecEnv) (m : Mosq) : Bool := m.port % 65536 ≠ 0 ∧ env.tryConnect = .success

inductive RecMoves (env : RecEnv) (l : List MosquittoProperty) (m : Mosq) : RecPc → Mosq → RecPc ⊕ Rc → Prop where
  | refused (rc : Rc) : RecMoves env l m .start m (.inr rc)
  | start : RecMoves env l m .start { packetCleanupAll m with pingT := false } (.inl .reset)
  | reset : RecMoves env l m .reset (messageReconnectReset m) (.inl .close)
  | close : RecMoves env l m .close m.socketClose (.inl .connect)
  | opened : opens env m = true → RecMoves env l m .connect m.socketOpen (.inl .setConnected)
  | portless : m.port % 65536 = 0 → RecMoves env l m .connect m (.inl (.pending .inval))
  | unopened (rc : Rc) : m.port % 65536 ≠ 0 → opens env m = false →
      RecMoves env l m .connect { m with sock := none } (.inl (.pending rc))
  | pending (rc : Rc) : RecMoves env l m (.pending rc) (m.setState .connectPending) (.inr rc)
  | setConnected : RecMoves env l m .setConnected (m.setState .connected) (.inl .sendConnect)
  | sent : (sendConnect env.alloc m l).2 = .success →
      RecMoves env l m .sendConnect (sendConnect env.alloc m l).1 (.inr .success)
  | unsent (rc : Rc) : (sendConnect env.alloc m l).2 ≠ .success →
      RecMoves env l m .sendConnect (sendConnect env.alloc m l).1 (.inl (.failed rc))
  | failed (rc : Rc) : RecMoves env l m (.failed rc) ((packetCleanupAll m).socketClose.setState .new) (.inr rc)

theorem reconnectStep_moves {env : RecEnv} {l : List MosquittoProperty} {m m' : Mosq} {pc : RecPc}
    {next : RecPc ⊕ Rc}
    (h : reconnectStep env l m pc = (m', next)) : RecMoves env l m pc m' next := by
  cases pc with
  | start =>
    simp only [reconnectStep] at h
    split at h
    · cases h
      exact .refused _
    split at h
    · cases h
      exact .refused _
    split at h
    · cases h
      exact .refused _
    · cases h
      exact .start
  | reset =>
    cases h
    exact .reset
  | close =>
    cases h
    exact .close
  | connect =>
    simp only [reconnectStep] at h
    split at h
    · rename_i hp
      cases h
      exact .portless hp
    rename_i hp
    split at h
    · rename_i ht
      cases h
      exact .opened (by simp [opens, hp, ht])
    · rename_i ht
      cases h
      exact .unopened _ hp (by simp [opens, ht])
  | pending rc =>
    cases h
    exact .pending rc
  | setConnected =>
    cases h
    exact .setConnected
  | sendConnect =>
    simp only [reconnectStep] at h
    split at h
    · rename_i hs
      cases h
      exact .sent hs
    · rename_i hs
      cases h
      exact .unsent _ hs
  | failed rc =>
    cases h
    exact .failed rc

/-! ## A packet that has been read -/

inductive ReadMoves (s : Sys) (p : InPacket) (turn : Turn) (alloc : Alloc) : Sys → Prop where
  | done (m : Mosq) (rc : Rc) : handlePacket alloc s.m p = (m, .done rc) → m.conn = s.m.conn →
      endsConnection s.m p = false → reportedReason s.m p = none →
      ReadMoves s p turn alloc { s.upd m with loop := afterTurn m rc turn }
  | connack (m : Mosq) (r : UInt8) (max : Option UInt16) : handlePacket alloc s.m p = (m, .connack r max) →
      m.conn = s.m.conn → endsConnection s.m p = false → reportedReason s.m p = some r →
        ReadMoves s p turn alloc { s.upd m with
        connected := true, accepted := if r = 0 then m.sock else s.accepted,
        loop := .connack r ((max.map UInt16.toNat).getD 65535) turn }
  | unsupported (m : Mosq) : handlePacket alloc s.m p = (m, .connackUnsupported) → m.conn = s.m.conn →
      endsConnection s.m p = false → reportedReason s.m p = some 0x84 →
      ReadMoves s p turn alloc { s.upd m with connected := true, loop := afterTurn m .protocol turn }
  | disconnect : handlePacket alloc s.m p = (doClientDisconnect s.m, .disconnect) → endsConnection s.m p = true →
      reportedReason s.m p = none →
      ReadMoves s p turn alloc { s.upd (doClientDisconnect s.m) with loop := .discCall turn }

theorem readPacket_moves (s : Sys) (p : InPacket) (turn : Turn) (alloc : Alloc) :
    ReadMoves s p turn alloc (readPacket s p turn alloc) := by
  have hc := conn_handlePacket alloc s.m p
  have hr := handlePacket_reports alloc s.m p
  unfold readPacket
  split
  rename_i m handled e
  rw [e] at hc hr
  rcases hc with ⟨hc, hne, he⟩ | ⟨hd, he⟩
  · dsimp only at hc hr ⊢
    split
    · exact .done m _ e hc he hr
    · exact .connack m _ _ e hc he hr
    · exact .unsupported m e hc he hr
    · exact absurd rfl hne
  · cases hd
    exact .disconnect e he hr

/-! ## The moves -/

/-- `mosquitto__check_keepalive` finds no answer to its PINGREQ. -/
def timesOut (m : Mosq) (due : Bool) : Bool := due ∧ m.keepalive ≠ 0 ∧ ¬ (m.state = .active ∧ !m.pingT)

/-- The steps of the two threads, one case for each piece of code. -/
inductive Moves (s : Sys) : Act → Sys → Prop where
  | connect (c : ConnectConfig) : s.queue = .idle → Moves s (.connect c) (startConnect s c)
  | publish (alloc : Alloc) (a : PublishArgs) : s.queue = .idle → (mosquittoPublishV5 alloc s.m a).2 ≠ .aborted →
      Moves s (.publish alloc a) (s.upd (mosquittoPublishV5 alloc s.m a).1)
  | refused (r : UInt8) (l : List MosquittoProperty) : s.queue = .idle → disconnectChecks s.m l ≠ .success →
      Moves s (.disconnect r l) { s with discReturned := some s.m.conns }
  | disconnect (r : UInt8) (l : List MosquittoProperty) : s.queue = .idle → disconnectChecks s.m l = .success →
      Moves s (.disconnect r l) { s.upd (s.m.setState .disconnected) with queue := .discSend r l }
  | create (env : RecEnv) (c : ConnectConfig) : s.queue = .loopStart c → s.m.threaded = .none →
      Moves s (.queue env) { s with m := { s.m with threaded := .self }, loop := .waitNew,
                                    queue := .connectBind c }
  | created (env : RecEnv) (c : ConnectConfig) : s.queue = .loopStart c → s.m.threaded ≠ .none →
      Moves s (.queue env) { s with queue := .connectBind c }
  | bind (env : RecEnv) (c : ConnectConfig) : s.queue = .connectBind c →
      Moves s (.queue env) { s.upd (connectBind env s.m c).1 with
        queue := if (connectBind env s.m c).2 = .success then .setNew c.properties else .idle }
  | setNew (env : RecEnv) (l : List MosquittoProperty) : s.queue = .setNew l →
      Moves s (.queue env) { s.upd (s.m.setState .new) with queue := .rec_ .start l }
  | queueRec (env : RecEnv) (pc pc' : RecPc) (l : List MosquittoProperty) (m : Mosq) : s.queue = .rec_ pc l →
      RecMoves env l s.m pc m (.inl pc') → Moves s (.queue env) { s.upd m with queue := .rec_ pc' l }
  | queueRecEnd (env : RecEnv) (pc : RecPc) (l : List MosquittoProperty) (m : Mosq) (rc : Rc) :
      s.queue = .rec_ pc l →
      RecMoves env l s.m pc m (.inr rc) → Moves s (.queue env) { s.upd m with queue := .idle }
  | discSend (env : RecEnv) (r : UInt8) (l : List MosquittoProperty) : s.queue = .discSend r l →
      Moves s (.queue env) { s.upd (disconnectSend env.alloc s.m r l).1 with
        queue := .idle, discReturned := some s.m.conns }
  | waitNew (env : RecEnv) : s.loop = .waitNew →
      Moves s (.loop (.tick env)) { s with loop := if s.m.state = .new then .waitNew else .top }
  | select (r : Select) : s.loop = .top → Moves s (.loop (.select r)) { s with loop := selectNext s.m r }
  | packet (i n : Nat) (p : InPacket) (again : Bool) (alloc : Alloc) : s.loop = .read i n → s.m.sock ≠ none →
      s.m.state ≠ .connectPending → ∀ t, ReadMoves s p (.read i n again) alloc t →
        Moves s (.loop (.packet p again alloc)) t
  | noPacket (i n : Nat) (e : ReadEnd) (again : Bool) (rc : Rc) : s.loop = .read i n →
      (s.m.sock = none → rc = .noConn) →
        Moves s (.loop (.noPacket e again)) { s with loop := afterTurn s.m rc (.read i n again) }
  | connack (r : UInt8) (max : Nat) (turn : Turn) (env : RecEnv) : s.loop = .connack r max turn →
      Moves s (.loop (.tick env)) { s.upd (connackSwitch env.alloc s.m r).1 with
        limit := if r = 0 ∧ (connackSwitch env.alloc s.m r).1.protocol = .mqtt5
            ∧ s.accepted = (connackSwitch env.alloc s.m r).1.sock then some (min s.sendMax max)
          else (s.upd (connackSwitch env.alloc s.m r).1).limit,
        loop := afterTurn (connackSwitch env.alloc s.m r).1 (connackSwitch env.alloc s.m r).2 turn }
  | discCall (turn : Turn) (env : RecEnv) : s.loop = .discCall turn →
      Moves s (.loop (.tick env)) { s.onDisconnect with loop := afterTurn s.m .success turn }
  | selWrite (b : Bool) : s.loop = .selWrite →
      Moves s (.loop (.writable b)) { s with loop := if s.m.sock.isSome ∧ b then .write 0 (maxPackets s.m)
                                               else .misc }
  | write (i n taken : Nat) (e : WriteEnd) (again : Bool) (m : Mosq) (rc : Rc) : s.loop = .write i n →
      packetWrite e.rc taken s.m = (m, .done rc) →
      Moves s (.loop (.write taken e again)) { s.upd m with loop := afterTurn m rc (.write i n again) }
  | writeDisconnect (i n taken : Nat) (e : WriteEnd) (again : Bool) (m : Mosq) : s.loop = .write i n →
      packetWrite e.rc taken s.m = (m, .disconnect) →
      Moves s (.loop (.write taken e again)) { s.upd m with loop := .discCall (.write i n again) }
  | rcClose (rc : Rc) (turn : Turn) (env : RecEnv) : s.loop = .rcClose rc turn →
      Moves s (.loop (.tick env)) { s.upd s.m.socketClose with loop := .rcCall (if ended s.m.state then
                                                                 .success else rc) turn }
  | rcCall (rc : Rc) (turn : Turn) (env : RecEnv) : s.loop = .rcCall rc turn →
      Moves s (.loop (.tick env)) { s.onDisconnect with loop := afterIo s.m rc turn }
  | misc (due : Bool) (alloc : Alloc) (rc : Rc) : s.loop = .misc → (s.m.sock ≠ none → timesOut s.m due = false) →
      Moves s (.loop (.keepalive due alloc)) { s with loop := .ret rc }
  | ping (alloc : Alloc) : s.loop = .misc → s.m.sock ≠ none → timesOut s.m true = false →
      Moves s (.loop (.keepalive true alloc)) { s.upd (sendPingreq alloc s.m).1 with loop := .ret .success }
  | unanswered (alloc : Alloc) (rc : Rc) : s.loop = .misc → s.m.sock ≠ none → timesOut s.m true = true →
      Moves s (.loop (.keepalive true alloc)) { s.upd s.m.socketClose with loop := .kaCall rc }
  | kaCall (rc : Rc) (env : RecEnv) : s.loop = .kaCall rc →
      Moves s (.loop (.tick env)) { s.onDisconnect with loop := .ret rc }
  | ret (rc : Rc) (eproto : Bool) : s.loop = .ret rc →
      Moves s (.loop (.errno eproto))
        { s with loop := if rc = .success then .top else if fatal rc ∨ eproto then .exited else .check1 }
  | check1 (env : RecEnv) : s.loop = .check1 →
      Moves s (.loop (.tick env)) { s with loop := if ended s.m.state then .exited else .sleep }
  | sleep (ok : Bool) : s.loop = .sleep →
      Moves s (.loop (.slept ok)) { s with loop := if ok then .check2 else .exited }
  | check2 (env : RecEnv) : s.loop = .check2 →
      Moves s (.loop (.tick env)) { s with loop := if ended s.m.state then .exited else .rec_ .start }
  | loopRec (env : RecEnv) (pc pc' : RecPc) (m : Mosq) : s.loop = .rec_ pc →
      RecMoves env [] s.m pc m (.inl pc') → Moves s (.loop (.tick env)) { s.upd m with loop := .rec_ pc' }
  | loopRecEnd (env : RecEnv) (pc : RecPc) (m : Mosq) (rc : Rc) : s.loop = .rec_ pc →
      RecMoves env [] s.m pc m (.inr rc) →
      Moves s (.loop (.tick env)) { s.upd m with loop := if rc = .success then .top else .check1 }

theorem queueStep_moves {s s' : Sys} {env : RecEnv} (h : queueStep s env = some s') :
    Moves s (.queue env) s' := by
  unfold queueStep at h
  split at h
  · cases h
  · rename_i c hq
    split at h
    · rename_i ht
      cases h
      exact .create env c hq ht
    · rename_i ht
      cases h
      exact .created env c hq ht
  · rename_i c hq
    cases h
    exact .bind env c hq
  · rename_i l hq
    cases h
    exact .setNew env l hq
  · rename_i pc l hq
    split at h
    · rename_i m pc' e
      cases h
      exact .queueRec env pc pc' l m hq (reconnectStep_moves e)
    · rename_i m rc e
      cases h
      exact .queueRecEnd env pc l m rc hq (reconnectStep_moves e)
  · rename_i r l hq
    cases h
    exact .discSend env r l hq

theorem loopStep_moves {s s' : Sys} {e : LoopEv} (h : loopStep s e = some s') : Moves s (.loop e) s' := by
  unfold loopStep at h
  split at h
  · rename_i env hl
    cases h
    exact .waitNew env hl
  · rename_i r hl
    cases h
    exact .select r hl
  · rename_i i n p again alloc hl
    split at h
    · cases h
    · rename_i hc
      cases h
      exact .packet i n p again alloc hl (fun e => hc (.inl e)) (fun e => hc (.inr (.inl e))) _
        (readPacket_moves ..)
  · rename_i i n e again hl
    cases h
    exact .noPacket i n e again _ hl (fun e => by simp [e])
  · rename_i r max turn env hl
    split at h
    · cases h
    · cases h
      exact .connack r max turn env hl
  · rename_i turn env hl
    cases h
    exact .discCall turn env hl
  · rename_i b hl
    cases h
    exact .selWrite b hl
  · rename_i i n taken e again hl
    split at h
    · rename_i m rc he
      cases h
      exact .write i n taken e again m rc hl he
    · rename_i m he
      cases h
      exact .writeDisconnect i n taken e again m hl he
  · rename_i rc turn env hl
    cases h
    exact .rcClose rc turn env hl
  · rename_i rc turn env hl
    cases h
    exact .rcCall rc turn env hl
  · rename_i due alloc hl
    split at h
    · rename_i hs
      cases h
      exact .misc due alloc _ hl (fun e => absurd hs e)
    · rename_i hs
      split at h
      · rename_i hd
        cases h
        obtain ⟨rfl, hk⟩ := hd
        unfold keepaliveDue
        split
        · rename_i hp
          exact .ping alloc hl hs (by simpa [timesOut, hk] using hp)
        · rename_i hp
          refine .unanswered alloc _ hl hs ?_
          simp only [timesOut, decide_eq_true_eq]
          exact ⟨trivial, hk, hp⟩
      · rename_i hd
        cases h
        refine .misc due alloc _ hl (fun _ => ?_)
        simp only [timesOut, decide_eq_false_iff_not]
        exact fun h => hd ⟨h.1, h.2.1⟩
  · rename_i rc env hl
    cases h
    exact .kaCall rc env hl
  · rename_i rc eproto hl
    cases h
    exact .ret rc eproto hl
  · rename_i env hl
    cases h
    exact .check1 env hl
  · rename_i ok hl
    cases h
    exact .sleep ok hl
  · rename_i env hl
    cases h
    exact .check2 env hl
  · rename_i pc env hl
    split at h
    · rename_i m pc' he
      cases h
      exact .loopRec env pc pc' m hl (reconnectStep_moves he)
    · rename_i m rc he
      cases h
      exact .loopRecEnd env pc m rc hl (reconnectStep_moves he)
  · cases h

theorem step_moves {s s' : Sys} {a : Act} (h : step s a = some s') : Moves s a s' := by
  cases a with
  | connect c =>
    simp only [step] at h
    split at h
    · rename_i hq
      cases h
      exact .connect c hq
    · cases h
  | publish alloc a =>
    simp only [step] at h
    split at h
    · rename_i hq
      split at h
      · cases h
      · rename_i ha
        cases h
        exact .publish alloc a hq ha
    · cases h
  | disconnect r l =>
    simp only [step] at h
    split at h
    · rename_i hq
      cases h
      unfold startDisconnect
      split
      · rename_i hc
        exact .refused r l hq hc
      · rename_i hc
        exact .disconnect r l hq (not_not.mp hc)
    · cases h
  | queue env => exact queueStep_moves h
  | loop e => exact loopStep_moves h

/-! ## The connection over the moves -/

section Conn

variable (alloc : Alloc) (env : RecEnv) (m : Mosq)

@[simp] theorem upd_m (s : Sys) : (s.upd m).m = m := rfl

theorem conn_setupMosquitto (c : ConnectConfig) :
    (setupMosquitto m c).conn = { m.conn with protocol := c.protocolVersion } := by
  obtain ⟨username, password, e⟩ := setupMosquitto_eq m c
  rw [e]
  rfl

@[simp] theorem conn_connectBind (c : ConnectConfig) : (connectBind env m c).1.conn = m.conn := by
  rcases connectBind_cases m env c with ⟨e, -⟩ | ⟨id, e⟩
  · rw [e]
  · rw [e]
    rfl

@[simp] theorem conn_disconnectSend (r : UInt8) (l : List MosquittoProperty) :
    (disconnectSend alloc m r l).1.conn = m.conn := by
  unfold disconnectSend
  split <;> simp

theorem conn_connackSwitch (r : UInt8) : (connackSwitch alloc m r).1.conn =
    if r = 0 ∧ m.state ≠ .disconnecting then { m.conn with state := .active } else m.conn := by
  unfold connackSwitch
  by_cases hr : r = 0
  · by_cases hs : m.state = .disconnecting
    · simp [hr, hs]
    · simp only [hr, hs, if_true, ne_eq, not_false_eq_true, true_and, conn_messageRetryCheck]
      rfl
  · simp only [hr, if_false, false_and]
    split <;> rfl

theorem conn_packetWriteLoop (stop : Rc) (n : Nat) (m : Mosq) :
    ((packetWriteLoop stop n m).2 = .disconnect ∧
      (packetWriteLoop stop n m).1.conn = { m.conn with sock := none, state := .disconnected }) ∨
    ((∃ rc, (packetWriteLoop stop n m).2 = .done rc) ∧ (packetWriteLoop stop n m).1.conn = m.conn) := by
  induction n generalizing m with
  | zero =>
    unfold packetWriteLoop
    split
    · exact .inr ⟨⟨_, rfl⟩, rfl⟩
    · exact .inr ⟨⟨_, rfl⟩, rfl⟩
  | succ n ih =>
    unfold packetWriteLoop
    split
    · exact .inr ⟨⟨_, rfl⟩, rfl⟩
    · exact .inl ⟨rfl, rfl⟩
    · dsimp only
      split
      · exact ih _
      · exact ih _

theorem conn_takeNext : (takeNext m).conn = m.conn := by
  unfold takeNext
  split <;> rfl

/-- The rest of `handle__connack` is about the state only. -/
theorem connackSwitch_state (r : UInt8) : ∃ c, (connackSwitch alloc m r).1.conn = { m.conn with state := c } := by
  have h := conn_connackSwitch alloc m r
  split at h
  · exact ⟨.active, h⟩
  · exact ⟨m.state, h⟩

/-- Writing leaves the connection alone, unless a DISCONNECT goes out. -/
theorem conn_packetWrite (stop : Rc) (n : Nat) :
    ((packetWrite stop n m).2 = .disconnect ∧
      (packetWrite stop n m).1.conn = { m.conn with sock := none, state := .disconnected }) ∨
    ((∃ rc, (packetWrite stop n m).2 = .done rc) ∧ (packetWrite stop n m).1.conn = m.conn) := by
  have h := conn_packetWriteLoop stop n (takeNext m)
  rw [conn_takeNext] at h
  unfold packetWrite
  split
  · exact .inr ⟨⟨_, rfl⟩, rfl⟩
  · split
    · exact .inr ⟨⟨_, rfl⟩, conn_takeNext m⟩
    · exact h

theorem conn_written {stop : Rc} {n : Nat} {m m' : Mosq} {rc : Rc} (h : packetWrite stop n m = (m', .done rc)) :
    m'.conn = m.conn := by
  rcases conn_packetWrite m stop n with ⟨e, -⟩ | ⟨-, e⟩
  · simp [h] at e
  · simpa [h] using e

theorem conn_writtenDisconnect {stop : Rc} {n : Nat} {m m' : Mosq}
    (h : packetWrite stop n m = (m', .disconnect)) :
    m'.conn = { m.conn with sock := none, state := .disconnected } := by
  rcases conn_packetWrite m stop n with ⟨-, e⟩ | ⟨⟨rc, e⟩, -⟩
  · simpa [h] using e
  · simp [h] at e

theorem conn_recMoves_protocol {env : RecEnv} {l : List MosquittoProperty} {m m' : Mosq} {pc : RecPc}
    {next : RecPc ⊕ Rc}
    (h : RecMoves env l m pc m' next) : m'.threaded = m.threaded ∧ m'.protocol = m.protocol := by
  cases h with
  | sent hs => exact ⟨threaded_of_conn (conn_sendConnect ..), protocol_of_conn (conn_sendConnect ..)⟩
  | unsent rc hs => exact ⟨threaded_of_conn (conn_sendConnect ..), protocol_of_conn (conn_sendConnect ..)⟩
  | _ => exact ⟨rfl, rfl⟩

/-- A packet is none of the application's business. -/
theorem readMoves_frame {s t : Sys} {p : InPacket} {turn : Turn} {alloc : Alloc}
    (h : ReadMoves s p turn alloc t) :
    t.queue = s.queue ∧ t.discReturned = s.discReturned ∧ t.sendMax = s.sendMax := by
  cases h <;> exact ⟨rfl, rfl, rfl⟩

end Conn

end Artemisia.Threads
