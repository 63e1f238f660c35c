/-
  Artemisia.Client.Frames — what the functions of the client leave alone.

  Proved:
  - `conn_handlePacket`:      a handled packet leaves the connection, the state and the thread as they are,
                              unless it is a DISCONNECT; its callbacks are not on_disconnect.
  - `handlePacket_reports`:   on_connect is told what `reportedReason` says.
-/
import Artemisia.Client.Connect

namespace Artemisia.Client

open Artemisia.Property

variable (alloc : Alloc) (m : Mosq)

/-! ## What is done up to a CONNECT -/

/-- The options set the protocol, the user and the two maxima. -/
theorem setupMosquitto_eq (c : ConnectConfig) : ∃ username password, setupMosquitto m c =
    { m with
      protocol := c.protocolVersion
      username := username
      password := password
      msgsOut := if c.protocolVersion = .mqtt5 then m.msgsOut.setMaximum c.sendMaximum else m.msgsOut
      msgsIn := if c.protocolVersion = .mqtt5 then m.msgsIn.setMaximum c.receiveMaximum else m.msgsIn } := by
  have hu (m : Mosq) : ∃ username password, usernamePwSet m c.username c.password =
      { m with username := username, password := password } := by
    unfold usernamePwSet
    repeat' split
    all_goals exact ⟨_, _, rfl⟩
  obtain ⟨username, password, e⟩ := hu (setupOptions m c)
  refine ⟨username, password, ?_⟩
  rw [setupMosquitto, e, setupOptions]
  split <;> rfl

/-- `mosquitto_connect_bind_v5` sets what it is given and fills the quotas, or changes nothing. -/
theorem connectBind_cases (env : RecEnv) (c : ConnectConfig) :
    ((connectBind env m c).1 = m ∧ (connectBind env m c).2 ≠ .success) ∨
    ∃ id, connectBind env m c =
      ({ m with
         id := id
         host := some c.host
         port := c.port
         keepalive := c.keepAlive.toNat % 65536
         msgsIn := m.msgsIn.fullQuota
         msgsOut := m.msgsOut.fullQuota }, .success) := by
  unfold connectBind connectInit
  split
  · rename_i hne
    exact .inl ⟨rfl, hne⟩
  split
  · exact .inl ⟨rfl, by simp⟩
  split
  · exact .inl ⟨rfl, by simp⟩
  · exact .inr ⟨_, rfl⟩

/-- The Receive Maximum of a CONNECT is taken over, if there is one. -/
theorem adoptReceiveMaximum_eq (l : List MosquittoProperty) : ∃ maximum quota, adoptReceiveMaximum m l =
    { m with msgsIn := { m.msgsIn with inflightMaximum := maximum, inflightQuota := quota } } := by
  unfold adoptReceiveMaximum
  split <;> exact ⟨_, _, rfl⟩

/-! ## The connection -/

section Conn

theorem sock_of_conn {m m' : Mosq} (h : m'.conn = m.conn) : m'.sock = m.sock := congrArg Conn.sock h
theorem state_of_conn {m m' : Mosq} (h : m'.conn = m.conn) : m'.state = m.state := congrArg Conn.state h
theorem conns_of_conn {m m' : Mosq} (h : m'.conn = m.conn) : m'.conns = m.conns := congrArg Conn.conns h
theorem threaded_of_conn {m m' : Mosq} (h : m'.conn = m.conn) : m'.threaded = m.threaded :=
  congrArg Conn.threaded h
theorem protocol_of_conn {m m' : Mosq} (h : m'.conn = m.conn) : m'.protocol = m.protocol :=
  congrArg Conn.protocol h
theorem discs_of_conn {m m' : Mosq} (h : m'.conn = m.conn) : discsSinceOpen m'.trace = discsSinceOpen m.trace :=
  congrArg Conn.discs h

@[simp] theorem conn_packetQueue (p : Packet) : (packetQueue m p).conn = m.conn := rfl
@[simp] theorem conn_onConnect (r : UInt8) : (m.emit (.onConnect r)).conn = m.conn := rfl
@[simp] theorem conn_onMessage (msg : Message) : (m.emit (.onMessage msg)).conn = m.conn := rfl
@[simp] theorem conn_msgsIn (d : MsgData) : { m with msgsIn := d }.conn = m.conn := rfl
@[simp] theorem conn_msgsOut (d : MsgData) : { m with msgsOut := d }.conn = m.conn := rfl
@[simp] theorem conn_pingT (b : Bool) : { m with pingT := b }.conn = m.conn := rfl
@[simp] theorem conn_id (b : Option Bytes) : { m with id := b }.conn = m.conn := rfl
@[simp] theorem conn_midGenerate : (midGenerate m).1.conn = m.conn := rfl
@[simp] theorem conn_published (n : Nat) : { m with published := n }.conn = m.conn := rfl
@[simp] theorem conn_incrementReceiveQuota : (incrementReceiveQuota m).conn = m.conn := rfl
@[simp] theorem conn_decrementReceiveQuota : (decrementReceiveQuota m).conn = m.conn := rfl
@[simp] theorem conn_incrementSendQuota : (incrementSendQuota m).conn = m.conn := rfl
@[simp] theorem conn_decrementSendQuota : (decrementSendQuota m).conn = m.conn := rfl
@[simp] theorem conn_connackLimits (l : List MosquittoProperty) : (connackLimits m l).conn = m.conn := rfl
@[simp] theorem conn_messageQueueIn (msg : Message) : (messageQueueIn m msg).conn = m.conn := rfl

@[simp] theorem conn_sendPacket (n : Nat) (p : Packet) : (sendPacket alloc m n p).1.conn = m.conn := by
  unfold sendPacket
  split <;> simp

@[simp] theorem conn_sendCommandWithMid (p : Packet) (r : UInt8) :
    (sendCommandWithMid alloc m p r).1.conn = m.conn := by
  simp [sendCommandWithMid]

@[simp] theorem conn_sendPuback (mid : UInt16) (r : UInt8) : (sendPuback alloc m mid r).1.conn = m.conn := by
  simp [sendPuback]

@[simp] theorem conn_sendPubcomp (mid : UInt16) : (sendPubcomp alloc m mid).1.conn = m.conn := by
  simp [sendPubcomp]

@[simp] theorem conn_sendPubrec (mid : UInt16) (r : UInt8) : (sendPubrec alloc m mid r).1.conn = m.conn := by
  simp only [sendPubrec, conn_sendCommandWithMid]
  split <;> simp

@[simp] theorem conn_sendPubrel (mid : UInt16) : (sendPubrel alloc m mid).1.conn = m.conn := by simp [sendPubrel]

@[simp] theorem conn_sendPublish (msg : Message) : (sendPublish alloc m msg).1.conn = m.conn := by
  unfold sendPublish sendRealPublish
  split
  · rfl
  · split <;> simp

@[simp] theorem conn_sendPingreq : (sendPingreq alloc m).1.conn = m.conn := by
  have h := conn_sendPacket alloc m 0 .pingreq
  unfold sendPingreq sendSimpleCommand
  split
  · rename_i m' e
    simpa [e] using h
  · exact h

@[simp] theorem conn_sendPingresp : (sendPingresp alloc m).1.conn = m.conn := by
  simp [sendPingresp, sendSimpleCommand]

@[simp] theorem conn_sendDisconnect (r : UInt8) (l : List MosquittoProperty) :
    (sendDisconnect alloc m r l).1.conn = m.conn := by simp [sendDisconnect]

@[simp] theorem conn_adoptReceiveMaximum (l : List MosquittoProperty) :
    (adoptReceiveMaximum m l).conn = m.conn := by
  obtain ⟨maximum, quota, e⟩ := adoptReceiveMaximum_eq m l
  rw [e]
  rfl

@[simp] theorem conn_sendConnect (l : List MosquittoProperty) : (sendConnect alloc m l).1.conn = m.conn := by
  unfold sendConnect
  split
  · rfl
  · dsimp only
    split <;> simp

@[simp] theorem conn_releaseLoop (l : List Message) : (releaseLoop alloc m l).1.conn = m.conn := by
  induction l generalizing m with
  | nil => rfl
  | cons cur rest ih =>
    rcases Nat.eq_zero_or_pos m.msgsOut.inflightQuota with hq | hq
    · rw [releaseLoop_full _ hq]
    by_cases h : cur.qos > 0 ∧ cur.state = .invalid
    · cases hc : canPublish alloc m cur.released with
      | true => rw [releaseLoop_send hq h hc, ih]; simp
      | false =>
        obtain ⟨rc, -, e⟩ := releaseLoop_fail rest hq h hc
        rw [e]
    · rw [releaseLoop_keep hq h]
      exact ih m

@[simp] theorem conn_messageReleaseToInflight : (messageReleaseToInflight alloc m).1.conn = m.conn := by
  simp [messageReleaseToInflight]

@[simp] theorem conn_messageQueueOut (msg : Message) : (messageQueueOut alloc m msg).1.conn = m.conn := by
  simp [messageQueueOut]

@[simp] theorem conn_retryLoop (l : List Message) : (retryLoop alloc m l).1.conn = m.conn := by
  induction l generalizing m with
  | nil => rfl
  | cons msg rest ih =>
    unfold retryLoop
    split <;> simp [ih]

@[simp] theorem conn_messageRetryCheck : (messageRetryCheck alloc m).conn = m.conn := by simp [messageRetryCheck]

@[simp] theorem conn_mosquittoPublishV5 (a : PublishArgs) : (mosquittoPublishV5 alloc m a).1.conn = m.conn := by
  unfold mosquittoPublishV5
  dsimp only
  repeat' split
  all_goals simp

/-! ### Handlers -/

@[simp] theorem conn_acceptPublish (msg : Message) : (acceptPublish alloc m msg).1.conn = m.conn := by
  unfold acceptPublish
  split <;> simp

@[simp] theorem conn_handlePublish (p : PublishIn) : (handlePublish alloc m p).1.conn = m.conn := by
  unfold handlePublish
  split <;> simp

@[simp] theorem conn_releaseMessage (mid : UInt16) : (releaseMessage alloc m mid).1.conn = m.conn := by
  unfold releaseMessage
  dsimp only
  repeat' split
  all_goals simp

@[simp] theorem conn_handlePubrel (flags : UInt8) (mid : Except Rc UInt16) (tail : Except Rc UInt8) :
    (handlePubrel alloc m flags mid tail).1.conn = m.conn := by
  unfold handlePubrel
  repeat' split
  all_goals simp

@[simp] theorem conn_completeMessage (d : MsgData) (mid : UInt16) : (completeMessage m d mid).conn = m.conn := rfl

@[simp] theorem conn_acknowledge (mid : UInt16) (qos : Nat) : (acknowledge alloc m mid qos).1.conn = m.conn := by
  unfold acknowledge
  split <;> simp

@[simp] theorem conn_handlePubackcomp (type : Ack) (mid : Except Rc UInt16) (tail : Except Rc UInt8) :
    (handlePubackcomp alloc m type mid tail).1.conn = m.conn := by
  unfold handlePubackcomp
  repeat' split
  all_goals simp

@[simp] theorem conn_receiveMessage (mid : UInt16) : (receiveMessage alloc m mid).1.conn = m.conn := by
  unfold receiveMessage
  split <;> simp

@[simp] theorem conn_refuseMessage (mid : UInt16) : (refuseMessage alloc m mid).1.conn = m.conn := by
  unfold refuseMessage
  split <;> simp

@[simp] theorem conn_handlePubrec (mid : Except Rc UInt16) (tail : Except Rc UInt8) :
    (handlePubrec alloc m mid tail).1.conn = m.conn := by
  unfold handlePubrec
  repeat' split
  all_goals simp

@[simp] theorem conn_handleConnack (flags reason : Except Rc UInt8) (l : Except Rc (List MosquittoProperty)) :
    (handleConnack m flags reason l).1.conn = m.conn := by
  unfold handleConnack
  repeat' split
  all_goals simp

def Handled.Reports : Handled → Option UInt8 → Prop
  | .connack r _, reported => reported = some r
  | .connackUnsupported, reported => reported = some 0x84
  | _, reported => reported = none

theorem handleConnack_reports (flags reason : Except Rc UInt8) (l : Except Rc (List MosquittoProperty)) :
    (handleConnack m flags reason l).2 ≠ .disconnect ∧
      (handleConnack m flags reason l).2.Reports (reportedReason m (.connack flags reason l)) := by
  unfold handleConnack
  cases flags with
  | error rc => exact ⟨by simp, rfl⟩
  | ok f =>
    cases reason with
    | error rc => exact ⟨by simp, rfl⟩
    | ok r =>
      simp only [reportedReason]
      split
      · rename_i rc hp
        split <;> exact ⟨by simp, rfl⟩
      · rename_i l' hp
        split
        · rename_i h1 h2
          exact ⟨by simp, if_pos (by rw [h1, h2]; exact ⟨rfl, rfl⟩)⟩
        · rename_i h1 h2
          exact ⟨by simp, if_neg (by rw [h2]; exact fun h => Bool.false_ne_true h.2)⟩
        · rename_i h1
          exact ⟨by simp, if_neg (by rw [h1]; exact fun h => Bool.false_ne_true h.1)⟩

theorem conn_handleDisconnect (reason : Except Rc UInt8) (tail : Rc) :
    ((handleDisconnect m reason tail).1.conn = m.conn ∧ (handleDisconnect m reason tail).2 ≠ .disconnect ∧
      endsConnection m (.disconnect reason tail) = false) ∨
    (handleDisconnect m reason tail = (doClientDisconnect m, .disconnect) ∧
      endsConnection m (.disconnect reason tail) = true) := by
  unfold handleDisconnect
  split
  · rename_i hp
    refine .inl ⟨rfl, by simp, ?_⟩
    cases reason <;> simp [endsConnection, hp]
  · rename_i hp
    split
    · exact .inl ⟨rfl, by simp, rfl⟩
    · split
      · rename_i ht
        exact .inl ⟨rfl, by simp, by simp [endsConnection, ht]⟩
      · rename_i ht
        exact .inr ⟨rfl, by simp [endsConnection, not_not.mp hp, not_not.mp ht]⟩

/-- A handled packet leaves the connection alone, unless it is a DISCONNECT that ends it. -/
theorem conn_handlePacket (p : InPacket) :
    ((handlePacket alloc m p).1.conn = m.conn ∧ (handlePacket alloc m p).2 ≠ .disconnect ∧
    endsConnection m p = false) ∨
      (handlePacket alloc m p = (doClientDisconnect m, .disconnect) ∧ endsConnection m p = true) := by
  cases p with
  | disconnect reason tail => exact conn_handleDisconnect m reason tail
  | connack flags reason l =>
    exact .inl ⟨conn_handleConnack m flags reason l, (handleConnack_reports m flags reason l).1, rfl⟩
  | _ =>
    left
    simp only [handlePacket, endsConnection]
    repeat' split
    all_goals simp

/-- on_connect is given what `reportedReason` says. -/
theorem handlePacket_reports (p : InPacket) : (handlePacket alloc m p).2.Reports (reportedReason m p) := by
  cases p with
  | connack flags reason l => exact (handleConnack_reports m flags reason l).2
  | disconnect reason tail =>
    simp only [handlePacket, handleDisconnect]
    repeat' split
    all_goals rfl
  | _ =>
    simp only [handlePacket]
    repeat' split
    all_goals rfl

end Conn

end Artemisia.Client
