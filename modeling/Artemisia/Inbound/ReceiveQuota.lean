/-
  Artemisia.Inbound.ReceiveQuota — what becomes of `msgs_in.inflight_quota`: the packets read, the packets
  sent, a reset, a CONNECT.

  `Room r` says that the quota and the messages stored make up at least `r`, and that the quota may grow that far.

  Proved:
  - `readPublish_refused`, `readPublish_room`: what the quota has to say when a PUBLISH is read.
  - `room_receive`:           no packet that is read, or answered, takes any of the room away.
  - `mosquittoReconnect_cases`, `connectAgain_cases`: a new connection has the room that its CONNECT says.
-/
import Artemisia.Client.Config
import Artemisia.Client.Quota
import Artemisia.Inbound.Receive

namespace Artemisia.Inbound

open Artemisia.Property Artemisia.Client

/-! ## The check -/

/-- `handle__publish` comes as far as its test of the quota. -/
def comesToQuota (m : Mosq) (p : PublishIn) : Bool :=
  m.state = .active ∧ p.topic.toOption.any (fun t => t.bytes ≠ []) ∧ p.qos > 0 ∧ m.protocol = .mqtt5

/-- And the quota is 0. -/
def refusedForQuota (m : Mosq) (p : PublishIn) : Bool := comesToQuota m p ∧ m.msgsIn.inflightQuota = 0

def withQuota (m : Mosq) (n : Nat) : Mosq := { m with msgsIn := { m.msgsIn with inflightQuota := n } }

theorem readPublish_refused {m : Mosq} {p : PublishIn} (h : refusedForQuota m p = true) :
    readPublish m p = .error .protocol := by
  simp only [refusedForQuota, comesToQuota, decide_eq_true_eq] at h
  obtain ⟨⟨hs, ht, hq, hp⟩, hz⟩ := h
  unfold readPublish
  rw [if_neg (by simpa using hs)]
  cases hp' : p.topic with
  | error rc => simp [hp', Except.toOption] at ht
  | ok t =>
    dsimp only
    split
    · rfl
    · rw [if_pos ⟨hq, hp, hz⟩]

/-- A PUBLISH that is not refused is read as with any other quota. -/
theorem readPublish_room {m : Mosq} {p : PublishIn} (h : refusedForQuota m p = false) {n : Nat} (hn : 0 < n) :
    readPublish m p = readPublish (withQuota m n) p := by
  simp only [refusedForQuota, comesToQuota, decide_eq_true_eq, decide_eq_false_iff_not] at h
  have hne : n ≠ 0 := by omega
  unfold readPublish withQuota
  dsimp only
  by_cases hs : m.state ≠ .active
  · rw [if_pos hs, if_pos hs]
  rw [if_neg hs, if_neg hs]
  cases hp' : p.topic with
  | error rc => rfl
  | ok t =>
    dsimp only
    by_cases ht : t.bytes = []
    · rw [if_pos ht, if_pos ht]
    · have hz : ¬ (p.qos > 0 ∧ m.protocol = .mqtt5 ∧ m.msgsIn.inflightQuota = 0) :=
        fun hc => h ⟨⟨by simpa using hs, by simpa [hp', Except.toOption] using ht, hc.1, hc.2.1⟩, hc.2.2⟩
      have hn' : ¬ (p.qos > 0 ∧ m.protocol = .mqtt5 ∧ n = 0) := fun hc => hne hc.2.2
      rw [if_neg ht, if_neg ht, if_neg hz, if_neg hn']

/-! ## What leaves the messages in alone -/

section Frames

variable (alloc : Alloc) (m : Mosq)

@[simp] theorem msgsIn_emit (e : Event) : (m.emit e).msgsIn = m.msgsIn := rfl
@[simp] theorem msgsIn_setState (c : ClientState) : (m.setState c).msgsIn = m.msgsIn := rfl
@[simp] theorem msgsIn_socketClose : m.socketClose.msgsIn = m.msgsIn := rfl
@[simp] theorem msgsIn_socketOpen : m.socketOpen.msgsIn = m.msgsIn := rfl
@[simp] theorem msgsIn_packetQueue (p : Packet) : (packetQueue m p).msgsIn = m.msgsIn := rfl
@[simp] theorem msgsIn_incrementSendQuota : (incrementSendQuota m).msgsIn = m.msgsIn := rfl
@[simp] theorem msgsIn_decrementSendQuota : (decrementSendQuota m).msgsIn = m.msgsIn := rfl
@[simp] theorem msgsIn_connackLimits (l : List MosquittoProperty) : (connackLimits m l).msgsIn = m.msgsIn := rfl
@[simp] theorem msgsIn_completeMessage (d : MsgData) (mid : UInt16) :
    (completeMessage m d mid).msgsIn = m.msgsIn := rfl
@[simp] theorem msgsIn_endConnection : (endConnection m).msgsIn = m.msgsIn := rfl
@[simp] theorem msgsIn_midGenerate : (midGenerate m).1.msgsIn = m.msgsIn := rfl

@[simp] theorem msgsIn_sendPacket (n : Nat) (p : Packet) : (sendPacket alloc m n p).1.msgsIn = m.msgsIn := by
  unfold sendPacket
  split <;> rfl

@[simp] theorem msgsIn_sendPubrel (mid : UInt16) : (sendPubrel alloc m mid).1.msgsIn = m.msgsIn :=
  msgsIn_sendPacket alloc m _ _

@[simp] theorem msgsIn_sendPingresp : (sendPingresp alloc m).1.msgsIn = m.msgsIn := msgsIn_sendPacket alloc m _ _

@[simp] theorem msgsIn_sendPubrec (mid : UInt16) : (sendPubrec alloc m mid 0).1.msgsIn = m.msgsIn := by
  simp [sendPubrec, sendCommandWithMid]

@[simp] theorem msgsIn_sendPuback (mid : UInt16) (r : UInt8) :
    (sendPuback alloc m mid r).1.msgsIn = m.msgsIn.incrementQuota :=
  msgsIn_sendPacket alloc (incrementReceiveQuota m) _ _

@[simp] theorem msgsIn_sendPubcomp (mid : UInt16) :
    (sendPubcomp alloc m mid).1.msgsIn = m.msgsIn.incrementQuota :=
  msgsIn_sendPacket alloc (incrementReceiveQuota m) _ _

@[simp] theorem msgsIn_sendPublish (msg : Message) : (sendPublish alloc m msg).1.msgsIn = m.msgsIn := by
  unfold sendPublish sendRealPublish
  repeat' split
  all_goals simp

@[simp] theorem msgsIn_releaseLoop (l : List Message) : (releaseLoop alloc m l).1.msgsIn = m.msgsIn := by
  induction l generalizing m with
  | nil => rfl
  | cons cur rest ih =>
    have hs := msgsIn_sendPublish alloc m cur.released
    unfold releaseLoop
    repeat' split
    · rename_i m' e
      rw [e] at hs
      exact (ih _).trans hs
    · rename_i m' rc _ e
      rw [e] at hs
      exact hs
    · exact ih m
    · rfl

@[simp] theorem msgsIn_messageReleaseToInflight : (messageReleaseToInflight alloc m).1.msgsIn = m.msgsIn :=
  msgsIn_releaseLoop alloc m _

@[simp] theorem msgsIn_messageQueueOut (msg : Message) : (messageQueueOut alloc m msg).1.msgsIn = m.msgsIn :=
  msgsIn_messageReleaseToInflight alloc _

@[simp] theorem msgsIn_retryLoop (l : List Message) : (retryLoop alloc m l).1.msgsIn = m.msgsIn := by
  induction l generalizing m with
  | nil => rfl
  | cons msg rest ih =>
    unfold retryLoop
    split <;> simp [ih]

@[simp] theorem msgsIn_messageRetryCheck : (messageRetryCheck alloc m).msgsIn = m.msgsIn :=
  msgsIn_retryLoop alloc m _

@[simp] theorem msgsIn_mosquittoPublishV5 (a : PublishArgs) :
    (mosquittoPublishV5 alloc m a).1.msgsIn = m.msgsIn := by
  unfold mosquittoPublishV5
  dsimp only
  repeat' split
  all_goals simp

@[simp] theorem msgsIn_handlePubackcomp (type : Ack) (mid : Except Rc UInt16) (tail : Except Rc UInt8) :
    (handlePubackcomp alloc m type mid tail).1.msgsIn = m.msgsIn := by
  unfold handlePubackcomp acknowledge
  repeat' split
  all_goals simp

@[simp] theorem msgsIn_handlePubrec (mid : Except Rc UInt16) (tail : Except Rc UInt8) :
    (handlePubrec alloc m mid tail).1.msgsIn = m.msgsIn := by
  unfold handlePubrec receiveMessage refuseMessage
  repeat' split
  all_goals simp

@[simp] theorem msgsIn_handleConnack (flags reason : Except Rc UInt8) (l : Except Rc (List MosquittoProperty)) :
    (handleConnack m flags reason l).1.msgsIn = m.msgsIn := by
  unfold handleConnack
  repeat' split
  all_goals simp

@[simp] theorem msgsIn_connackSwitch (reason : UInt8) : (connackSwitch alloc m reason).1.msgsIn = m.msgsIn := by
  unfold connackSwitch
  repeat' split
  all_goals simp

theorem msgsIn_handleDisconnect (reason : Except Rc UInt8) (tail : Rc) :
    (handleDisconnect m reason tail).1.msgsIn = m.msgsIn := by
  unfold handleDisconnect
  repeat' split
  all_goals rfl

/-- The end of a handler does not touch them. -/
theorem msgsIn_receive (p : InPacket) : (receive alloc m p).msgsIn = (handlePacket alloc m p).1.msgsIn := by
  unfold receive
  dsimp only
  repeat' split
  all_goals simp

@[simp] theorem msgsIn_nextPacket : (nextPacket m).msgsIn = m.msgsIn := rfl

theorem msgsIn_packetWriteLoop (stop : Rc) (n : Nat) : (packetWriteLoop stop n m).1.msgsIn = m.msgsIn := by
  induction n generalizing m with
  | zero => unfold packetWriteLoop; split <;> rfl
  | succ n ih =>
    unfold packetWriteLoop
    repeat' split
    · rfl
    · rfl
    · exact (ih _).trans rfl
    · exact (ih _).trans rfl

theorem msgsIn_packetWrite (stop : Rc) (n : Nat) : (packetWrite stop n m).1.msgsIn = m.msgsIn := by
  have ht : (takeNext m).msgsIn = m.msgsIn := (takeNext_frame m).1
  unfold packetWrite
  repeat' split
  · rfl
  · exact ht
  · exact (msgsIn_packetWriteLoop _ _ _).trans ht

theorem msgsIn_writeOne : (writeOne m).msgsIn = m.msgsIn := by
  have hw := msgsIn_packetWrite m .success 1
  unfold writeOne
  split
  · rename_i e
    rw [e] at hw
    exact hw
  · rename_i e
    rw [e] at hw
    exact hw

end Frames

/-! ## Room -/

/-- The quota and what is stored make up so much, and the quota may grow so far. -/
structure Room (r : Nat) (d : MsgData) : Prop where
  maximum : r ≤ d.inflightMaximum
  quota : r ≤ d.inflightQuota + d.inflight.length

section Rooms

variable {r : Nat} {d : MsgData}

/-- A message is acknowledged at once. -/
theorem Room.puback (h : Room r d) : Room r d.decrementQuota.incrementQuota := by
  have hm := h.maximum
  have hq := h.quota
  unfold MsgData.decrementQuota MsgData.incrementQuota
  split
  · split
    · refine ⟨hm, ?_⟩
      dsimp only
      omega
    · rename_i hfull
      refine ⟨hm, ?_⟩
      dsimp only at hfull ⊢
      omega
  · split
    · refine ⟨hm, ?_⟩
      dsimp only
      omega
    · exact h

theorem Room.store (h : Room r d) (msg : Message) : Room r (d.decrementQuota.append msg) := by
  have hm := h.maximum
  have hq := h.quota
  unfold MsgData.decrementQuota MsgData.append
  split
  · refine ⟨hm, ?_⟩
    simp only [List.length_append, List.length_singleton]
    omega
  · refine ⟨hm, ?_⟩
    simp only [List.length_append, List.length_singleton]
    omega

/-- A message is released, or there was none. -/
theorem Room.release {d' : MsgData} (h : Room r d) (hm : d'.inflightMaximum = d.inflightMaximum)
    (hq : d'.inflightQuota = d.incrementQuota.inflightQuota) (hl : d.inflight.length ≤ d'.inflight.length + 1) :
    Room r d' := by
  have hmax := h.maximum
  have hroom := h.quota
  unfold MsgData.incrementQuota at hq
  refine ⟨hm ▸ hmax, ?_⟩
  split at hq
  · dsimp only at hq
    omega
  · omega

theorem Room.reset (h : r ≤ d.inflightMaximum) : Room r (resetIn d) := by
  refine ⟨h, ?_⟩
  simp only [resetIn]
  omega

theorem Room.full (h : r ≤ d.inflightMaximum) : Room r d.fullQuota := ⟨h, Nat.le_add_right_of_le h⟩

end Rooms

/-- Whatever is read. -/
theorem room_receive {r : Nat} {alloc : Alloc} {m : Mosq} {p : InPacket} (h : Room r m.msgsIn) :
    Room r (receive alloc m p).msgsIn := by
  rw [msgsIn_receive]
  cases p with
  | publish p =>
    simp only [handlePacket, handlePublish, acceptPublish]
    repeat' split
    · exact h
    · exact h
    · rw [msgsIn_emit, msgsIn_sendPuback]
      exact h.puback
    · show Room r ((sendPubrec alloc (decrementReceiveQuota m) _ 0).1.msgsIn.append _)
      rw [msgsIn_sendPubrec]
      exact h.store _
    · exact h
  | pubrel flags mid tail =>
    obtain ⟨hl, hm, -⟩ := incrementQuota_frame m.msgsIn
    have hsame (i : UInt16) : Room r (sendPubcomp alloc m i).1.msgsIn := by
      rw [msgsIn_sendPubcomp]
      exact h.release hm rfl (by rw [hl]; exact Nat.le_succ _)
    have hless {i : UInt16} {msg : Message} {d : MsgData}
        (e : messageRemove (sendPubcomp alloc m i).1.msgsIn i 2 = .ok (msg, d)) : Room r d := by
      rw [msgsIn_sendPubcomp] at e
      obtain ⟨-, -, herase, hquota, hmax⟩ := messageRemove_ok e
      refine h.release (hmax.trans hm) hquota ?_
      rw [herase, hl, List.length_eraseP]
      split <;> omega
    simp only [handlePacket, handlePubrel, releaseMessage]
    repeat' split
    · exact h
    · rename_i e _
      exact hless e
    · rename_i e _
      exact hless e
    all_goals exact hsame _
  | disconnect reason tail => exact (msgsIn_handleDisconnect m reason tail).symm ▸ h
  | _ =>
    simp only [handlePacket]
    repeat' split
    all_goals simpa using h

/-! ## A new connection -/

def receiveMaximumOf (c : ConnectData) : Option Nat :=
  if c.protocol = .mqtt5 then (readPropertyInt16 c.properties PropId.receiveMaximum.code false).map
    UInt16.toNat else none

def connectOf (l : List Packet) : Option ConnectData :=
  l.findSome? fun
    | .connect c => some c
    | _ => none

/-- The Receive Maximum of a CONNECT that is to be written. -/
def announced (m : Mosq) : Option Nat := (connectOf (unwritten m)).bind receiveMaximumOf

/-- A connection that begins, with the room that its CONNECT says. -/
structure Opens (m' m : Mosq) : Prop where
  sock : m'.sock = some m.conns
  conns : m'.conns = m.conns + 1
  known : m'.protocol = .mqtt5 → (announced m').isSome = true
  room : ∀ r ∈ announced m', Room r m'.msgsIn

/-- A property that none of the others is. -/
theorem readPropertyInt16_added {l : List MosquittoProperty}
    (h : readPropertyInt16 l PropId.receiveMaximum.code false = none) (v : UInt16) :
    readPropertyInt16 (l ++ [⟨.receiveMaximum, v⟩]) PropId.receiveMaximum.code false = some v := by
  have hl : entries l PropId.receiveMaximum.code = [] := by
    rw [readPropertyInt16_none, List.any_eq_false] at h
    refine List.filter_eq_nil_iff.mpr fun p hp hc => h p hp ?_
    simpa using PropId.code_inj.mp (of_decide_eq_true hc)
  have he : entries (l ++ [⟨.receiveMaximum, v⟩]) PropId.receiveMaximum.code = [⟨.receiveMaximum, v⟩] := by
    rw [entries, List.filter_append]
    exact congrArg (· ++ _) hl
  rw [readPropertyInt16, readProperty, getProperty_first, he]
  rfl

section Opening

variable (env : RecEnv) (l : List MosquittoProperty) (m : Mosq)

/-- The client when `mosquitto__reconnect` has a new socket. -/
def reopened (m : Mosq) : Mosq :=
  ((messageReconnectReset { packetCleanupAll m with pingT := false }).socketClose.socketOpen).setState .connected

/-- `mosquitto__reconnect` returns before it has touched anything. -/
def turnsBack (m : Mosq) (l : List MosquittoProperty) : Prop :=
  (m.host = none ∨ m.port ≤ 0) ∨ (m.protocol ≠ .mqtt5 ∧ l ≠ []) ∨ checkAll .connect l ≠ .success

theorem mosquittoReconnect_cases : (mosquittoReconnect env l m = m ∧ turnsBack m l) ∨
    (mosquittoReconnect env l m).sock = none ∨
    sendConnect env.alloc (reopened m) l = (mosquittoReconnect env l m, .success) := by
  by_cases h1 : m.host = none ∨ m.port ≤ 0
  · exact .inl ⟨by simp only [mosquittoReconnect, reconnectFrom, reconnectStep, if_pos h1], .inl h1⟩
  by_cases h2 : m.protocol ≠ .mqtt5 ∧ l ≠ []
  · exact .inl ⟨by simp only [mosquittoReconnect, reconnectFrom, reconnectStep, if_neg h1, if_pos h2],
      .inr (.inl h2)⟩
  by_cases h3 : checkAll .connect l ≠ .success
  · exact .inl ⟨by simp only [mosquittoReconnect, reconnectFrom, reconnectStep, if_neg h1, if_neg h2, if_pos h3],
      .inr (.inr h3)⟩
  right
  have hconnect : mosquittoReconnect env l m =
      reconnectFrom env l 4 .connect
        (messageReconnectReset { packetCleanupAll m with pingT := false }).socketClose := by
    simp only [mosquittoReconnect, reconnectFrom, reconnectStep, if_neg h1, if_neg h2, if_neg h3]
  rw [hconnect, reconnectFrom, reconnectStep]
  by_cases h4 : (messageReconnectReset { packetCleanupAll m with pingT := false }).socketClose.port % 65536 = 0
  · rw [if_pos h4]
    exact .inl rfl
  rw [if_neg h4]
  by_cases h5 : env.tryConnect = .success
  · rw [if_pos h5]
    show (reconnectFrom env l 2 .sendConnect (reopened m)).sock = none ∨
      sendConnect env.alloc (reopened m) l = (reconnectFrom env l 2 .sendConnect (reopened m), .success)
    rw [reconnectFrom, reconnectStep]
    by_cases h6 : (sendConnect env.alloc (reopened m) l).2 = .success
    · simp only [if_pos h6]
      exact .inr (Prod.ext rfl h6)
    · simp only [if_neg h6]
      exact .inl rfl
  · rw [if_neg h5]
    exact .inl rfl

theorem announced_connect {r : Mosq} {c : ConnectData} (hc : r.currentOutPacket = none) (ho : r.outPacket = []) :
    announced (packetQueue r (.connect c)) = receiveMaximumOf c := by
  rw [announced, unwritten_packetQueue, unwritten, hc, ho]
  rfl

/-- The CONNECT says the maximum that the client has, or the client takes over the one that it is given. -/
theorem receiveMaximumOf_connect {m : Mosq} (h5 : m.protocol = .mqtt5) :
    ∃ v : UInt16, receiveMaximumOf (connectDataOf m l) = some v.toNat ∧
      ((adoptReceiveMaximum m l).msgsIn = m.msgsIn ∧ v.toNat ≤ m.msgsIn.inflightMaximum ∨
        (adoptReceiveMaximum m l).msgsIn = { m.msgsIn with inflightMaximum := v.toNat,
                                                           inflightQuota := v.toNat }) := by
  have hof : receiveMaximumOf (connectDataOf m l) =
      (readPropertyInt16 (connectProperties m l) PropId.receiveMaximum.code false).map UInt16.toNat := if_pos h5
  rw [hof, connectProperties, if_neg (not_not.mpr h5), adoptReceiveMaximum, h5]
  cases hr : readPropertyInt16 l PropId.receiveMaximum.code false with
  | none =>
    refine ⟨UInt16.ofNat m.msgsIn.inflightMaximum, ?_, .inl ⟨rfl, ?_⟩⟩
    · rw [if_pos rfl, readPropertyInt16_added hr]
      rfl
    · rw [UInt16.toNat_ofNat']
      exact Nat.mod_le ..
  | some v =>
    refine ⟨v, ?_, .inr rfl⟩
    rw [if_neg (by simp), hr]
    rfl

theorem opens_connect {m' : Mosq}
    (h : m' = packetQueue (adoptReceiveMaximum (reopened m) l) (.connect (connectDataOf (reopened m) l))) :
    Opens m' m := by
  have hconn := conn_adoptReceiveMaximum (reopened m) l
  have hproto : m'.protocol = m.protocol := by
    rw [h]
    exact (protocol_of_conn hconn : _ = (reopened m).protocol)
  obtain ⟨hcur, hout⟩ : (adoptReceiveMaximum (reopened m) l).currentOutPacket = none ∧
      (adoptReceiveMaximum (reopened m) l).outPacket = [] := by
    obtain ⟨maximum, quota, e⟩ := adoptReceiveMaximum_eq (reopened m) l
    rw [e]
    exact ⟨rfl, rfl⟩
  have hann : announced m' = receiveMaximumOf (connectDataOf (reopened m) l) := by
    rw [h]
    exact announced_connect hcur hout
  refine ⟨by rw [h]; exact sock_of_conn hconn, by rw [h]; exact conns_of_conn hconn, fun h5 => ?_, fun r hr => ?_⟩
  · obtain ⟨v, hv, -⟩ := receiveMaximumOf_connect l (m := reopened m) (hproto.symm.trans h5)
    rw [hann, hv]
    rfl
  · have hmsgs : m'.msgsIn = (adoptReceiveMaximum (reopened m) l).msgsIn := by
      rw [h]
      rfl
    rw [hann] at hr
    by_cases h5 : (reopened m).protocol = .mqtt5
    · obtain ⟨v, hv, hin⟩ := receiveMaximumOf_connect l h5
      rw [hv, Option.mem_some_iff] at hr
      rw [hmsgs, ← hr]
      rcases hin with ⟨hin, hle⟩ | hin
      · rw [hin]
        exact Room.reset hle
      · rw [hin]
        exact ⟨Nat.le_refl _, Nat.le_add_right ..⟩
    · rw [receiveMaximumOf, if_neg (show ¬ (connectDataOf (reopened m) l).protocol = .mqtt5 from h5)] at hr
      cases hr

/-- The client stays as it is, or is left with no connection, or one begins. -/
theorem mosquittoReconnect_opens : (mosquittoReconnect env l m = m ∧ turnsBack m l) ∨
    (mosquittoReconnect env l m).sock = none ∨ Opens (mosquittoReconnect env l m) m := by
  rcases mosquittoReconnect_cases env l m with h | h | h
  · exact .inl h
  · exact .inr (.inl h)
  right; right
  rcases sendConnect_cases env.alloc (reopened m) l with ⟨-, e⟩ | ⟨rc, hrc, e⟩
  · exact opens_connect l m (congrArg Prod.fst (h.symm.trans e))
  · exact absurd (by rw [h] at e; rcases e with e | e <;> exact (congrArg Prod.snd e).symm) hrc

/-! ### connect() -/

/-- `mosquitto_connect_bind_v5` refuses what it is given. -/
def Refused (c : ConnectConfig) : Prop := checkAll .connect c.properties ≠ .success ∨ c.port ≤ 0 ∨ c.keepAlive < 5

instance (c : ConnectConfig) : Decidable (Refused c) := inferInstanceAs (Decidable (_ ∨ _ ∨ _))

theorem connectBind_refused {c : ConnectConfig} (h : Refused c) : (connectBind env m c).1 = m ∧
    (connectBind env m c).2 ≠ .success := by
  unfold connectBind connectInit
  by_cases hc : checkAll .connect c.properties ≠ .success
  · rw [if_pos hc]
    exact ⟨rfl, hc⟩
  rw [if_neg hc]
  by_cases hp : c.port ≤ 0
  · rw [if_pos hp]
    exact ⟨rfl, by simp⟩
  · rw [if_neg hp, if_pos ((h.resolve_left hc).resolve_left hp)]
    exact ⟨rfl, by simp⟩

/-- What it accepts fills the quotas, and leaves the connection alone. -/
theorem connectBind_accepted {c : ConnectConfig} (h : ¬ Refused c) : (connectBind env m c).2 = .success ∧
    (connectBind env m c).1.conn = m.conn ∧ (connectBind env m c).1.msgsIn = m.msgsIn.fullQuota ∧
    ¬ ((connectBind env m c).1.host = none ∨ (connectBind env m c).1.port ≤ 0) := by
  simp only [Refused, not_or] at h
  obtain ⟨hc, hp, hk⟩ := h
  unfold connectBind connectInit
  rw [if_neg hc, if_neg hp, if_neg hk]
  exact ⟨rfl, rfl, rfl, by simpa using hp⟩

/-- The options touch nothing but the two maxima. -/
theorem setupMosquitto_msgsIn (c : ConnectConfig) : (setupMosquitto m c).msgsIn =
    if c.protocolVersion = .mqtt5 then m.msgsIn.setMaximum c.receiveMaximum else m.msgsIn := by
  obtain ⟨username, password, e⟩ := setupMosquitto_eq m c
  rw [e]

theorem setupMosquitto_conn (c : ConnectConfig) : (setupMosquitto m c).sock = m.sock ∧
    (setupMosquitto m c).conns = m.conns ∧
    (setupMosquitto m c).protocol = c.protocolVersion := by
  obtain ⟨username, password, e⟩ := setupMosquitto_eq m c
  rw [e]
  exact ⟨rfl, rfl, rfl⟩

theorem connectAgain_refused {c : ConnectConfig} (h : Refused c) : connectAgain env c m = setupMosquitto m c := by
  obtain ⟨hm, hrc⟩ := connectBind_refused env (setupMosquitto m c) h
  unfold connectAgain
  rw [if_neg hrc, hm]

/-- Otherwise, on v3 with properties, the connection stays and the quotas are full; or it is closed. -/
theorem connectAgain_opens {c : ConnectConfig} (h : ¬ Refused c) :
    ((connectAgain env c m).sock = m.sock ∧ (connectAgain env c m).conns = m.conns ∧
    (connectAgain env c m).protocol ≠ .mqtt5 ∧
      (connectAgain env c m).msgsIn = m.msgsIn.fullQuota) ∨
    (connectAgain env c m).sock = none ∨ Opens (connectAgain env c m) m := by
  obtain ⟨hrc, hconn, hin, hhost⟩ := connectBind_accepted env (setupMosquitto m c) h
  obtain ⟨hsock, hconns, hproto⟩ := setupMosquitto_conn m c
  have he : connectAgain env c m =
      mosquittoReconnect env c.properties ((connectBind env (setupMosquitto m c) c).1.setState .new) := by
    unfold connectAgain
    rw [if_pos hrc]
  rw [he]
  rcases mosquittoReconnect_opens env c.properties ((connectBind env (setupMosquitto m c) c).1.setState .new) with
    ⟨hm, hback⟩ | hnone | hopen
  · have h5 : (setupMosquitto m c).protocol ≠ .mqtt5 := by
      rcases hback with hback | hback | hback
      · exact absurd hback hhost
      · rw [← protocol_of_conn hconn]
        exact hback.1
      · exact absurd hback fun hc => h (.inl hc)
    rw [hm]
    refine .inl ⟨(sock_of_conn hconn).trans hsock, (conns_of_conn hconn).trans hconns, ?_, hin.trans ?_⟩
    · exact fun h => h5 ((protocol_of_conn hconn).symm.trans h)
    · rw [setupMosquitto_msgsIn, if_neg (hproto ▸ h5)]
  · exact .inr (.inl hnone)
  · have hconns' : ((connectBind env (setupMosquitto m c) c).1.setState .new).conns = m.conns :=
      (conns_of_conn hconn).trans hconns
    exact .inr (.inr { hopen with sock := hconns' ▸ hopen.sock, conns := hconns' ▸ hopen.conns })

end Opening

end Artemisia.Inbound
