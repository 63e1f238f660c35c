/-
  Artemisia.Client.Handed — the packets that a call hands to `packet__queue` for the messages out, each with its
  message.

  A PUBLISH does not say which message it is for: packet ids are used again. The loops of
  `message__release_to_inflight` and `message__retry_check` are followed here with the messages they look at.

  Proved:
  - `outflow_publish`, `outflow_handlePacket`, `outflow_connackSwitch`: the PUBLISHes queued are those that
                                                                        are listed.
  - `releaseHands_unsent`, `retryHands_due`:                            in which state a message is when its
                                                                        packet goes out.
-/
import Artemisia.Client.Release

namespace Artemisia.Client

open Artemisia.Property

/-! ## What is handed over -/

/-- What the loop of `message__release_to_inflight` hands over. -/
def releaseHands (alloc : Alloc) (m : Mosq) : List Message → List (Message × Packet)
  | [] => []
  | cur :: rest =>
    if m.msgsOut.inflightQuota > 0 then
      if cur.qos > 0 ∧ cur.state = .invalid then
        if canPublish alloc m cur.released then
          (cur.released, publishPacket m cur.released) ::
            releaseHands alloc (decrementSendQuota (packetQueue m (publishPacket m cur.released))) rest
        else []
      else releaseHands alloc m rest
    else []

/-- What the loop of `message__retry_check` hands over. -/
def retryHands (alloc : Alloc) (m : Mosq) : List Message → List (Message × Packet)
  | [] => []
  | msg :: rest =>
    match msg.state with
    | .publishQos1 | .publishQos2 =>
      let msg := { msg with dup := true }
      let s := sendPublish alloc m msg
      (if s.2 = .success then [(msg, publishPacket m msg)] else []) ++ retryHands alloc s.1 rest
    | .waitForPubrel =>
      let s := sendPubrec alloc m msg.mid 0
      (if s.2 = .success then [(msg, .pubrec msg.mid 0)] else []) ++ retryHands alloc s.1 rest
    | .resendPubrel | .waitForPubcomp =>
      let s := sendPubrel alloc m msg.mid
      (if s.2 = .success then [(msg, .pubrel msg.mid)] else []) ++ retryHands alloc s.1 rest
    | _ => retryHands alloc m rest

/-- What a publish call hands over: a message of QoS 0 is sent at once, another one is stored and released. -/
def publishHands (alloc : Alloc) (m : Mosq) (a : PublishArgs) : List (Message × Packet) :=
  match publishRelease m a with
  | some m => releaseHands alloc m m.msgsOut.inflight
  | none =>
    let r := midGenerate m
    let message := messageOf m a r.2
    if publishChecks m a = .success ∧ a.qos = 0 ∧
        canPublish alloc { r.1 with published := m.published + 1 } message = true then
      [(message, publishPacket r.1 message)]
    else []

/-- The queued message of QoS 2 for which a PUBREC with a reason code below 0x80 is handled. -/
def receivedFor (m : Mosq) : InPacket → Option Message
  | .pubrec mid tail =>
    if m.state ≠ .active then none
    else match readAck m mid tail with
    | .error _ => none
    | .ok (mid, reasonCode) =>
      if reasonCode < 0x80 ∨ m.protocol ≠ .mqtt5 then (m.msgsOut.inflight.find? (·.mid = mid)).filter (·.qos = 2)
      else none
  | _ => none

def packetHands (alloc : Alloc) (m : Mosq) (p : InPacket) : List (Message × Packet) :=
  match packetRelease m p with
  | some m => releaseHands alloc m m.msgsOut.inflight
  | none =>
    match receivedFor m p with
    | some e => if alloc (.pubrel e.mid) then [(e, .pubrel e.mid)] else []
    | none => []

def connackHands (alloc : Alloc) (m : Mosq) (reason : UInt8) : List (Message × Packet) :=
  if reason = 0 then
    let m := if m.state ≠ .disconnecting then m.setState .active else m
    retryHands alloc m m.msgsOut.inflight
  else []

/-! ## The PUBLISHes in a trace -/

def Packet.isPublish : Packet → Bool
  | .publish .. => true
  | _ => false

/-- Neither a PUBLISH nor a CONNECT. -/
def Packet.plain : Packet → Bool
  | .publish .. | .connect _ => false
  | _ => true

/-- What has been published and is to be said on connecting: the number of messages, the PUBLISHes and
    the CONNECTs handed to `packet__queue`, newest first, and the will. -/
structure Outflow where
  published : Nat
  pubs : List Packet
  connects : List ConnectData
  will : Option Will

def Mosq.outflow (m : Mosq) : Outflow where
  published := m.published
  pubs := m.trace.filterMap fun
    | .queued _ p => if p.isPublish then some p else none
    | _ => none
  connects := m.trace.filterMap fun
    | .queued _ (.connect data) => some data
    | _ => none
  will := m.will

def Outflow.add (o : Outflow) (l : List Packet) : Outflow := { o with pubs := l.reverse ++ o.pubs }

def Outflow.connect (o : Outflow) (l : List ConnectData) : Outflow := { o with connects := l ++ o.connects }

@[simp] theorem Outflow.add_nil (o : Outflow) : o.add [] = o := rfl

theorem Outflow.add_append (o : Outflow) (l l' : List Packet) : o.add (l ++ l') = (o.add l).add l' := by
  simp [Outflow.add]

/-- The PUBLISHes among the packets handed over. -/
def publishesOf (l : List (Message × Packet)) : List Packet := (l.map Prod.snd).filter Packet.isPublish

@[simp] theorem publishesOf_nil : publishesOf [] = [] := rfl

@[simp] theorem publishesOf_append (l l' : List (Message × Packet)) :
    publishesOf (l ++ l') = publishesOf l ++ publishesOf l' := by
  simp [publishesOf]

theorem publishesOf_cons (e : Message) {p : Packet} (h : p.isPublish = true) (l : List (Message × Packet)) :
    publishesOf ((e, p) :: l) = p :: publishesOf l := by
  simp [publishesOf, h]

theorem publishesOf_other (e : Message) {p : Packet} (h : p.isPublish = false) (b : Prop) [Decidable b] :
    publishesOf (if b then [(e, p)] else []) = [] := by
  split <;> simp [publishesOf, h]

section Frames

variable (alloc : Alloc) (m : Mosq)

theorem outflow_publishQueued {p : Packet} (h : p.isPublish = true) :
    (packetQueue m p).outflow = m.outflow.add [p] := by
  cases p with
  | publish => rfl
  | _ => cases h

theorem outflow_packetQueue {p : Packet} (h : p.plain = true) : (packetQueue m p).outflow = m.outflow := by
  cases p with
  | publish => cases h
  | connect => cases h
  | _ => rfl

theorem outflow_sendPacket (n : Nat) {p : Packet} (h : p.plain = true) :
    (sendPacket alloc m n p).1.outflow = m.outflow := by
  unfold sendPacket
  split
  · exact outflow_packetQueue m h
  · rfl

@[simp] theorem outflow_sendPuback (mid : UInt16) (r : UInt8) :
    (sendPuback alloc m mid r).1.outflow = m.outflow :=
  outflow_sendPacket alloc _ _ rfl

@[simp] theorem outflow_sendPubcomp (mid : UInt16) : (sendPubcomp alloc m mid).1.outflow = m.outflow :=
  outflow_sendPacket alloc _ _ rfl

@[simp] theorem outflow_sendPubrec (mid : UInt16) (r : UInt8) :
    (sendPubrec alloc m mid r).1.outflow = m.outflow := by
  unfold sendPubrec
  refine (outflow_sendPacket alloc _ _ rfl).trans ?_
  split <;> rfl

@[simp] theorem outflow_sendPubrel (mid : UInt16) : (sendPubrel alloc m mid).1.outflow = m.outflow :=
  outflow_sendPacket alloc m _ rfl

@[simp] theorem outflow_sendPingresp : (sendPingresp alloc m).1.outflow = m.outflow :=
  outflow_sendPacket alloc m _ rfl

@[simp] theorem outflow_sendPingreq : (sendPingreq alloc m).1.outflow = m.outflow := by
  have h := outflow_sendPacket alloc m 0 (p := .pingreq) rfl
  unfold sendPingreq sendSimpleCommand
  split
  · rename_i e
    rw [e] at h
    exact h
  · exact h

@[simp] theorem outflow_disconnectSend (r : UInt8) (l : List MosquittoProperty) :
    (disconnectSend alloc m r l).1.outflow = m.outflow := by
  unfold disconnectSend
  split
  · rfl
  · exact outflow_sendPacket alloc m _ rfl

def connectHands (alloc : Alloc) (m : Mosq) (properties : List MosquittoProperty) : List ConnectData :=
  if (sendConnect alloc m properties).2 = .success then [connectDataOf m properties] else []

theorem outflow_sendConnect (l : List MosquittoProperty) :
    (sendConnect alloc m l).1.outflow = m.outflow.connect (connectHands alloc m l) := by
  have ha : (adoptReceiveMaximum m l).outflow = m.outflow := by
    obtain ⟨maximum, quota, e⟩ := adoptReceiveMaximum_eq m l
    rw [e]
    rfl
  unfold connectHands
  rcases sendConnect_cases alloc m l with ⟨-, h⟩ | ⟨rc, hne, h | h⟩
  · rw [h, if_pos rfl, ← ha]
    rfl
  · rw [h, if_neg hne]
    rfl
  · rw [h, if_neg hne]
    exact ha

@[simp] theorem outflow_acceptPublish (msg : Message) : (acceptPublish alloc m msg).1.outflow = m.outflow := by
  unfold acceptPublish
  split
  · rfl
  · exact outflow_sendPuback alloc _ _ _
  · exact outflow_sendPubrec alloc _ _ _
  · rfl

@[simp] theorem outflow_handlePublish (p : PublishIn) : (handlePublish alloc m p).1.outflow = m.outflow := by
  unfold handlePublish
  split <;> simp

@[simp] theorem outflow_handlePubrel (flags : UInt8) (mid : Except Rc UInt16) (tail : Except Rc UInt8) :
    (handlePubrel alloc m flags mid tail).1.outflow = m.outflow := by
  unfold handlePubrel
  split
  · rfl
  · rename_i i _
    have h := outflow_sendPubcomp alloc m i
    unfold releaseMessage
    dsimp only
    repeat' split
    all_goals exact h

@[simp] theorem outflow_handleConnack (flags reason : Except Rc UInt8) (l : Except Rc (List MosquittoProperty)) :
    (handleConnack m flags reason l).1.outflow = m.outflow := by
  unfold handleConnack
  repeat' split
  all_goals rfl

@[simp] theorem outflow_handleDisconnect (reason : Except Rc UInt8) (tail : Rc) :
    (handleDisconnect m reason tail).1.outflow = m.outflow := by
  unfold handleDisconnect
  repeat' split
  all_goals rfl

theorem outflow_packetWriteLoop (stop : Rc) (n : Nat) : (packetWriteLoop stop n m).1.outflow = m.outflow := by
  induction n generalizing m with
  | zero =>
    unfold packetWriteLoop
    split <;> rfl
  | succ n ih =>
    unfold packetWriteLoop
    split
    · rfl
    · rfl
    · rw [ih]
      split <;> rfl

@[simp] theorem outflow_packetWrite (stop : Rc) (n : Nat) : (packetWrite stop n m).1.outflow = m.outflow := by
  have ht : (takeNext m).outflow = m.outflow := by
    unfold takeNext
    split <;> rfl
  unfold packetWrite
  split
  · rfl
  · split
    · exact ht
    · exact (outflow_packetWriteLoop _ stop n).trans ht

@[simp] theorem outflow_setupMosquitto (c : ConnectConfig) : (setupMosquitto m c).outflow = m.outflow := by
  obtain ⟨username, password, e⟩ := setupMosquitto_eq m c
  rw [e]
  rfl

@[simp] theorem outflow_connectBind (env : RecEnv) (c : ConnectConfig) :
    (connectBind env m c).1.outflow = m.outflow := by
  rcases connectBind_cases m env c with ⟨e, -⟩ | ⟨id, e⟩
  · rw [e]
  · rw [e]
    rfl

end Frames

/-! ## The PUBLISHes are those that are listed -/

section Listed

variable (alloc : Alloc) (m : Mosq)

theorem outflow_releaseLoop (l : List Message) :
    (releaseLoop alloc m l).1.outflow = m.outflow.add (publishesOf (releaseHands alloc m l)) := by
  induction l generalizing m with
  | nil => rfl
  | cons cur rest ih =>
    rcases Nat.eq_zero_or_pos m.msgsOut.inflightQuota with hq | hq
    · simp [releaseLoop_full _ hq, releaseHands, hq]
    by_cases hi : cur.qos > 0 ∧ cur.state = .invalid
    · cases hc : canPublish alloc m cur.released with
      | true =>
        have hp : (publishPacket m cur.released).isPublish = true := rfl
        have hqueued : (decrementSendQuota (packetQueue m (publishPacket m cur.released))).outflow =
            m.outflow.add [publishPacket m cur.released] := outflow_publishQueued m hp
        rw [releaseLoop_send hq hi hc]
        simp only [releaseHands, hq, hi, hc, and_self, if_true, publishesOf_cons _ hp, ih, hqueued]
        exact (Outflow.add_append m.outflow [_] _).symm
      | false =>
        obtain ⟨rc, -, e⟩ := releaseLoop_fail rest hq hi hc
        simp [e, releaseHands, hq, hi, hc]
    · rw [releaseLoop_keep hq hi]
      simp only [releaseHands, hq, hi, if_true, if_false, ih]

theorem outflow_release :
    (messageReleaseToInflight alloc m).1.outflow =
      m.outflow.add (publishesOf (releaseHands alloc m m.msgsOut.inflight)) :=
  outflow_releaseLoop alloc m _

theorem outflow_sendPublish (msg : Message) : (sendPublish alloc m msg).1.outflow =
    m.outflow.add
      (publishesOf (if (sendPublish alloc m msg).2 = .success then [(msg, publishPacket m msg)] else [])) := by
  have hp : (publishPacket m msg).isPublish = true := rfl
  cases hc : canPublish alloc m msg with
  | true =>
    rw [sendPublish_ok hc, if_pos rfl, publishesOf_cons _ hp]
    exact outflow_publishQueued m hp
  | false =>
    obtain ⟨rc, hne, e⟩ := sendPublish_fail hc
    rw [e, if_neg hne]
    rfl

theorem outflow_retryLoop (l : List Message) :
    (retryLoop alloc m l).1.outflow = m.outflow.add (publishesOf (retryHands alloc m l)) := by
  induction l generalizing m with
  | nil => rfl
  | cons msg rest ih =>
    cases hs : msg.state with
    | publishQos1 | publishQos2 =>
      simp only [retryLoop, retryHands, hs, ih, outflow_sendPublish, publishesOf_append, Outflow.add_append]
    | waitForPubrel =>
      simp only [retryLoop, retryHands, hs, ih, outflow_sendPubrec, publishesOf_append, List.nil_append,
        publishesOf_other _ (show (Packet.pubrec msg.mid 0).isPublish = false from rfl)]
    | resendPubrel | waitForPubcomp =>
      simp only [retryLoop, retryHands, hs, ih, outflow_sendPubrel, publishesOf_append, List.nil_append,
        publishesOf_other _ (show (Packet.pubrel msg.mid).isPublish = false from rfl)]
    | _ => simp only [retryLoop, retryHands, hs, ih]

theorem outflow_publish (a : PublishArgs) : (mosquittoPublishV5 alloc m a).1.outflow =
    Outflow.add { m.outflow with published := m.published + if publishChecks m a = .success then 1 else 0 }
      (publishesOf (publishHands alloc m a)) := by
  unfold mosquittoPublishV5 publishHands publishRelease
  cases hc : publishChecks m a with
  | success =>
    by_cases h0 : a.qos = 0
    · simp only [h0, ne_eq, not_true_eq_false, false_and, and_false, if_false, if_true, true_and]
      have hp (m : Mosq) (msg : Message) : (publishPacket m msg).isPublish = true := rfl
      cases hcan : canPublish alloc { (midGenerate m).1 with published := m.published + 1 }
          (messageOf m a (midGenerate m).2) with
      | true =>
        rw [sendPublish_ok hcan, if_pos rfl, publishesOf_cons _ (hp _ _)]
        exact outflow_publishQueued _ (hp _ _)
      | false =>
        obtain ⟨rc, -, e⟩ := sendPublish_fail hcan
        rw [e, if_neg (by simp)]
        rfl
    · cases hcopies : a.copies with
      | true =>
        simp only [h0, ne_eq, not_false_eq_true, and_self, if_false, if_true]
        exact outflow_release alloc _
      | false =>
        simp only [h0, Bool.false_eq_true, false_and, and_false, if_false, if_true]
        rfl
  | _ => rfl

theorem outflow_handlePubackcomp (type : Ack) (mid : Except Rc UInt16) (tail : Except Rc UInt8) :
    (handlePubackcomp alloc m type mid tail).1.outflow =
      m.outflow.add (publishesOf (packetHands alloc m (.pubackcomp type mid tail))) := by
  unfold handlePubackcomp packetHands packetRelease
  by_cases hs : m.state ≠ .active
  · simp [hs, receivedFor]
  simp only [hs, if_false]
  cases readAck m mid tail with
  | error rc => rfl
  | ok r =>
    simp only [acknowledge]
    cases messageRemove (incrementSendQuota m).msgsOut r.1 type.qos with
    | ok x => exact outflow_release alloc _
    | error rc =>
      cases rc with
      | notFound => exact outflow_release alloc _
      | _ => rfl

theorem publishesOf_received (p : InPacket) : publishesOf (match receivedFor m p with
    | some e => if alloc (.pubrel e.mid) then [(e, .pubrel e.mid)] else []
    | none => []) = [] := by
  split
  · exact publishesOf_other _ rfl _
  · rfl

theorem outflow_handlePubrec (mid : Except Rc UInt16) (tail : Except Rc UInt8) :
    (handlePubrec alloc m mid tail).1.outflow =
      m.outflow.add (publishesOf (packetHands alloc m (.pubrec mid tail))) := by
  unfold handlePubrec packetHands packetRelease
  by_cases hs : m.state ≠ .active
  · simp [hs, receivedFor]
  simp only [hs, if_false]
  cases readAck m mid tail with
  | error rc =>
    dsimp only
    rw [publishesOf_received]
    rfl
  | ok r =>
    dsimp only
    by_cases hr : r.2 < 0x80 ∨ m.protocol ≠ .mqtt5
    · rw [if_pos hr, if_pos hr]
      dsimp only
      rw [publishesOf_received]
      unfold receiveMessage
      split
      · exact outflow_sendPubrel alloc _ _
      · exact outflow_sendPubrel alloc m _
      · rfl
    · rw [if_neg hr, if_neg hr]
      unfold refuseMessage
      cases messageRemove m.msgsOut r.1 2 with
      | ok x => exact outflow_release alloc _
      | error rc => exact outflow_release alloc _

theorem outflow_handlePacket (p : InPacket) :
    (handlePacket alloc m p).1.outflow = m.outflow.add (publishesOf (packetHands alloc m p)) := by
  cases p with
  | pubackcomp type mid tail => exact outflow_handlePubackcomp alloc m type mid tail
  | pubrec mid tail => exact outflow_handlePubrec alloc m mid tail
  | _ =>
    simp only [handlePacket, packetHands, packetRelease, receivedFor, publishesOf_nil]
    repeat' split
    all_goals first
      | rfl
      | simp

theorem outflow_connackSwitch (reason : UInt8) : (connackSwitch alloc m reason).1.outflow =
    m.outflow.add (publishesOf (connackHands alloc m reason)) := by
  unfold connackSwitch connackHands
  split
  · dsimp only
    split <;> exact outflow_retryLoop alloc _ _
  · split <;> rfl

end Listed

/-! ## The state of a message whose packet is handed over -/

section States

variable {alloc : Alloc} {m : Mosq} {l : List Message} {x : Message × Packet}

/-- A release sends what has not been sent. -/
theorem releaseHands_unsent (h : x ∈ releaseHands alloc m l) : ∃ e ∈ l, e.uid = x.1.uid ∧ e.state = .invalid := by
  induction l generalizing m with
  | nil => cases h
  | cons cur rest ih =>
    unfold releaseHands at h
    split at h
    · split at h
      · rename_i hi
        split at h
        · rcases List.mem_cons.mp h with rfl | h
          · exact ⟨cur, List.mem_cons_self .., rfl, hi.2⟩
          · obtain ⟨e, he, hx⟩ := ih h
            exact ⟨e, List.mem_cons_of_mem _ he, hx⟩
        · cases h
      · obtain ⟨e, he, hx⟩ := ih h
        exact ⟨e, List.mem_cons_of_mem _ he, hx⟩
    · cases h

/-- A retry sends a PUBREL for what has been received, and nothing else. -/
theorem retryHands_due (h : x ∈ retryHands alloc m l) : ∃ e ∈ l, e.uid = x.1.uid ∧
    (x.2 = .pubrel e.mid ∨ (e.state ≠ .resendPubrel ∧ e.state ≠ .waitForPubcomp)) := by
  induction l generalizing m with
  | nil => cases h
  | cons msg rest ih =>
    have hrest {m' : Mosq} (h : x ∈ retryHands alloc m' rest) : ∃ e ∈ msg :: rest, e.uid = x.1.uid ∧
        (x.2 = .pubrel e.mid ∨ (e.state ≠ .resendPubrel ∧ e.state ≠ .waitForPubcomp)) := by
      obtain ⟨e, he, hx⟩ := ih h
      exact ⟨e, List.mem_cons_of_mem _ he, hx⟩
    cases hs : msg.state with
    | publishQos1 | publishQos2 | waitForPubrel =>
      simp only [retryHands, hs, List.mem_append] at h
      rcases h with h | h
      · split at h
        · obtain rfl := List.mem_singleton.mp h
          exact ⟨msg, List.mem_cons_self .., rfl, .inr (by simp [hs])⟩
        · cases h
      · exact hrest h
    | resendPubrel | waitForPubcomp =>
      simp only [retryHands, hs, List.mem_append] at h
      rcases h with h | h
      · split at h
        · obtain rfl := List.mem_singleton.mp h
          exact ⟨msg, List.mem_cons_self .., rfl, .inl rfl⟩
        · cases h
      · exact hrest h
    | _ =>
      simp only [retryHands, hs] at h
      exact hrest h

end States

/-! ## The size of a PUBLISH that is handed over -/

section Sizes

variable {alloc : Alloc} {m m' : Mosq} {l : List Message} {x : Message × Packet}

/-- The PUBLISH of the message passes the checks of its size. -/
def Sendable (m : Mosq) (msg : Message) : Prop :=
  checkOversize m (publishLength m msg).1 = .success ∧ (publishLength m msg).1 < 268435456

/-- What the checks look at. -/
def Mosq.limits (m : Mosq) : Protocol × Nat := (m.protocol, m.maximumPacketSize)

theorem Sendable.congr {msg : Message} (h : Sendable m' msg) (hm : m'.limits = m.limits) : Sendable m msg := by
  obtain ⟨hp, hs⟩ := Prod.mk.inj hm
  have hlen : publishLength m' msg = publishLength m msg := by simp only [publishLength, hp]
  have ho : checkOversize m' (publishLength m msg).1 = checkOversize m (publishLength m msg).1 := by
    simp only [checkOversize, hs]
  rw [Sendable, hlen, ho] at h
  exact h

theorem sendable_of_canPublish {msg : Message} (h : canPublish alloc m msg = true) : Sendable m msg := by
  simp only [canPublish, decide_eq_true_eq] at h
  obtain ⟨-, ho, ha⟩ := h
  exact ⟨ho, packetAlloc_ok ha⟩

theorem limits_sendPacket (n : Nat) (p : Packet) : (sendPacket alloc m n p).1.limits = m.limits := by
  unfold sendPacket
  split <;> rfl

theorem limits_sendPublish (msg : Message) : (sendPublish alloc m msg).1.limits = m.limits := by
  cases hc : canPublish alloc m msg with
  | true =>
    rw [sendPublish_ok hc]
    rfl
  | false =>
    obtain ⟨rc, -, e⟩ := sendPublish_fail hc
    rw [e]

theorem limits_sendPubrec (mid : UInt16) (r : UInt8) : (sendPubrec alloc m mid r).1.limits = m.limits := by
  unfold sendPubrec
  refine (limits_sendPacket _ _).trans ?_
  split <;> rfl

theorem releaseHands_sendable (h : x ∈ releaseHands alloc m l) : Sendable m x.1 := by
  induction l generalizing m with
  | nil => cases h
  | cons cur rest ih =>
    unfold releaseHands at h
    split at h
    · split at h
      · split at h
        · rename_i hc
          rcases List.mem_cons.mp h with rfl | h
          · exact sendable_of_canPublish hc
          · exact (ih h).congr rfl
        · cases h
      · exact ih h
    · cases h

theorem sendable_of_sent {msg : Message} (h : (sendPublish alloc m msg).2 = .success) : Sendable m msg := by
  have hcan : canPublish alloc m msg = true := by
    by_contra hc
    obtain ⟨rc, hne, e⟩ := sendPublish_fail (Bool.eq_false_iff.mpr hc)
    rw [e] at h
    exact hne h
  exact sendable_of_canPublish hcan

theorem retryHands_sendable (h : x ∈ retryHands alloc m l) (hx : x.2.isPublish = true) : Sendable m x.1 := by
  induction l generalizing m with
  | nil => cases h
  | cons msg rest ih =>
    cases hs : msg.state with
    | publishQos1 | publishQos2 =>
      simp only [retryHands, hs, List.mem_append] at h
      rcases h with h | h
      · split at h
        · rename_i hsent
          obtain rfl := List.mem_singleton.mp h
          exact sendable_of_sent hsent
        · cases h
      · exact (ih h).congr (limits_sendPublish _)
    | waitForPubrel =>
      simp only [retryHands, hs, List.mem_append] at h
      rcases h with h | h
      · split at h
        · rw [List.mem_singleton.mp h] at hx
          cases hx
        · cases h
      · exact (ih h).congr (limits_sendPubrec _ _)
    | resendPubrel | waitForPubcomp =>
      simp only [retryHands, hs, List.mem_append] at h
      rcases h with h | h
      · split at h
        · rw [List.mem_singleton.mp h] at hx
          cases hx
        · cases h
      · exact (ih h).congr (limits_sendPacket _ _)
    | _ =>
      simp only [retryHands, hs] at h
      exact ih h

theorem publishHands_sendable {a : PublishArgs} (h : x ∈ publishHands alloc m a) : Sendable m x.1 := by
  unfold publishHands at h
  split at h
  · rename_i m' hm'
    refine (releaseHands_sendable h).congr ?_
    unfold publishRelease at hm'
    split at hm'
    · cases hm'
      rfl
    · cases hm'
  · dsimp only at h
    split at h
    · rename_i hc
      rw [List.mem_singleton.mp h]
      exact (sendable_of_canPublish hc.2.2).congr rfl
    · cases h

theorem limits_packetRelease {p : InPacket} (h : packetRelease m p = some m') : m'.limits = m.limits := by
  unfold packetRelease at h
  dsimp only at h
  repeat' split at h
  all_goals cases h
  all_goals rfl

theorem packetHands_sendable {p : InPacket} (h : x ∈ packetHands alloc m p) (hx : x.2.isPublish = true) :
    Sendable m x.1 := by
  unfold packetHands at h
  split at h
  · rename_i m' hm'
    exact (releaseHands_sendable h).congr (limits_packetRelease hm')
  · split at h
    · split at h
      · rw [List.mem_singleton.mp h] at hx
        cases hx
      · cases h
    · cases h

theorem connackHands_sendable {reason : UInt8} (h : x ∈ connackHands alloc m reason) (hx : x.2.isPublish = true) :
    Sendable m x.1 := by
  unfold connackHands at h
  split at h
  · refine (retryHands_sendable h hx).congr ?_
    split <;> rfl
  · cases h

end Sizes

end Artemisia.Client
