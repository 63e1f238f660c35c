/-
  Artemisia.Client.Subscribe — `mosquitto_subscribe_multiple` and `mosquitto_unsubscribe_multiple` (`actions.c`),
  `send__subscribe` and `send__unsubscribe` (`send_subscribe.c`, `send_unsubscribe.c`).

  The two differ in the byte of options that a SUBSCRIBE has for each topic, and in the checks that come first.

  Proved:
  - `subscribe_cases`, `unsubscribe_cases`: the packet is queued once all checks have passed, or nothing changes.
  - `filterChecks_ok`:                      what the checks have seen to.
-/
import Artemisia.Client.Actions

namespace Artemisia.Client

open Artemisia.Property Artemisia.Topic

/-! ## What both calls do -/

def checkTopics : List Bytes → Rc
  | [] => .success
  | topic :: topics =>
    if mosquittoSubTopicCheck topic ≠ .success then .inval
    else if validateUtf8 topic ≠ .success then .malformedUtf8
    else checkTopics topics

/-- The bytes of the topics, with `extra` ones after each. -/
def topicsLength (extra : Nat) (topics : List Bytes) : Nat :=
  (topics.map fun topic => 2 + topic.length + extra).sum

/-- The size that is compared with the server's limit before anything is sent. -/
def estimatedLength (extra : Nat) (topics : List Bytes) (properties : List MosquittoProperty) : Nat :=
  topicsLength extra topics + (2 + getLengthAll properties)

/-- The checks from the socket on. -/
def filterChecks (m : Mosq) (command : Cmd) (extra : Nat) (topics : List Bytes)
    (properties : List MosquittoProperty) : Rc :=
  if m.sock = none then .noConn
  else if checkAll command properties ≠ .success then checkAll command properties
  else if checkTopics topics ≠ .success then checkTopics topics
  else if m.maximumPacketSize > 0 ∧ checkOversize m (estimatedLength extra topics properties) ≠ .success then
    .oversizePacket
  else .success

/-- `packetlen` in both send functions. -/
def filterLength (m : Mosq) (extra : Nat) (topics : List Bytes) (properties : List MosquittoProperty) : Nat :=
  2 + (if m.protocol = .mqtt5 then getLengthAll properties + varintBytes (getLengthAll properties) else 0)
    + topicsLength extra topics

/-- The packet id is drawn once the packet has been allocated. -/
def sendWithNewMid (alloc : Alloc) (m : Mosq) (remainingLength : Nat) (p : UInt16 → Packet) : Mosq × Rc :=
  let r := midGenerate m
  match packetAlloc alloc remainingLength (p r.2) with
  | .success => (packetQueue r.1 (p r.2), .success)
  | rc => (m, rc)

/-! ## SUBSCRIBE -/

def sendSubscribe (alloc : Alloc) (m : Mosq) (topics : List Bytes) (topicQos : UInt8)
    (properties : List MosquittoProperty) :
    Mosq × Rc :=
  sendWithNewMid alloc m (filterLength m 1 topics properties) (.subscribe · topics topicQos properties)

structure SubscribeArgs where
  topics : List CString
  qos : Int
  options : UInt32
  properties : List MosquittoProperty
  clientGenerated : Bool

def SubscribeArgs.outgoing (a : SubscribeArgs) : List MosquittoProperty :=
  outgoingProperties a.properties a.clientGenerated

def subscribeChecks (m : Mosq) (a : SubscribeArgs) : Rc :=
  if a.topics = [] then .inval
  else if m.protocol ≠ .mqtt5 ∧ a.properties ≠ [] then .notSupported
  else if a.qos < 0 ∨ a.qos > 2 then .inval
  else if a.options &&& 0x30 = 0x30 ∨ a.options &&& 0xC0 ≠ 0 then .inval
  else filterChecks m .subscribe 1 (a.topics.map CString.bytes) a.outgoing

/-- The byte after each topic: there are options in version 5 only. -/
def topicQos (m : Mosq) (a : SubscribeArgs) : UInt8 :=
  (UInt32.ofNat a.qos.toNat ||| if m.protocol = .mqtt5 then a.options else 0).toUInt8

def mosquittoSubscribeMultiple (alloc : Alloc) (m : Mosq) (a : SubscribeArgs) : Mosq × Rc :=
  match subscribeChecks m a with
  | .success => sendSubscribe alloc m (a.topics.map CString.bytes) (topicQos m a) a.outgoing
  | rc => (m, rc)

/-! ## UNSUBSCRIBE -/

def sendUnsubscribe (alloc : Alloc) (m : Mosq) (topics : List Bytes) (properties : List MosquittoProperty) :
    Mosq × Rc :=
  sendWithNewMid alloc m (filterLength m 0 topics properties) (.unsubscribe · topics properties)

structure UnsubscribeArgs where
  topics : List CString
  properties : List MosquittoProperty
  clientGenerated : Bool

def UnsubscribeArgs.outgoing (a : UnsubscribeArgs) : List MosquittoProperty :=
  outgoingProperties a.properties a.clientGenerated

/-- The checks of `mosquitto_unsubscribe_multiple`: an empty list of topics is not refused. -/
def unsubscribeChecks (m : Mosq) (a : UnsubscribeArgs) : Rc :=
  if m.protocol ≠ .mqtt5 ∧ a.properties ≠ [] then .notSupported
  else filterChecks m .unsubscribe 0 (a.topics.map CString.bytes) a.outgoing

def mosquittoUnsubscribeMultiple (alloc : Alloc) (m : Mosq) (a : UnsubscribeArgs) : Mosq × Rc :=
  match unsubscribeChecks m a with
  | .success => sendUnsubscribe alloc m (a.topics.map CString.bytes) a.outgoing
  | rc => (m, rc)

/-! ## What is queued -/

section Queued

variable (alloc : Alloc) (m : Mosq)

/-- The packet is sent, or nothing changes. -/
theorem sendWithNewMid_cases (r : Nat) (p : UInt16 → Packet) :
    (r < 268435456 ∧ sendWithNewMid alloc m r p = (packetQueue (midGenerate m).1 (p (midGenerate m).2),
    .success)) ∨
    (∃ rc, rc ≠ .success ∧ sendWithNewMid alloc m r p = (m, rc)) := by
  unfold sendWithNewMid
  dsimp only
  split
  · rename_i h
    exact .inl ⟨packetAlloc_ok h, rfl⟩
  · rename_i rc hne
    exact .inr ⟨_, hne, rfl⟩

theorem checkTopics_ok {topics : List Bytes} (h : checkTopics topics = .success) :
    ∀ topic ∈ topics, mosquittoSubTopicCheck topic = .success ∧ validateUtf8 topic = .success := by
  induction topics with
  | nil => exact List.forall_mem_nil _
  | cons topic topics ih =>
    unfold checkTopics at h
    split at h
    · cases h
    rename_i hs
    split at h
    · cases h
    rename_i hu
    exact List.forall_mem_cons.mpr ⟨⟨not_not.mp hs, not_not.mp hu⟩, ih h⟩

variable {m} in
theorem filterChecks_ok {command : Cmd} {extra : Nat} {topics : List Bytes} {properties : List MosquittoProperty}
    (h : filterChecks m command extra topics properties = .success) : m.sock ≠ none ∧
    checkTopics topics = .success ∧
      (0 < m.maximumPacketSize → checkOversize m (estimatedLength extra topics properties) = .success) := by
  unfold filterChecks at h
  split at h
  · cases h
  rename_i hs
  split at h
  · rename_i hne
    exact absurd h hne
  split at h
  · rename_i hne
    exact absurd h hne
  rename_i ht
  split at h
  · cases h
  · rename_i ho
    exact ⟨hs, not_not.mp ht, fun hM => by_contra fun hne => ho ⟨hM, hne⟩⟩

/-- A list that is empty stays so. -/
theorem outgoing_nil {properties : List MosquittoProperty} (h : properties = []) (b : Bool) :
    outgoingProperties properties b = [] := by
  subst h
  cases b <;> rfl

variable {m} in
/-- What a subscribe call has passed before the checks that it has in common with the other one. -/
theorem subscribeChecks_args {a : SubscribeArgs} (h : subscribeChecks m a = .success) :
    a.topics ≠ [] ∧ (m.protocol ≠ .mqtt5 → a.properties = []) ∧ (0 ≤ a.qos ∧ a.qos ≤ 2) ∧
      filterChecks m .subscribe 1 (a.topics.map CString.bytes) a.outgoing = .success := by
  unfold subscribeChecks at h
  split at h
  · cases h
  rename_i hne
  split at h
  · cases h
  rename_i h3
  split at h
  · cases h
  rename_i hqos
  split at h
  · cases h
  · exact ⟨hne, fun hp => by_contra fun hne => h3 ⟨hp, hne⟩, by omega, h⟩

variable {m} in
theorem subscribeChecks_ok {a : SubscribeArgs} (h : subscribeChecks m a = .success) :
    (m.protocol ≠ .mqtt5 → a.outgoing = []) ∧ (0 < m.maximumPacketSize →
      checkOversize m (estimatedLength 1 (a.topics.map CString.bytes) a.outgoing) = .success) := by
  obtain ⟨-, h3, -, h⟩ := subscribeChecks_args h
  exact ⟨fun hp => outgoing_nil (h3 hp) _, (filterChecks_ok h).2.2⟩

variable {m} in
theorem unsubscribeChecks_args {a : UnsubscribeArgs} (h : unsubscribeChecks m a = .success) :
    (m.protocol ≠ .mqtt5 → a.properties = []) ∧
      filterChecks m .unsubscribe 0 (a.topics.map CString.bytes) a.outgoing = .success := by
  unfold unsubscribeChecks at h
  split at h
  · cases h
  · rename_i h3
    exact ⟨fun hp => by_contra fun hne => h3 ⟨hp, hne⟩, h⟩

variable {m} in
theorem unsubscribeChecks_ok {a : UnsubscribeArgs} (h : unsubscribeChecks m a = .success) :
    (m.protocol ≠ .mqtt5 → a.outgoing = []) ∧ (0 < m.maximumPacketSize →
      checkOversize m (estimatedLength 0 (a.topics.map CString.bytes) a.outgoing) = .success) := by
  obtain ⟨h3, h⟩ := unsubscribeChecks_args h
  exact ⟨fun hp => outgoing_nil (h3 hp) _, (filterChecks_ok h).2.2⟩

/-- A subscribe call sends its packet, or changes nothing. -/
theorem subscribe_cases (a : SubscribeArgs) :
    (subscribeChecks m a = .success ∧ filterLength m 1 (a.topics.map CString.bytes) a.outgoing < 268435456 ∧
      mosquittoSubscribeMultiple alloc m a = (packetQueue (midGenerate m).1
        (.subscribe (midGenerate m).2 (a.topics.map CString.bytes) (topicQos m a) a.outgoing), .success)) ∨
    (∃ rc, rc ≠ .success ∧ mosquittoSubscribeMultiple alloc m a = (m, rc)) := by
  unfold mosquittoSubscribeMultiple
  split
  · rename_i hc
    rcases sendWithNewMid_cases alloc m (filterLength m 1 (a.topics.map CString.bytes) a.outgoing)
      (.subscribe · (a.topics.map CString.bytes) (topicQos m a) a.outgoing) with ⟨hr, h⟩ | h
    · exact .inl ⟨hc, hr, h⟩
    · exact .inr h
  · rename_i hne
    exact .inr ⟨_, hne, rfl⟩

theorem unsubscribe_cases (a : UnsubscribeArgs) :
    (unsubscribeChecks m a = .success ∧ filterLength m 0 (a.topics.map CString.bytes) a.outgoing < 268435456 ∧
      mosquittoUnsubscribeMultiple alloc m a = (packetQueue (midGenerate m).1
        (.unsubscribe (midGenerate m).2 (a.topics.map CString.bytes) a.outgoing), .success)) ∨
    (∃ rc, rc ≠ .success ∧ mosquittoUnsubscribeMultiple alloc m a = (m, rc)) := by
  unfold mosquittoUnsubscribeMultiple
  split
  · rename_i hc
    rcases sendWithNewMid_cases alloc m (filterLength m 0 (a.topics.map CString.bytes) a.outgoing)
      (.unsubscribe · (a.topics.map CString.bytes) a.outgoing) with ⟨hr, h⟩ | h
    · exact .inl ⟨hc, hr, h⟩
    · exact .inr h
  · rename_i hne
    exact .inr ⟨_, hne, rfl⟩

end Queued

end Artemisia.Client
