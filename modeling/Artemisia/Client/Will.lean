/-
  Artemisia.Client.Will — the will of a client (`will_mosq.c`, `options.c`). Allocation is taken to succeed.

  Proved:
  - `mosquittoWillSetV5_eq`: a will is taken exactly as it is given, or nothing changes.
  - `…_supported`:           no call answers `MOSQ_ERR_NOT_SUPPORTED` to properties that fit the protocol version.
-/
import Artemisia.Client.Connect
import Artemisia.Client.Subscribe

namespace Artemisia.Client

open Artemisia.Property Artemisia.Topic

structure WillArgs where
  topic : Option CString
  payload : Bytes
  qos : Int
  retain : Bool
  properties : List MosquittoProperty

/-- The loop over the properties in `will__set`. -/
def checkWillProperties : List MosquittoProperty → Rc
  | [] => .success
  | p :: properties =>
    match checkCommand .will p.identifier with
    | .success => checkWillProperties properties
    | rc => rc

/-- `will__set`. The QoS is not looked at. -/
def willSet (m : Mosq) (a : WillArgs) : Mosq × Rc :=
  match a.topic with
  | none => (m, .inval)
  | some topic =>
    if a.payload.length > 268435455 then (m, .payloadSize)
    else if mosquittoPubTopicCheck topic.bytes ≠ .success then (m, .inval)
    else if validateUtf8 topic.bytes ≠ .success then (m, .malformedUtf8)
    else if a.properties ≠ [] ∧ m.protocol ≠ .mqtt5 then (m, .notSupported)
    else match checkWillProperties a.properties with
    | .success => ({ m with will := some ⟨topic.bytes, a.payload, a.qos, a.retain, a.properties⟩ }, .success)
    | rc => (m, rc)

def mosquittoWillSetV5 (m : Mosq) (a : WillArgs) : Mosq × Rc :=
  if checkAll .will a.properties ≠ .success then (m, checkAll .will a.properties) else willSet m a

def willClear (m : Mosq) : Mosq := { m with will := none }

/-! ## What is taken -/

/-- The topic and the payload are those of a will. -/
def WillArgs.plainValid (a : WillArgs) : Bool :=
  a.topic.any (fun topic => mosquittoPubTopicCheck topic.bytes = .success ∧ validateUtf8 topic.bytes = .success) ∧
    a.payload.length ≤ 268435455

def WillArgs.will (a : WillArgs) : Will :=
  ⟨(a.topic.map CString.bytes).getD [], a.payload, a.qos, a.retain, a.properties⟩

/-- What `mosquitto_property_check_all` accepts passes the check of each property once more. -/
theorem checkWillProperties_of_all {l : List MosquittoProperty}
    (h : ∀ p ∈ l, checkCommand .will p.identifier = .success) :
    checkWillProperties l = .success := by
  induction l with
  | nil => rfl
  | cons p l ih =>
    simp only [checkWillProperties, h p (List.mem_cons_self ..)]
    exact ih (fun q hq => h q (List.mem_cons_of_mem _ hq))

theorem plainValid_iff {a : WillArgs} {topic : CString} (ht : a.topic = some topic) : a.plainValid = true ↔
    mosquittoPubTopicCheck topic.bytes = .success ∧ validateUtf8 topic.bytes = .success ∧
    ¬ a.payload.length > 268435455 := by
  simp [WillArgs.plainValid, ht, and_assoc]

/-! ## Refused for its properties -/

/-- What a client is asked to carry fits its protocol version. -/
def Carries (m : Mosq) (properties : List MosquittoProperty) : Prop := m.protocol ≠ .mqtt5 → properties = []

instance (m : Mosq) (properties : List MosquittoProperty) : Decidable (Carries m properties) :=
  inferInstanceAs (Decidable (_ → _))

variable {alloc : Alloc} {m : Mosq} {properties : List MosquittoProperty}

theorem Carries.passes (h : Carries m properties) : ¬ (m.protocol ≠ .mqtt5 ∧ properties ≠ []) := fun hc =>
    hc.2 (h hc.1)

theorem checkAll_supported (command : Cmd) (l : List MosquittoProperty) : checkAll command l ≠ .notSupported := by
  rcases checkAll_rc command l with h | h | h <;> simp [h]

/-- A will is taken as it is given, or nothing changes. -/
theorem mosquittoWillSetV5_eq {a : WillArgs} (h3 : Carries m a.properties) :
    ∃ rc, rc ≠ .notSupported ∧ mosquittoWillSetV5 m a =
      (if a.plainValid ∧ checkAll .will a.properties = .success then { m with will := some a.will }
      else m, rc) := by
  unfold mosquittoWillSetV5
  by_cases hall : checkAll .will a.properties = .success
  · have hloop := checkWillProperties_of_all (fun p hp => (checkAll_each hall p hp).2)
    have h5 : ¬ (a.properties ≠ [] ∧ m.protocol ≠ .mqtt5) := fun h => h3.passes h.symm
    rw [if_neg (not_not.mpr hall)]
    unfold willSet
    cases ht : a.topic with
    | none => exact ⟨.inval, by decide, by simp [WillArgs.plainValid, ht]⟩
    | some topic =>
      have hv := plainValid_iff ht
      by_cases hp : a.payload.length > 268435455
      · exact ⟨.payloadSize, by decide, by simp [hv, hp]⟩
      by_cases hc : mosquittoPubTopicCheck topic.bytes = .success
      · by_cases hu : validateUtf8 topic.bytes = .success
        · refine ⟨.success, by decide, ?_⟩
          simp only [hp, hc, hu, h5, hloop, hv, hall, if_false, ne_eq, not_true_eq_false,
            not_false_eq_true, and_self,
            if_true]
          simp [WillArgs.will, ht]
        · exact ⟨.malformedUtf8, by decide, by simp [hv, hp, hc, hu]⟩
      · exact ⟨.inval, by decide, by simp [hv, hp, hc]⟩
  · exact ⟨_, checkAll_supported .will a.properties, by simp [hall]⟩

theorem packetAlloc_supported (r : Nat) (p : Packet) : packetAlloc alloc r p ≠ .notSupported := by
  unfold packetAlloc
  split
  · simp
  · split <;> simp

theorem sendPacket_supported (r : Nat) (p : Packet) : (sendPacket alloc m r p).2 ≠ .notSupported := by
  have h : packetAlloc alloc r p ≠ .notSupported := packetAlloc_supported r p
  unfold sendPacket
  split
  · simp
  · exact h

theorem sendPublish_supported (msg : Message) : (sendPublish alloc m msg).2 ≠ .notSupported := by
  unfold sendPublish sendRealPublish
  split
  · simp
  split
  · simp
  · exact sendPacket_supported _ _

theorem releaseLoop_supported (l : List Message) : (releaseLoop alloc m l).2.2 ≠ .notSupported := by
  induction l generalizing m with
  | nil => simp [releaseLoop]
  | cons cur rest ih =>
    have hs : (sendPublish alloc m cur.released).2 ≠ .notSupported := sendPublish_supported _
    unfold releaseLoop
    split
    · split
      · split
        · exact ih
        · rename_i m' rc hne e
          rw [e] at hs
          exact hs
      · exact ih
    · simp

theorem publishChecks_supported {a : PublishArgs} (h : Carries m a.properties) :
    publishChecks m a ≠ .notSupported := by
  have hall := checkAll_supported .publish a.outgoing
  unfold publishChecks
  rw [if_neg h.passes]
  dsimp only
  repeat' split
  all_goals first | exact hall | simp

theorem publish_supported {a : PublishArgs} (h : Carries m a.properties) :
    (mosquittoPublishV5 alloc m a).2 ≠ .notSupported := by
  unfold mosquittoPublishV5
  split
  · dsimp only
    split
    · exact sendPublish_supported _
    split
    · exact releaseLoop_supported _
    · simp
  · exact publishChecks_supported h

theorem checkTopics_supported (topics : List Bytes) : checkTopics topics ≠ .notSupported := by
  induction topics with
  | nil => simp [checkTopics]
  | cons topic topics ih =>
    unfold checkTopics
    split
    · simp
    split
    · simp
    · exact ih

theorem filterChecks_supported (command : Cmd) (extra : Nat) (topics : List Bytes) :
    filterChecks m command extra topics properties ≠ .notSupported := by
  unfold filterChecks
  split
  · simp
  split
  · exact checkAll_supported command properties
  split
  · exact checkTopics_supported topics
  · split <;> simp

theorem sendWithNewMid_supported (r : Nat) (p : UInt16 → Packet) :
    (sendWithNewMid alloc m r p).2 ≠ .notSupported := by
  have h : packetAlloc alloc r (p (midGenerate m).2) ≠ .notSupported := packetAlloc_supported _ _
  unfold sendWithNewMid
  dsimp only
  split
  · simp
  · exact h

theorem subscribe_supported {a : SubscribeArgs} (h : Carries m a.properties) :
    (mosquittoSubscribeMultiple alloc m a).2 ≠ .notSupported := by
  unfold mosquittoSubscribeMultiple
  split
  · exact sendWithNewMid_supported _ _
  · unfold subscribeChecks
    rw [if_neg h.passes]
    repeat' split
    all_goals first | exact filterChecks_supported _ _ _ | simp

theorem unsubscribe_supported {a : UnsubscribeArgs} (h : Carries m a.properties) :
    (mosquittoUnsubscribeMultiple alloc m a).2 ≠ .notSupported := by
  unfold mosquittoUnsubscribeMultiple
  split
  · exact sendWithNewMid_supported _ _
  · unfold unsubscribeChecks
    rw [if_neg h.passes]
    exact filterChecks_supported _ _ _

theorem disconnectChecks_supported (h : Carries m properties) :
    disconnectChecks m properties ≠ .notSupported := by
  unfold disconnectChecks
  rw [if_neg h.passes]
  exact checkAll_supported _ _

theorem disconnectSend_supported (reason : UInt8) :
    (disconnectSend alloc m reason properties).2 ≠ .notSupported := by
  unfold disconnectSend
  split
  · simp
  · exact sendPacket_supported _ _

theorem connectBind_supported (env : RecEnv) (c : ConnectConfig) : (connectBind env m c).2 ≠ .notSupported := by
  unfold connectBind
  split
  · exact checkAll_supported _ _
  · unfold connectInit
    repeat' split
    all_goals simp

theorem reconnectStart_supported (env : RecEnv) (h : Carries m properties) :
    (reconnectStep env properties m .start).2 ≠ .inr .notSupported := by
  have hall := checkAll_supported .connect properties
  unfold reconnectStep
  dsimp only
  split
  · simp
  rw [if_neg h.passes]
  split
  · simpa using hall
  · simp

end Artemisia.Client
