/-
  Artemisia.Client.Actions — the calls of the application: `mosquitto_publish_v5` (`actions.c`) and the two
  halves of `mosquitto_disconnect_v5` (`connect.c`).
-/
import Artemisia.Client.Handlers
import Artemisia.Property.Copy
import Artemisia.Topic.Match
import Mathlib.Data.List.TakeDrop

namespace Artemisia.Client

open Artemisia.Property Artemisia.Topic

/-- `outgoing_properties`: a list that was not built by the application counts as its first property only. -/
def outgoingProperties (properties : List MosquittoProperty) (clientGenerated : Bool) : List MosquittoProperty :=
  if clientGenerated then properties else properties.take 1

section Outgoing

variable {l : List MosquittoProperty} {generated : Bool}

theorem outgoing_mem {p : MosquittoProperty} (h : p ∈ outgoingProperties l generated) : p ∈ l := by
  unfold outgoingProperties at h
  split at h
  · exact h
  · exact List.mem_of_mem_take h

theorem outgoing_eq : outgoingProperties l generated = l ↔ generated = true ∨ l.length ≤ 1 := by
  cases generated with
  | true => simp [outgoingProperties]
  | false => simp [outgoingProperties, List.take_eq_self_iff]

theorem outgoing_nil_iff : outgoingProperties l generated = [] ↔ l = [] := by
  cases generated <;> simp [outgoingProperties]

end Outgoing

structure PublishArgs where
  topic : Option CString
  payload : Bytes
  qos : Int
  retain : Bool
  properties : List MosquittoProperty
  clientGenerated : Bool

def PublishArgs.outgoing (a : PublishArgs) : List MosquittoProperty :=
  outgoingProperties a.properties a.clientGenerated

/-- `mosquitto_property_copy_all` gets through: an empty string is kept as NULL, which `strdup` follows. -/
def PublishArgs.copies (a : PublishArgs) : Bool := a.outgoing.all fun p => p.Filled

/-- NULL for an empty topic. -/
def PublishArgs.topicBytes (a : PublishArgs) : Option Bytes :=
  match a.topic with
  | none => none
  | some t => if t.bytes = [] then none else some t.bytes

/-- The checks of `mosquitto_publish_v5`, before it takes a packet id. -/
def publishChecks (m : Mosq) (a : PublishArgs) : Rc :=
  if a.qos < 0 ∨ a.qos > 2 then .inval
  else if m.protocol ≠ .mqtt5 ∧ a.properties ≠ [] then .notSupported
  else if a.qos > m.maximumQos then .qosNotSupported
  else if checkAll .publish a.outgoing ≠ .success then checkAll .publish a.outgoing
  else
    let topicRc := match a.topicBytes with
      | none =>
        if m.protocol = .mqtt5 ∧ a.outgoing.any (fun p => p.identifier = .topicAlias) then Rc.success else .inval
      | some topic =>
        if validateUtf8 topic ≠ .success then .malformedUtf8
        else if a.payload.length > 268435455 then .payloadSize
        else if mosquittoPubTopicCheck topic ≠ .success then .inval
        else .success
    if topicRc ≠ .success then topicRc
    else if m.maximumPacketSize > 0 ∧
        checkOversize m (1 + 2 + (a.topicBytes.getD []).length + a.payload.length + getLengthAll a.outgoing
          + if a.qos > 0 then 1 else 0) ≠ .success then .oversizePacket
    else .success

def midGenerate (m : Mosq) : Mosq × UInt16 :=
  let mid := m.lastMid + 1
  let mid := if mid = 0 then mid + 1 else mid
  ({ m with lastMid := mid }, mid)

def messageOf (m : Mosq) (a : PublishArgs) (mid : UInt16) : Message :=
  { mid := mid, topic := a.topicBytes, payload := a.payload, qos := a.qos.toNat, retain := a.retain, dup := false,
    state := .invalid, properties := a.outgoing, uid := m.published, sentOn := none }

/-- The message that a publish call makes, if the process does not end before: one that is to be stored has
    a copy of the properties. -/
def madeMessage (m : Mosq) (a : PublishArgs) (mid : UInt16) : Option Message :=
  if a.qos = 0 ∨ a.copies = true then some (messageOf m a mid) else none

def mosquittoPublishV5 (alloc : Alloc) (m : Mosq) (a : PublishArgs) : Mosq × Rc :=
  match publishChecks m a with
  | .success =>
    let r := midGenerate m
    let message := messageOf m a r.2
    let m := { r.1 with published := m.published + 1 }
    if a.qos = 0 then sendPublish alloc m message
    else if a.copies then messageQueueOut alloc m message
    else (m, .aborted)
  | rc => (m, rc)

theorem madeMessage_some {m : Mosq} {a : PublishArgs} {mid : UInt16} {msg : Message} :
    madeMessage m a mid = some msg ↔ (a.qos = 0 ∨ a.copies = true) ∧ messageOf m a mid = msg := by
  unfold madeMessage
  split
  · rename_i h
    simp [h]
  · rename_i h
    simp [h]

/-- A call whose checks pass sends the message that it makes, or stores it. -/
theorem mosquittoPublishV5_made {alloc : Alloc} {m : Mosq} {a : PublishArgs} (hc : publishChecks m a = .success) :
    mosquittoPublishV5 alloc m a =
      (madeMessage m a (midGenerate m).2).elim ({ (midGenerate m).1 with published := m.published + 1 }, .aborted)
        fun msg => (if a.qos = 0 then sendPublish else messageQueueOut) alloc
          { (midGenerate m).1 with published := m.published + 1 } msg := by
  simp only [mosquittoPublishV5, hc, madeMessage]
  by_cases h0 : a.qos = 0
  · simp only [h0, if_true, true_or, Option.elim_some]
  · cases a.copies <;> simp [h0]

/-- The properties can be copied when `mosquitto_property_copy_all` gets through. -/
theorem copies_iff {a : PublishArgs} {l : List Raw.Mqtt5Property} (hl : ∀ p ∈ l, p.Stored)
    (h : a.outgoing = l.map Raw.Mqtt5Property.said) : a.copies = true ↔ ∃ l', Raw.copyAll l = some l' := by
  rw [Raw.copyAll_iff hl, PublishArgs.copies, List.all_eq_true, h, List.forall_mem_map]
  simp only [decide_eq_true_eq]
  exact Iff.rfl

/-- A publish call that does not end the process has copied the properties of a message that is stored. -/
theorem copies_of_published {alloc : Alloc} {m : Mosq} {a : PublishArgs} (hc : publishChecks m a = .success)
    (h0 : a.qos ≠ 0) (h : (mosquittoPublishV5 alloc m a).2 ≠ .aborted) : a.copies = true := by
  by_contra hno
  exact h (by simp [mosquittoPublishV5, hc, h0, hno])

def disconnectChecks (m : Mosq) (properties : List MosquittoProperty) : Rc :=
  if m.protocol ≠ .mqtt5 ∧ properties ≠ [] then .notSupported else checkAll .disconnect properties

/-- The end of `mosquitto_disconnect_v5`, after the state is set. -/
def disconnectSend (alloc : Alloc) (m : Mosq) (reasonCode : UInt8) (properties : List MosquittoProperty) :
    Mosq × Rc :=
  if m.sock = none then (m, .noConn) else sendDisconnect alloc m reasonCode properties

end Artemisia.Client
