/-
  Artemisia.Topic.Delivery — a message on its way from `handle__publish` to a value of a subscriber's type: the
  message callback of the Swift layer (`setupCallbacks`), the filter of `Topic.receive` and `T.fromMessage`.

  A force-unwrap of nil ends the process; here it gives `none`, or `trap` where there are other outcomes.

  Proved:
  - `messageCallback_eq`: the callback makes a message of the packet's own fields, unless the payload is empty.
  - `delivery_iff`:       nothing traps exactly when the payload is not empty and, where a string is asked for,
                          is UTF-8.
-/
import Artemisia.Property.Utf8
import Artemisia.Topic.Subscriber
import Artemisia.Wire.Publish

namespace Artemisia.Topic

open Artemisia.Property Artemisia.Client Artemisia.Wire

/-! ## The callback -/

/-- `String(cString:)`: the bytes up to the first NUL, repaired where they are not UTF-8. -/
def stringOfCString (repair : Bytes → Bytes) (buffer : Bytes) : Bytes :=
  let bytes := stringOfBuffer buffer
  if ValidUtf8 bytes then bytes else repair bytes

/-- The closure that is set as on_message_v5. An empty payload is a NULL pointer, which `Data(bytes:count:)`
    cannot be given. -/
def messageCallback (repair : Bytes → Bytes) (msg : Message) : Option SwiftMessage :=
  if msg.payload = [] then none
  else match msg.topic with
  | none => none
  | some topic =>
    some { payload := msg.payload, topic := some (stringOfCString repair (topic ++ [0])), qos := msg.qos,
           retain := msg.retain, props := msg.properties, messageId := msg.mid }

/-! ## The subscriber's type -/

/-- The types that conform to `MQTTTransmittable`. -/
inductive Transmittable where
  | message | data | string
  deriving DecidableEq, Repr

inductive Transmitted where
  | message (message : SwiftMessage)
  | data (bytes : Bytes)
  | string (text : Bytes)

/-- `fromMessage(message:)`: `String(data:encoding:)` gives nil for bytes that are not UTF-8. -/
def fromMessage : Transmittable → SwiftMessage → Option Transmitted
  | .message, msg => some (.message msg)
  | .data, msg => some (.data msg.payload)
  | .string, msg => if ValidUtf8 msg.payload then some (.string msg.payload) else none

/-- What becomes of a message at a subscriber. -/
inductive Delivery where
  | filtered
  | value (value : Transmitted)
  | trap

def deliver (fuel : Nat) (type : Transmittable) (pattern : Bytes) (options : List SubscribeOption)
    (version : Protocol)
    (msg : SwiftMessage) : Option Delivery :=
  (passes fuel pattern options version msg.topic msg.props).map fun b =>
    if b then
      match fromMessage type msg with
      | some value => .value value
      | none => .trap
    else .filtered

/-! ## Accepted packets -/

/-- The topic of an accepted PUBLISH is UTF-8. -/
theorem readPublish_utf8 {m : Mosq} {command : UInt8} {body : Bytes} {uid : Nat} {msg : Message}
    (h : readPublish m (decodePublish m.protocol command body uid) = .ok msg) :
    ∃ topic : CString, msg.topic = some topic.bytes ∧ ValidUtf8 topic.bytes := by
  obtain ⟨-, -, -, ⟨topic, hread, ht⟩, -⟩ := readPublish_ok h
  refine ⟨topic, ht, ?_⟩
  have hmap : (readString body).map (·.1) = .ok topic := hread
  cases hs : readString body with
  | error e => simp [hs, Except.map] at hmap
  | ok r =>
    obtain ⟨t, rest⟩ := r
    simp only [hs, Except.map, Except.ok.injEq] at hmap
    subst hmap
    exact validateUtf8_valid (reads_string.only hs).1.2

/-- The callback takes over the fields of an accepted packet, whether it comes from the handler or from the
    store, unless the payload is empty. -/
theorem messageCallback_eq {m : Mosq} {command : UInt8} {body : Bytes} {uid : Nat} {msg : Message}
    (h : readPublish m (decodePublish m.protocol command body uid) = .ok msg) (repair : Bytes → Bytes)
    (state : MsgState)
    (dup : Bool) (hp : msg.payload ≠ []) :
    messageCallback repair { msg with state := state, dup := dup } =
      some ⟨msg.payload, msg.topic, msg.qos, msg.retain, msg.properties, msg.mid⟩ := by
  obtain ⟨topic, ht, hvalid⟩ := readPublish_utf8 h
  simp only [messageCallback, if_neg hp, ht, stringOfCString, stringOfBuffer_cstring, if_pos hvalid]

/-- The subscriber's side traps only for bytes that a string cannot be made of. -/
theorem deliver_trap_iff {fuel : Nat} {type : Transmittable} {pattern : Bytes} {options : List SubscribeOption}
    {version : Protocol} {made : SwiftMessage} :
    deliver fuel type pattern options version made = some .trap ↔
      type = .string ∧ passes fuel pattern options version made.topic made.props = some true ∧
      ¬ ValidUtf8 made.payload := by
  unfold deliver
  cases hpass : passes fuel pattern options version made.topic made.props with
  | none => simp
  | some b =>
    cases b with
    | false => simp
    | true =>
      cases type with
      | message => simp [fromMessage]
      | data => simp [fromMessage]
      | string =>
        by_cases hv : ValidUtf8 made.payload
        · simp [fromMessage, hv]
        · simp [fromMessage, hv]

/-- For a PUBLISH that the handler accepts, the path to a subscriber traps nowhere and the message has the
    packet's own fields, exactly when the payload is not empty and, for a subscriber of strings that it gets to,
    is UTF-8. -/
theorem delivery_iff {m : Mosq} {command : UInt8} {body : Bytes} {uid : Nat} {msg : Message}
    (h : readPublish m (decodePublish m.protocol command body uid) = .ok msg) (repair : Bytes → Bytes)
    (state : MsgState)
    (dup : Bool) (type : Transmittable) (pattern : Bytes) (options : List SubscribeOption) (version : Protocol) :
    let packet := decodePublish m.protocol command body uid
    (∃ made, messageCallback repair { msg with state := state, dup := dup } = some made ∧
        ((∃ topic, packet.topic = .ok topic ∧ made.topic = some topic.bytes) ∧ made.payload = packet.payload ∧
          made.qos = packet.qos ∧ made.retain = packet.retain ∧
            (packet.qos > 0 → packet.mid = .ok made.messageId)) ∧
        ∀ fuel, deliver fuel type pattern options version made ≠ some .trap) ↔
      packet.payload ≠ [] ∧
        (type = .string → (∃ fuel, passes fuel pattern options version msg.topic msg.properties = some true) →
          ValidUtf8 packet.payload) := by
  intro packet
  obtain ⟨hqos, -, hpayload, htopic, hmid, hretain⟩ := readPublish_ok h
  rw [← show msg.payload = packet.payload from hpayload]
  by_cases hp : msg.payload = []
  · have hnone : messageCallback repair { msg with state := state, dup := dup } = none := by
      simp only [messageCallback, if_pos hp]
    rw [hnone]
    exact ⟨fun ⟨_, he, _⟩ => absurd he (by simp), fun ⟨hne, _⟩ => absurd hp hne⟩
  · rw [messageCallback_eq h repair state dup hp]
    constructor
    · intro hx
      obtain ⟨made, he, -, hno⟩ := hx
      obtain rfl := Option.some.inj he
      refine ⟨hp, fun hs ⟨fuel, hpass⟩ => ?_⟩
      by_contra hv
      exact hno fuel (deliver_trap_iff.mpr ⟨hs, hpass, hv⟩)
    · intro hx
      obtain ⟨-, hutf⟩ := hx
      refine ⟨_, rfl, ⟨htopic, rfl, hqos, hretain, hmid⟩, fun fuel ht => ?_⟩
      obtain ⟨hs, hpass, hv⟩ := deliver_trap_iff.mp ht
      exact hv (hutf hs ⟨fuel, hpass⟩)

/-- A PUBLISH of QoS 0 on topic a with an empty payload is accepted, and the callback traps on it. -/
theorem empty_payload_traps :
    ∃ msg, readPublish (upClient .mqtt311) (decodePublish .mqtt311 0x30 [0, 1, 97] 0) = .ok msg ∧
      (handlePublish (fun _ => true) (upClient .mqtt311)
      (decodePublish .mqtt311 0x30 [0, 1, 97] 0)).1.trace.head? =
        some (.onMessage msg) ∧
      messageCallback id msg = none :=
  ⟨_, rfl, rfl, rfl⟩

/-- A PUBLISH on topic a with the payload b, to a subscriber of strings on every topic. -/
theorem delivery_of_string :
    let packet := decodePublish .mqtt311 0x30 [0, 1, 97, 98] 0
    ∃ msg, readPublish (upClient .mqtt311) packet = .ok msg ∧
      ((∃ made, messageCallback id { msg with state := .invalid, dup := false } = some made ∧
          ((∃ topic, packet.topic = .ok topic ∧ made.topic = some topic.bytes) ∧ made.payload = packet.payload ∧
            made.qos = packet.qos ∧ made.retain = packet.retain ∧
              (packet.qos > 0 → packet.mid = .ok made.messageId)) ∧
          ∀ fuel, deliver fuel .string [35] [] .mqtt311 made ≠ some .trap) ↔
        packet.payload ≠ [] ∧
          (Transmittable.string = .string →
            (∃ fuel, passes fuel [35] [] .mqtt311 msg.topic msg.properties = some true) →
            ValidUtf8 packet.payload)) := by
  obtain ⟨msg, h⟩ : ∃ msg, readPublish (upClient .mqtt311)
      (decodePublish (upClient .mqtt311).protocol 0x30 [0, 1, 97, 98] 0) = .ok msg := ⟨_, rfl⟩
  exact ⟨msg, h, delivery_iff h id .invalid false .string [35] [] .mqtt311⟩

end Artemisia.Topic
