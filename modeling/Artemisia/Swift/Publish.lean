/-
  Artemisia.Swift.Publish — publishing a message (`Mosquitto.Message`, `publish(message:)` and
  `publish(payload:…)`).

  `Message.message(_:options:)` builds a property list from the options. `publish(message:)` reads it back, kind
  by kind, and `publish(payload:…)` builds a second list from what was read, in an order of its own, in version 5.
  A call that traps or does not return gives nothing.

  Proved:
  - `built_calls`:       the first list is made by the add functions alone.
  - `readd_entries`:     what is read of one kind is added again as it was.
  - `message_published`: the message is published with its payload and options, and with the same properties
                         up to their order, if its payload has a length that is an `Int32`.
-/
import Artemisia.Client.Actions
import Artemisia.Swift.Options

namespace Artemisia.Swift

open Artemisia.Lib Artemisia.Property Artemisia.Topic Artemisia.Client

/-! ## Messages -/

/-- `Mosquitto.Message`, without the id. -/
structure Message where
  payload : Bytes
  topic : Option Bytes
  qos : Int
  retain : Bool
  props : List MosquittoProperty

def Message.message (payload : Bytes) (options : PublishOptions) : Option Message := do
  let props ← options.buildProps []
  some ⟨payload, options.topic, options.qos.getD 0, options.retain.getD false, props⟩

/-- `read_prop_value(from: props).first`. -/
def firstValue (fuel : Nat) (i : PropertyId) (props : List MosquittoProperty) :
    Option (Option (SwiftValue i.kind)) :=
  (readPropValue fuel i props).map List.head?

namespace Message

def payloadFormatIndicator (fuel : Nat) (m : Message) : Option (Option UInt8) :=
  firstValue fuel mqttPropPayloadFormatIndicator m.props

def messageExpiryInterval (fuel : Nat) (m : Message) : Option (Option UInt32) :=
  firstValue fuel mqttPropMessageExpiryInterval m.props

def contentType (fuel : Nat) (m : Message) : Option (Option Bytes) := firstValue fuel mqttPropContentType m.props

def responseTopic (fuel : Nat) (m : Message) : Option (Option Bytes) :=
  firstValue fuel mqttPropResponseTopic m.props

def correlationData (fuel : Nat) (m : Message) : Option (Option Bytes) :=
  firstValue fuel mqttPropCorrelationData m.props

def subscriptionIdentifier (fuel : Nat) (m : Message) : Option (Option UInt32) :=
  firstValue fuel mqttPropSubscriptionIdentifier m.props

def topicAlias (fuel : Nat) (m : Message) : Option (Option UInt16) := firstValue fuel mqttPropTopicAlias m.props

def userProperty (fuel : Nat) (m : Message) : Option (List (Bytes × Bytes)) :=
  readPropValue fuel mqttPropUserProperty m.props

end Message

/-! ## Publishing -/

structure PublishProperties where
  payloadFormatIndicator : Option UInt8
  messageExpiryInterval : Option UInt32
  contentType : Option Bytes
  responseTopic : Option Bytes
  correlationData : Option Bytes
  subscriptionIdentifier : Option UInt32
  topicAlias : Option UInt16
  userProperties : Option (List (Bytes × Bytes))

section Publish

variable (outline : Nat → Nat → UInt8)

/-- `tryAdd(value:to:)` for a value that may be absent. If it is there the same is done with it as by
    `build` of the static function. -/
def tryAddValue {α : Type} (option : α → PublishOption) (value : Option α) (props : List MosquittoProperty) :
    Option (List MosquittoProperty) :=
  match value with
  | none => some props
  | some val => (option val).build outline props

/-- The properties that `publish(payload:…)` adds, one kind after the other. -/
def PublishProperties.add (p : PublishProperties) (props : List MosquittoProperty) :
    Option (List MosquittoProperty) := do
  let props ← tryAddValue outline .payloadFormatIndicator p.payloadFormatIndicator props
  let props ← tryAddValue outline .messageExpiryInterval p.messageExpiryInterval props
  let props ← tryAddValue outline .contentType p.contentType props
  let props ← tryAddValue outline .responseTopic p.responseTopic props
  let props ← tryAddValue outline .correlationData p.correlationData props
  let props ← tryAddValue outline .subscriptionIdentifier p.subscriptionIdentifier props
  let props ← tryAddValue outline .topicAlias p.topicAlias props
  tryAddValue outline .userProperties p.userProperties props

/-- `publish(payload:topic:qos:retain:…)`: what `mosquitto_publish_v5` is called with. The length of the payload
    has to be an `Int32`. -/
def publish (protocolVersion : Protocol) (payload : Bytes) (topic : Option Bytes) (qos : Int) (retain : Bool)
    (p : PublishProperties) : Option PublishArgs := do
  let props ← (if protocolVersion = .mqtt5 then p.add outline [] else some [])
  if payload.length < 2147483648 then some ⟨topic.map CString.of, payload, qos, retain, props, true⟩ else none

def publishMessage (fuel : Nat) (protocolVersion : Protocol) (message : Message) : Option PublishArgs := do
  let payloadFormatIndicator ← message.payloadFormatIndicator fuel
  let messageExpiryInterval ← message.messageExpiryInterval fuel
  let contentType ← message.contentType fuel
  let responseTopic ← message.responseTopic fuel
  let correlationData ← message.correlationData fuel
  let subscriptionIdentifier ← message.subscriptionIdentifier fuel
  let topicAlias ← message.topicAlias fuel
  let userProperty ← message.userProperty fuel
  publish outline protocolVersion message.payload message.topic message.qos message.retain
    { payloadFormatIndicator := payloadFormatIndicator
      messageExpiryInterval := messageExpiryInterval
      contentType := contentType
      responseTopic := responseTopic
      correlationData := correlationData
      subscriptionIdentifier := subscriptionIdentifier
      topicAlias := topicAlias
      userProperties := some userProperty }

end Publish

/-! ## What is asked for -/

/-- The identifiers of the properties that a static function adds. -/
def PublishOption.codes : PublishOption → List Nat
  | .topic _ | .qos _ | .retain _ => []
  | .messageExpiryInterval _ => [mqttPropMessageExpiryInterval.code]
  | .contentType _ => [mqttPropContentType.code]
  | .responseTopic _ => [mqttPropResponseTopic.code]
  | .correlationData _ => [mqttPropCorrelationData.code]
  | .subscriptionIdentifier _ => [mqttPropSubscriptionIdentifier.code]
  | .topicAlias _ => [mqttPropTopicAlias.code]
  | .userProperties value => value.map fun _ => mqttPropUserProperty.code
  | .payloadFormatIndicator _ => [mqttPropPayloadFormatIndicator.code]

/-- Each kind of property is there at most once, a user property too, and no correlation data. -/
structure EachOnce (leaves : List PublishOption) : Prop where
  once : (leaves.flatMap PublishOption.codes).Nodup
  noCorrelation : ∀ value, .correlationData value ∉ leaves

/-- The call has what the options say, and sends the properties of a list in some order. -/
structure Carries (payload : Bytes) (o : PublishOptions) (props : List MosquittoProperty)
    (a : PublishArgs) : Prop where
  payload : a.payload = payload
  topic : a.topic = o.topic.map CString.of
  qos : a.qos = o.qos.getD 0
  retain : a.retain = o.retain.getD false
  properties : a.outgoing.Perm props

/-! ## The first list -/

/-- `tryAdd` of a call of an add function. -/
def tryCall (props : List MosquittoProperty) (c : AddCall × Nat) : List MosquittoProperty :=
  tryAdd props (c.1.run props c.2)

section Built

variable {outline : Nat → Nat → UInt8}

variable (outline) in
def PublishOption.calls : PublishOption → List (AddCall × Nat)
  | .topic _ | .qos _ | .retain _ => []
  | .messageExpiryInterval value => [(.int32 value, mqttPropMessageExpiryInterval.code)]
  | .contentType value => [(.string (some (.of value)), mqttPropContentType.code)]
  | .responseTopic value => [(.string (some (.of value)), mqttPropResponseTopic.code)]
  | .correlationData value =>
    [(.binary (structBytes outline value) (.ofNat value.length), mqttPropCorrelationData.code)]
  | .subscriptionIdentifier value => [(.varint value, mqttPropSubscriptionIdentifier.code)]
  | .topicAlias value => [(.int16 value, mqttPropTopicAlias.code)]
  | .userProperties value => value.map fun p =>
    (.pair (some (.of p.1)) (some (.of p.2)), mqttPropUserProperty.code)
  | .payloadFormatIndicator value => [(.byte value, mqttPropPayloadFormatIndicator.code)]

theorem PublishOption.calls_codes (o : PublishOption) : (o.calls outline).map Prod.snd = o.codes := by
  cases o with
  | userProperties value =>
    rw [calls, codes, List.map_map]
    rfl
  | _ => rfl

theorem PublishOption.build_calls {o : PublishOption} (h : ∀ value, o ≠ .correlationData value)
    (props : List MosquittoProperty) : o.build outline props = some ((o.calls outline).foldl tryCall props) := by
  cases o with
  | correlationData value => exact absurd rfl (h value)
  | userProperties value =>
    rw [calls, List.foldl_map]
    rfl
  | _ => rfl

theorem foldlM_calls {leaves : List PublishOption} (h : ∀ value, .correlationData value ∉ leaves)
    (props : List MosquittoProperty) : leaves.foldlM (fun props o => o.build outline props) props =
      some ((leaves.flatMap (PublishOption.calls outline)).foldl tryCall props) := by
  induction leaves generalizing props with
  | nil => rfl
  | cons o leaves ih =>
    have ho : ∀ value, o ≠ .correlationData value := fun value e => h value (e ▸ List.mem_cons_self ..)
    have hrest : ∀ value, .correlationData value ∉ leaves := fun value hv => h value (List.mem_cons_of_mem _ hv)
    rw [List.foldlM_cons, PublishOption.build_calls ho, List.flatMap_cons, List.foldl_append]
    exact ih hrest _

/-- One call adds a property of its own identifier, or none. -/
theorem tryCall_cases (props : List MosquittoProperty) (c : AddCall × Nat) :
    (∃ p, p.identifier.code = c.2 ∧ c.1.run props c.2 = .ok (props ++ [p]) ∧ tryCall props c = props ++ [p]) ∨
      tryCall props c = props := by
  unfold tryCall
  cases h : c.1.run props c.2 with
  | error rc => exact .inr rfl
  | ok l =>
    obtain ⟨p, rfl, hcode, -⟩ := addCall_entry h
    exact .inl ⟨p, hcode, rfl, rfl⟩

theorem built_calls {props : List MosquittoProperty} (h : Built props) (cs : List (AddCall × Nat)) :
    Built (cs.foldl tryCall props) := by
  induction cs generalizing props with
  | nil => exact h
  | cons c cs ih =>
    refine ih ?_
    rcases tryCall_cases props c with ⟨p, -, hrun, e⟩ | e
    · rw [e]
      exact .add props _ c.1 c.2 h hrun
    · rw [e]
      exact h

/-- There are no more properties of an identifier than calls for it. -/
theorem entries_calls (props : List MosquittoProperty) (cs : List (AddCall × Nat)) (code : Nat) :
    (entries (cs.foldl tryCall props) code).length ≤ (entries props code).length +
    (cs.map Prod.snd).count code := by
  induction cs generalizing props with
  | nil => exact Nat.le_refl _
  | cons c cs ih =>
    have hrest := ih (tryCall props c)
    rw [List.foldl_cons, List.map_cons, List.count_cons]
    rcases tryCall_cases props c with ⟨p, hcode, -, e⟩ | e
    · have hlen : (entries (props ++ [p]) code).length = (entries props code).length + if c.2 == code then 1
          else 0 := by
        by_cases hc : c.2 = code <;> simp [entries, hcode, hc]
      rw [e, hlen] at hrest
      rw [e]
      omega
    · rw [e] at hrest ⊢
      omega

end Built

/-! ## Added again -/

theorem cstring_of_bytes (c : CString) : CString.of c.bytes = c := by
  have h : c.bytes.takeWhile (· ≠ 0) = c.bytes := List.takeWhile_eq_self_iff.mpr (by simpa using c.nonzero)
  simp only [CString.of, h]

/-- The value of an entry, added under its identifier, is the entry once more. -/
theorem addValue_again {p : MosquittoProperty} {k : Kind} {v : Value k} (h : p.valueAs k = some v)
    (props : List MosquittoProperty) : addValue k props p.identifier.code v = .ok (props ++ [p]) := by
  obtain ⟨i, w⟩ := p
  unfold MosquittoProperty.valueAs at h
  split at h
  · rename_i hk
    subst hk
    obtain rfl := Option.some.inj h
    simp [addValue, PropId.ofCode_code]
  · cases h

theorem added_valueAs {p : MosquittoProperty} {k : Kind} {v : Value k} (h : p.valueAs k = some v)
    (ha : AddedValue p.identifier.kind p.value) : AddedValue k v := by
  unfold MosquittoProperty.valueAs at h
  split at h
  · rename_i hk
    subst hk
    exact Option.some.inj h ▸ ha
  · cases h

section Again

variable (outline : Nat → Nat → UInt8)

/-- The option made of the value of an entry adds the entry again. -/
def AddsAgain (i : PropertyId) (option : SwiftValue i.kind → PublishOption) : Prop :=
  ∀ (p : MosquittoProperty) (v : Value i.kind) (props : List MosquittoProperty), p.identifier.code = i.code →
    p.valueAs i.kind = some v → AddedValue i.kind v →
      (option (entryValue i.kind v)).build outline props = some (props ++ [p])

theorem tryAdd_again {p : MosquittoProperty} {k : Kind} {v : Value k} {code : Nat} (hc : p.identifier.code = code)
    (h : p.valueAs k = some v) (props : List MosquittoProperty) :
    tryAdd props (addValue k props code v) = props ++ [p] := by
  rw [← hc, addValue_again h]
  rfl

theorem tryAdd_string_again {p : MosquittoProperty} {v : CString} {code : Nat} (hc : p.identifier.code = code)
    (h : p.valueAs .string = some v) (hv : validateUtf8 v.bytes = .success) (props : List MosquittoProperty) :
    tryAdd props (addString props code (some (.of v.bytes))) = props ++ [p] := by
  have hadd : addString props code (some (.of v.bytes)) = addValue .string props code v := by
    rw [cstring_of_bytes, addString, if_neg (not_not.mpr hv)]
  rw [hadd]
  exact tryAdd_again hc h props

theorem addsAgain_payloadFormatIndicator :
    AddsAgain outline mqttPropPayloadFormatIndicator .payloadFormatIndicator :=
  fun _ _ props hc hv _ => congrArg some (tryAdd_again hc hv props)

theorem addsAgain_messageExpiryInterval :
    AddsAgain outline mqttPropMessageExpiryInterval .messageExpiryInterval :=
  fun _ _ props hc hv _ => congrArg some (tryAdd_again hc hv props)

theorem addsAgain_topicAlias : AddsAgain outline mqttPropTopicAlias .topicAlias :=
  fun _ _ props hc hv _ => congrArg some (tryAdd_again hc hv props)

theorem addsAgain_contentType : AddsAgain outline mqttPropContentType .contentType :=
  fun _ _ props hc hv ha => congrArg some (tryAdd_string_again hc hv ha props)

theorem addsAgain_responseTopic : AddsAgain outline mqttPropResponseTopic .responseTopic :=
  fun _ _ props hc hv ha => congrArg some (tryAdd_string_again hc hv ha props)

theorem addsAgain_subscriptionIdentifier :
    AddsAgain outline mqttPropSubscriptionIdentifier .subscriptionIdentifier := by
  intro p v props hc hv ha
  have hle : ¬ (show UInt32 from v) > 268435455 := by
    have hlt : UInt32.toNat v < 268435456 := ha
    rw [gt_iff_lt, UInt32.lt_iff_toNat_lt]
    exact Nat.not_lt.mpr (Nat.le_of_lt_succ hlt)
  have hadd : addVarint props mqttPropSubscriptionIdentifier.code v =
      addValue .varint props mqttPropSubscriptionIdentifier.code v := if_neg hle
  show some (tryAdd props (addVarint props mqttPropSubscriptionIdentifier.code v)) = _
  rw [hadd]
  exact congrArg some (tryAdd_again hc hv props)

theorem addsAgain_userProperties : AddsAgain outline mqttPropUserProperty fun value =>
    .userProperties [value] := by
  intro p v props hc hv ha
  obtain ⟨name, value⟩ := v
  obtain ⟨hname, hvalue⟩ := ha
  have hadd : addStringPair props mqttPropUserProperty.code (some (.of name.bytes)) (some (.of value.bytes)) =
      addValue .pair props mqttPropUserProperty.code (name, value) := by
    rw [cstring_of_bytes, cstring_of_bytes]
    simp [addStringPair, mqttPropUserProperty, PropId.code, hname, hvalue]
  show some (tryAdd props (addStringPair props mqttPropUserProperty.code (some (.of name.bytes))
    (some (.of value.bytes)))) = _
  rw [hadd]
  exact congrArg some (tryAdd_again hc hv props)

variable {outline} {l : List MosquittoProperty}

/-- What is read of one kind is added again as it was. -/
theorem readd_entries {i : PropertyId} {option : SwiftValue i.kind → PublishOption}
    (h : AddsAgain outline i option)
    (ha : ∀ p ∈ l, AddedValue p.identifier.kind p.value) (hone : (entries l i.code).length ≤ 1)
    (props : List MosquittoProperty) :
    tryAddValue outline option (valuesOf i l).head? props = some (props ++ entries l i.code) := by
  rcases he : entries l i.code with _ | ⟨p, _ | ⟨q, es⟩⟩
  · have hv : valuesOf i l = [] := by rw [valuesOf, he, List.filterMap_nil]
    rw [hv, List.append_nil]
    rfl
  · have hp : p ∈ entries l i.code := by rw [he]; exact List.mem_singleton_self p
    obtain ⟨hmem, hcode⟩ := List.mem_filter.mp hp
    obtain ⟨v, hv⟩ := valueAs_of_mem hp
    rw [valuesOf_one he hv]
    exact h p v props (of_decide_eq_true hcode) hv (added_valueAs hv (ha p hmem))
  · rw [he] at hone
    simp at hone

/-- All user properties are added in one call, which is none when there are none. -/
theorem readd_userProperties (ha : ∀ p ∈ l, AddedValue p.identifier.kind p.value)
    (hone : (entries l mqttPropUserProperty.code).length ≤ 1) (props : List MosquittoProperty) :
    tryAddValue outline .userProperties (some (valuesOf mqttPropUserProperty l)) props =
      some (props ++ entries l mqttPropUserProperty.code) := by
  have hagain := readd_entries (addsAgain_userProperties outline) ha hone props
  rw [← hagain]
  have hlen : (valuesOf mqttPropUserProperty l).length ≤ 1 := (List.length_filterMap_le ..).trans hone
  rcases hv : valuesOf mqttPropUserProperty l with _ | ⟨v, _ | ⟨w, vs⟩⟩
  · rfl
  · rfl
  · rw [hv] at hlen
    simp at hlen

end Again

/-! ## The second list -/

/-- The identifiers in the order in which `publish(payload:…)` adds them. -/
def publishCodes : List Nat :=
  [mqttPropPayloadFormatIndicator.code, mqttPropMessageExpiryInterval.code, mqttPropContentType.code,
   mqttPropResponseTopic.code, mqttPropCorrelationData.code, mqttPropSubscriptionIdentifier.code,
     mqttPropTopicAlias.code,
   mqttPropUserProperty.code]

/-- A list is the same entries as its entries of one key after the other. -/
theorem perm_flatMap_filter {α β : Type} [DecidableEq β] (f : α → β) (keys : List β) (hk : keys.Nodup)
    {l : List α}
    (h : ∀ a ∈ l, f a ∈ keys) : (keys.flatMap fun k => l.filter fun a => f a = k).Perm l := by
  induction keys generalizing l with
  | nil =>
    obtain rfl : l = [] := List.eq_nil_iff_forall_not_mem.mpr fun a ha => List.not_mem_nil (h a ha)
    exact .nil
  | cons k keys ih =>
    obtain ⟨hnot, hk⟩ := List.nodup_cons.mp hk
    have hrest : ∀ a ∈ l.filter (fun a => ¬ f a = k), f a ∈ keys := by
      intro a ha
      obtain ⟨hmem, hne⟩ := List.mem_filter.mp ha
      exact (List.mem_cons.mp (h a hmem)).resolve_left (of_decide_eq_true hne)
    -- what has another key is the same in the whole list and in what is left of it
    have hkeys : (keys.flatMap fun k' => l.filter fun a => f a = k') =
        keys.flatMap fun k' => (l.filter fun a => ¬ f a = k).filter fun a => f a = k' := by
      refine List.flatMap_congr fun k' hk' => ?_
      rw [List.filter_filter]
      refine List.filter_congr fun a _ => ?_
      have hne : k' ≠ k := fun e => hnot (e ▸ hk')
      by_cases ha : f a = k' <;> simp [ha, hne]
    rw [List.flatMap_cons, hkeys]
    refine ((ih hk hrest).append_left _).trans ?_
    simpa using List.filter_append_perm (fun a => decide (f a = k)) l

section Second

variable (outline : Nat → Nat → UInt8) {leaves : List PublishOption} {l : List MosquittoProperty}

theorem PublishOption.codes_known (o : PublishOption) : ∀ code ∈ o.codes, code ∈ publishCodes := by
  cases o with
  | userProperties value =>
    intro code h
    obtain ⟨-, -, rfl⟩ := List.mem_map.mp h
    decide
  | _ => simp [codes, publishCodes]

theorem PublishOption.codes_correlation {o : PublishOption} (h : mqttPropCorrelationData.code ∈ o.codes) :
    ∃ value, o = .correlationData value := by
  cases o with
  | correlationData value => exact ⟨value, rfl⟩
  | userProperties value =>
    obtain ⟨-, -, e⟩ := List.mem_map.mp h
    cases e
  | _ => simp [codes] at h <;> cases h

/-- What is known of a list that options have built. -/
structure FirstList (l : List MosquittoProperty) : Prop where
  added : ∀ p ∈ l, AddedValue p.identifier.kind p.value
  once : ∀ code, (entries l code).length ≤ 1
  known : ∀ p ∈ l, p.identifier.code ∈ publishCodes
  noCorrelation : entries l mqttPropCorrelationData.code = []

theorem firstList_build (h : EachOnce leaves) :
    ∃ l, leaves.foldlM (fun props o => o.build outline props) [] = some l ∧ FirstList l := by
  obtain ⟨cs, hcs⟩ : ∃ cs, cs = leaves.flatMap (PublishOption.calls outline) := ⟨_, rfl⟩
  have hcodes : cs.map Prod.snd = leaves.flatMap PublishOption.codes := by
    rw [hcs, List.map_flatMap]
    exact List.flatMap_congr fun o _ => o.calls_codes
  have hcount (code : Nat) :
      (entries (cs.foldl tryCall []) code).length ≤ (leaves.flatMap PublishOption.codes).count code := by
    have := entries_calls [] cs code
    rw [hcodes] at this
    simpa [entries] using this
  refine ⟨cs.foldl tryCall [], by rw [hcs]; exact foldlM_calls h.noCorrelation [], ?_, ?_, ?_, ?_⟩
  · exact built_added (built_calls .nil cs)
  · exact fun code => (hcount code).trans (List.nodup_iff_count.mp h.once code)
  · intro p hp
    have hmem : p ∈ entries (cs.foldl tryCall []) p.identifier.code :=
      List.mem_filter.mpr ⟨hp, decide_eq_true rfl⟩
    have hpos := (List.length_pos_of_mem hmem).trans_le (hcount p.identifier.code)
    obtain ⟨o, -, ho⟩ := List.mem_flatMap.mp (List.count_pos_iff.mp hpos)
    exact o.codes_known _ ho
  · have hnone : mqttPropCorrelationData.code ∉ leaves.flatMap PublishOption.codes := by
      intro hmem
      obtain ⟨o, ho, hc⟩ := List.mem_flatMap.mp hmem
      obtain ⟨value, rfl⟩ := PublishOption.codes_correlation hc
      exact h.noCorrelation value ho
    have hzero := hcount mqttPropCorrelationData.code
    rw [List.count_eq_zero_of_not_mem hnone] at hzero
    exact List.length_eq_zero_iff.mp (Nat.le_zero.mp hzero)

theorem firstValue_eq (h : FirstList l) (i : PropertyId) : firstValue 2 i l = some (valuesOf i l).head? := by
  rw [firstValue, readPropValue_of_one (h.once i.code), Option.map_some]

def PublishProperties.read (l : List MosquittoProperty) : PublishProperties where
  payloadFormatIndicator := (valuesOf mqttPropPayloadFormatIndicator l).head?
  messageExpiryInterval := (valuesOf mqttPropMessageExpiryInterval l).head?
  contentType := (valuesOf mqttPropContentType l).head?
  responseTopic := (valuesOf mqttPropResponseTopic l).head?
  correlationData := (valuesOf mqttPropCorrelationData l).head?
  subscriptionIdentifier := (valuesOf mqttPropSubscriptionIdentifier l).head?
  topicAlias := (valuesOf mqttPropTopicAlias l).head?
  userProperties := some (valuesOf mqttPropUserProperty l)

theorem publishMessage_eq (h : FirstList l) (payload : Bytes) (topic : Option Bytes) (qos : Int) (retain : Bool)
    (protocolVersion : Protocol) : publishMessage outline 2 protocolVersion ⟨payload, topic, qos, retain, l⟩ =
      publish outline protocolVersion payload topic qos retain (.read l) := by
  have huser : readPropValue 2 mqttPropUserProperty l = some (valuesOf mqttPropUserProperty l) :=
    readPropValue_of_one (h.once _)
  simp only [publishMessage, Message.payloadFormatIndicator, Message.messageExpiryInterval, Message.contentType,
    Message.responseTopic, Message.correlationData, Message.subscriptionIdentifier, Message.topicAlias,
      Message.userProperty]
  rw [firstValue_eq h, firstValue_eq h, firstValue_eq h, firstValue_eq h, firstValue_eq h, firstValue_eq h,
    firstValue_eq h, huser]
  rfl

/-- The second list has the entries of the first, kind by kind. -/
theorem add_read (h : FirstList l) :
    (PublishProperties.read l).add outline [] = some (publishCodes.flatMap fun code => entries l code) := by
  have hcorrelation (props : List MosquittoProperty) :
      tryAddValue outline .correlationData (PublishProperties.read l).correlationData props = some props := by
    have hv : valuesOf mqttPropCorrelationData l = [] := by rw [valuesOf, h.noCorrelation, List.filterMap_nil]
    show tryAddValue outline .correlationData (valuesOf mqttPropCorrelationData l).head? props = _
    rw [hv]
    rfl
  have h1 (props : List MosquittoProperty) : tryAddValue outline .payloadFormatIndicator
      (PublishProperties.read l).payloadFormatIndicator props =
        some (props ++ entries l mqttPropPayloadFormatIndicator.code) :=
    readd_entries (addsAgain_payloadFormatIndicator outline) h.added (h.once _) props
  have h2 (props : List MosquittoProperty) : tryAddValue outline .messageExpiryInterval
      (PublishProperties.read l).messageExpiryInterval props =
        some (props ++ entries l mqttPropMessageExpiryInterval.code) :=
    readd_entries (addsAgain_messageExpiryInterval outline) h.added (h.once _) props
  have h3 (props : List MosquittoProperty) : tryAddValue outline .contentType
      (PublishProperties.read l).contentType props = some (props ++ entries l mqttPropContentType.code) :=
    readd_entries (addsAgain_contentType outline) h.added (h.once _) props
  have h8 (props : List MosquittoProperty) : tryAddValue outline .responseTopic
      (PublishProperties.read l).responseTopic props = some (props ++ entries l mqttPropResponseTopic.code) :=
    readd_entries (addsAgain_responseTopic outline) h.added (h.once _) props
  have h11 (props : List MosquittoProperty) : tryAddValue outline .subscriptionIdentifier
      (PublishProperties.read l).subscriptionIdentifier props =
        some (props ++ entries l mqttPropSubscriptionIdentifier.code) :=
    readd_entries (addsAgain_subscriptionIdentifier outline) h.added (h.once _) props
  have h35 (props : List MosquittoProperty) : tryAddValue outline .topicAlias
      (PublishProperties.read l).topicAlias props = some (props ++ entries l mqttPropTopicAlias.code) :=
    readd_entries (addsAgain_topicAlias outline) h.added (h.once _) props
  have h38 (props : List MosquittoProperty) : tryAddValue outline .userProperties
      (PublishProperties.read l).userProperties props = some (props ++ entries l mqttPropUserProperty.code) :=
    readd_userProperties h.added (h.once _) props
  simp only [PublishProperties.add, h1, h2, h3, h8, hcorrelation, h11, h35, h38, bind, Option.bind,
    List.nil_append,
    List.append_assoc]
  simp only [publishCodes, List.flatMap_cons, List.flatMap_nil, List.append_nil, h.noCorrelation, List.nil_append]

theorem add_read_perm (h : FirstList l) : ∃ l', (PublishProperties.read l).add outline [] = some l' ∧ l'.Perm l :=
  ⟨_, add_read outline h,
    perm_flatMap_filter (fun p : MosquittoProperty => p.identifier.code) publishCodes (by decide) h.known⟩

/-- A literal in which each kind of property is there at most once, published in version 5 through a
    message: the call has the payload and what the literal says, and the properties that its `buildProps` makes,
    in some order. -/
theorem message_published (outline : Nat → Nat → UInt8) (payload : Bytes) (t : Literal PublishOption)
    (h : EachOnce t.leaves) (hlen : payload.length < 2147483648) :
    ∃ props fuel a, (publishOptions outline t).buildProps [] = some props ∧
      (Message.message payload (publishOptions outline t)).bind (publishMessage outline fuel .mqtt5) = some a ∧
      Carries payload (publishOptions outline t) props a := by
  obtain ⟨l, hl, hfirst⟩ := firstList_build outline h
  let o := publishOptions outline t
  have hbuild : o.buildProps [] = some l := ((publishOptions_spells outline t).buildProps []).trans hl
  have hmessage : Message.message payload o = some ⟨payload, o.topic, o.qos.getD 0, o.retain.getD false, l⟩ := by
    simp only [Message.message, hbuild, bind, Option.bind]
  obtain ⟨l', hadd, hperm⟩ := add_read_perm outline hfirst
  refine ⟨l, 2, ⟨o.topic.map CString.of, payload, o.qos.getD 0, o.retain.getD false, l', true⟩, hbuild, ?_,
    ⟨rfl, rfl, rfl, rfl, hperm⟩⟩
  rw [hmessage, Option.bind_some, publishMessage_eq outline hfirst]
  simp only [publish, if_true, hadd, bind, Option.bind, if_pos hlen]

end Second

/-- A literal with another in it, and with a subscription identifier that is not added. -/
def nestedOptions : Literal PublishOption :=
  .array [.leaf (.contentType [116]), .array [.leaf (.qos 1), .leaf (.userProperties [([97], [98])])],
    .leaf (.subscriptionIdentifier 268435456), .leaf (.payloadFormatIndicator 1), .leaf (.topic [116])]

theorem message_published_nested : ∃ props fuel a,
    (publishOptions sliceOf nestedOptions).buildProps [] = some props ∧
      (Message.message [1, 2] (publishOptions sliceOf nestedOptions)).bind
      (publishMessage sliceOf fuel .mqtt5) = some a ∧
        Carries [1, 2] (publishOptions sliceOf nestedOptions) props a :=
  message_published sliceOf [1, 2] nestedOptions
    ⟨by decide, fun value h => by simp [nestedOptions, Literal.leaves, Literal.leavesAll] at h⟩ (by decide)

/-- What is published has a length that is an `Int32`. -/
theorem publish_short {outline : Nat → Nat → UInt8} {protocolVersion : Protocol} {payload : Bytes}
    {topic : Option Bytes}
    {qos : Int} {retain : Bool} {p : PublishProperties} {a : PublishArgs}
    (h : publish outline protocolVersion payload topic qos retain p = some a) :
    a.payload.length < 2147483648 := by
  unfold publish at h
  obtain ⟨props, -, h⟩ := Option.bind_eq_some_iff.mp h
  split at h
  · rename_i hlen
    rw [← Option.some.inj h]
    exact hlen
  · cases h

theorem publishMessage_short {outline : Nat → Nat → UInt8} {fuel : Nat} {protocolVersion : Protocol}
    {message : Message}
    {a : PublishArgs} (h : publishMessage outline fuel protocolVersion message = some a) :
    a.payload.length < 2147483648 := by
  obtain ⟨payloadFormatIndicator, -, h⟩ := Option.bind_eq_some_iff.mp h
  obtain ⟨messageExpiryInterval, -, h⟩ := Option.bind_eq_some_iff.mp h
  obtain ⟨contentType, -, h⟩ := Option.bind_eq_some_iff.mp h
  obtain ⟨responseTopic, -, h⟩ := Option.bind_eq_some_iff.mp h
  obtain ⟨correlationData, -, h⟩ := Option.bind_eq_some_iff.mp h
  obtain ⟨subscriptionIdentifier, -, h⟩ := Option.bind_eq_some_iff.mp h
  obtain ⟨topicAlias, -, h⟩ := Option.bind_eq_some_iff.mp h
  obtain ⟨userProperty, -, h⟩ := Option.bind_eq_some_iff.mp h
  exact publish_short h

/-- A payload of 2 GiB traps. -/
theorem two_gigabytes_trap : ¬ ∀ (outline : Nat → Nat → UInt8) (payload : Bytes) (t : Literal PublishOption),
    EachOnce t.leaves → ∃ props fuel a, (publishOptions outline t).buildProps [] = some props ∧
      (Message.message payload (publishOptions outline t)).bind (publishMessage outline fuel .mqtt5) = some a ∧
      Carries payload (publishOptions outline t) props a := by
  intro h
  obtain ⟨props, fuel, a, -, hp, hc⟩ :=
    h sliceOf (List.replicate 2147483648 0) (.array []) ⟨.nil, fun _ => List.not_mem_nil⟩
  obtain ⟨message, -, hpublish⟩ := Option.bind_eq_some_iff.mp hp
  have hlen := publishMessage_short hpublish
  rw [hc.payload, List.length_replicate] at hlen
  exact Nat.lt_irrefl _ hlen

end Artemisia.Swift
