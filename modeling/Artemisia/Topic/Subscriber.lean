/-
  Artemisia.Topic.Subscriber — a `Topic` as a publisher (`Artemisia.swift`): which of the events on the subject
  reach its subscriber.

  The subscriber asks for everything it can get, as a sink does. An event comes with the protocol version that
  the client has at that time. Reading a property value takes fuel (see `Property.Swift`): a subscriber gets
  what it gets once the filter has returned for every event.

  Proved:
  - `received_eq`:        with at most one identifier everywhere, the subscriber gets the events it wants,
                          in order.
  - `subscriber_gets_matching`: a pattern matches level by level, and the subscriber gets what it matches.
  - `merged_publish_iff`: a message for several subscription identifiers is taken exactly when there is only one.
-/
import Artemisia.Client.Types
import Artemisia.Property.Section
import Artemisia.Property.Swift
import Artemisia.Topic.Match

namespace Artemisia.Topic

open Artemisia.Property Artemisia.Client

/-! ## Messages and options -/

/-- `Mosquitto.Message`. A Swift string is its UTF-8 bytes, and `props` the list that the pointer leads to. -/
structure SwiftMessage where
  payload : Bytes
  topic : Option Bytes
  qos : Nat
  retain : Bool
  props : List MosquittoProperty
  messageId : UInt16
  deriving DecidableEq

/-- `Artemisia.Event`. -/
inductive SubjectEvent where
  | connect
  | disconnect
  | publish
  | subscribe
  | unsubscribe
  | message (message : SwiftMessage)

inductive SubscribeOption where
  | qos (q : Int)
  | subscriptionIdentifier (id : UInt32)
  | userProperties (properties : List (CString × CString))
  /-- `noLocal` and the others. -/
  | flags (bits : UInt32)

/-- `tryAdd` for a value that is added in one call: what cannot be added is left out. -/
def tryAdd (props : List MosquittoProperty) (added : Except Rc (List MosquittoProperty)) :
    List MosquittoProperty :=
  match added with
  | .ok l => l
  | .error _ => props

def SubscribeOption.build (props : List MosquittoProperty) : SubscribeOption → List MosquittoProperty
  | .qos _ | .flags _ => props
  | .subscriptionIdentifier id => tryAdd props (addVarint props mqttPropSubscriptionIdentifier.code id)
  | .userProperties l =>
    l.foldl (fun props p => tryAdd props (addStringPair props mqttPropUserProperty.code (some p.1) (some p.2)))
      props

def buildProps (options : List SubscribeOption) : List MosquittoProperty := options.foldl SubscribeOption.build []

/-- `subscriptionIdentifier`, of a message and of the options: the first of the values that are read. -/
def subscriptionIdentifier (fuel : Nat) (props : List MosquittoProperty) : Option (Option UInt32) :=
  (readPropValue fuel mqttPropSubscriptionIdentifier props).map List.head?

/-! ## The filter -/

/-- Whether the topic of a message is what `mosquitto_topic_matches_sub` lets through. -/
def topicMatches (pattern : Bytes) (topic : Option Bytes) : Bool :=
  match topic with
  | none => false
  | some topic => topicMatchesSub pattern topic = (.success, true)

/-- The condition in `Topic.receive` for a message. -/
def passes (fuel : Nat) (pattern : Bytes) (options : List SubscribeOption) (version : Protocol)
    (topic : Option Bytes)
    (props : List MosquittoProperty) : Option Bool :=
  if topicMatches pattern topic then
    if version = .mqtt5 then do
      let id ← subscriptionIdentifier fuel props
      let own ← subscriptionIdentifier fuel (buildProps options)
      some (id = own)
    else some true
  else some false

/-- The `compactMap` of `Topic.receive`. -/
def receiveEvent (fuel : Nat) (pattern : Bytes) (options : List SubscribeOption) (version : Protocol) :
    SubjectEvent → Option (Option SwiftMessage)
  | .message msg => (passes fuel pattern options version msg.topic msg.props).map (fun b => if b then
      some msg else none)
  | _ => some none

/-- What a subscriber has got after these events; `none` if the filter does not return for one of them. -/
def received {T : Type} (fuel : Nat) (pattern : Bytes) (options : List SubscribeOption)
    (fromMessage : SwiftMessage → T) :
    List (Protocol × SubjectEvent) → Option (List T)
  | [] => some []
  | (version, event) :: events => do
    let got ← receiveEvent fuel pattern options version event
    let rest ← received fuel pattern options fromMessage events
    some ((got.map fromMessage).toList ++ rest)

/-! ## What a subscriber should get -/

/-- The subscription identifier in a list that has none or one. -/
def identifierOf (props : List MosquittoProperty) : Option UInt32 :=
  (valuesOf mqttPropSubscriptionIdentifier props).head?

def OneIdentifier (props : List MosquittoProperty) : Prop :=
  (entries props mqttPropSubscriptionIdentifier.code).length ≤ 1

instance (props : List MosquittoProperty) : Decidable (OneIdentifier props) := inferInstanceAs (Decidable (_ ≤ 1))

/-- The message of an event, if the pattern matches its topic and, in MQTT 5, its identifier is that of the
    options. -/
def wanted (pattern : Bytes) (options : List SubscribeOption) : Protocol × SubjectEvent → Option SwiftMessage
  | (version, .message msg) =>
    if msg.topic.any (fun topic => FilterMatches pattern topic) ∧
        (version = .mqtt5 → identifierOf msg.props = identifierOf (buildProps options)) then some msg else none
  | _ => none

/-- A message event as the protocol lets it be: a topic name, and in MQTT 5 none or one identifier. -/
def Regular : Protocol × SubjectEvent → Prop
  | (version, .message msg) => (∃ topic, msg.topic = some topic ∧ topic ≠ [] ∧ topic.any isWildcard = false) ∧
      (version = .mqtt5 → OneIdentifier msg.props)
  | _ => True

/-- With none or one identifier the reader returns it. -/
theorem subscriptionIdentifier_eq {fuel : Nat} {props : List MosquittoProperty} (h : OneIdentifier props)
    (hf : 2 ≤ fuel) : subscriptionIdentifier fuel props = some (identifierOf props) := by
  have hread : readPropValue fuel mqttPropSubscriptionIdentifier props =
      some (valuesOf mqttPropSubscriptionIdentifier props) :=
    readLoop_more (readPropValue_of_one h) hf
  rw [subscriptionIdentifier, hread]
  rfl

section Filter

variable {pattern : Bytes} {options : List SubscribeOption} {version : Protocol} {fuel : Nat}

/-- The filter for a message that has a topic. -/
theorem passes_eq {topic : Bytes} {props : List MosquittoProperty} (hp : version = .mqtt5 → OneIdentifier props)
    (ho : version = .mqtt5 → OneIdentifier (buildProps options)) (hf : 2 ≤ fuel) :
    passes fuel pattern options version (some topic) props =
      some (decide (topicMatchesSub pattern topic = (.success, true) ∧
        (version = .mqtt5 → identifierOf props = identifierOf (buildProps options)))) := by
  unfold passes topicMatches
  by_cases hm : topicMatchesSub pattern topic = (.success, true)
  · by_cases h5 : version = .mqtt5
    · simp [hm, h5, subscriptionIdentifier_eq (hp h5) hf, subscriptionIdentifier_eq (ho h5) hf]
    · simp [hm, h5]
  · simp [hm]

theorem receiveEvent_eq (hpattern : pattern ≠ []) (hcheck : mosquittoSubTopicCheck pattern = .success)
    (ho : version = .mqtt5 → OneIdentifier (buildProps options)) (hf : 2 ≤ fuel) {event : SubjectEvent}
    (he : Regular (version, event)) :
    receiveEvent fuel pattern options version event = some (wanted pattern options (version, event)) := by
  cases event with
  | message msg =>
    obtain ⟨⟨topic, ht, hne, hplain⟩, hid⟩ := he
    simp only [receiveEvent, wanted, ht, passes_eq hid ho hf, topicMatchesSub_eq hpattern hcheck hne hplain,
      Option.map_some, Option.any_some, Prod.mk.injEq, true_and, decide_eq_true_iff]
  | connect => rfl
  | disconnect => rfl
  | publish => rfl
  | subscribe => rfl
  | unsubscribe => rfl

/-- The subscriber gets the events it wants, in their order. -/
theorem received_eq {T : Type} (fromMessage : SwiftMessage → T) (hpattern : pattern ≠ [])
    (hcheck : mosquittoSubTopicCheck pattern = .success) {events : List (Protocol × SubjectEvent)}
    (ho : ∀ e ∈ events, e.1 = .mqtt5 → OneIdentifier (buildProps options)) (hf : 2 ≤ fuel)
    (he : ∀ e ∈ events, Regular e) :
    received fuel pattern options fromMessage events =
      some ((events.filterMap (wanted pattern options)).map fromMessage) := by
  induction events with
  | nil => rfl
  | cons e events ih =>
    obtain ⟨version, event⟩ := e
    have hfirst := receiveEvent_eq hpattern hcheck (ho _ (List.mem_cons_self ..)) hf
        (he _ (List.mem_cons_self ..))
    have hrest := ih (fun e h => ho e (List.mem_cons_of_mem _ h)) (fun e h => he e (List.mem_cons_of_mem _ h))
    simp only [received, hfirst, hrest, bind, Option.bind, List.filterMap_cons]
    cases wanted pattern options (version, event) <;> rfl

end Filter

/-- A filter that the check accepts matches the topics that it means, and a subscriber with that pattern gets
    exactly the message events whose topics match and whose identifier, in MQTT 5, is its own. -/
theorem subscriber_gets_matching {pattern : Bytes} (hpattern : pattern ≠ [])
    (hcheck : mosquittoSubTopicCheck pattern = .success) :
    (∀ topic, topic ≠ [] → topic.any isWildcard = false →
      topicMatchesSub pattern topic = (.success, decide (FilterMatches pattern topic))) ∧
    ∀ (T : Type) (fromMessage : SwiftMessage → T) (options : List SubscribeOption)
    (events : List (Protocol × SubjectEvent)),
      (∀ e ∈ events, e.1 = .mqtt5 → OneIdentifier (buildProps options)) → (∀ e ∈ events, Regular e) →
      ∀ fuel, 2 ≤ fuel →
        received fuel pattern options fromMessage events =
          some ((events.filterMap (wanted pattern options)).map fromMessage) :=
  ⟨fun _ hne hplain => topicMatchesSub_eq hpattern hcheck hne hplain,
    fun _ fromMessage _ _ ho he _ hf => received_eq fromMessage hpattern hcheck ho hf he⟩

def messageOn (topic : Bytes) (props : List MosquittoProperty) : SwiftMessage :=
  ⟨[1], some topic, 0, false, props, 0⟩

/-- The pattern a/+ with the identifier 1: of messages on a/b, a/c and a, and one on a/b with the identifier 2,
    the first two are got. -/
theorem subscriber_gets_matching_plus :
    topicMatchesSub [97, 47, 43] [97, 47] = (.success, true) ∧
      received 2 [97, 47, 43] [.subscriptionIdentifier 1] SwiftMessage.topic
        [(.mqtt5, .message (messageOn [97, 47, 98] [⟨.subscriptionIdentifier, (1 : UInt32)⟩])),
        (.mqtt5, .connect),
         (.mqtt5, .message (messageOn [97, 47, 99] [⟨.subscriptionIdentifier, (1 : UInt32)⟩])),
         (.mqtt5, .message (messageOn [97, 47, 98] [⟨.subscriptionIdentifier, (2 : UInt32)⟩])),
         (.mqtt5, .message (messageOn [97] [⟨.subscriptionIdentifier, (1 : UInt32)⟩]))] =
        some [some [97, 47, 98], some [97, 47, 99]] := by
  have hfilter : ([97, 47, 43] : Bytes) ≠ [] ∧ mosquittoSubTopicCheck [97, 47, 43] = .success := by decide
  constructor
  · exact (subscriber_gets_matching hfilter.1 hfilter.2).1 [97, 47] (by decide) (by decide)
  · refine ((subscriber_gets_matching hfilter.1 hfilter.2).2 _ SwiftMessage.topic _ _ ?_ ?_ 2
      (by decide)).trans (by decide)
    · exact fun _ _ _ => by decide
    · intro e he
      simp only [List.mem_cons, List.not_mem_nil, or_false] at he
      rcases he with rfl | rfl | rfl | rfl | rfl
      · exact ⟨⟨_, rfl, by decide, by decide⟩, fun _ => by decide⟩
      · trivial
      · exact ⟨⟨_, rfl, by decide, by decide⟩, fun _ => by decide⟩
      · exact ⟨⟨_, rfl, by decide, by decide⟩, fun _ => by decide⟩
      · exact ⟨⟨_, rfl, by decide, by decide⟩, fun _ => by decide⟩

/-! ## Overlapping subscriptions -/

/-- Each entry with the identifier has a value. -/
theorem length_valuesOf (i : PropertyId) (l : List MosquittoProperty) :
    (valuesOf i l).length = (entries l i.code).length := by
  unfold valuesOf
  have hall : ∀ p ∈ entries l i.code, ∃ v, (p.valueAs i.kind).map (entryValue i.kind) = some v := by
    intro p hp
    obtain ⟨v, hv⟩ := valueAs_of_mem hp
    exact ⟨_, by rw [hv]; rfl⟩
  generalize entries l i.code = es at hall
  induction es with
  | nil => rfl
  | cons p es ih =>
    obtain ⟨v, hv⟩ := hall p (List.mem_cons_self ..)
    rw [List.filterMap_cons, hv]
    exact congrArg (· + 1) (ih (fun q hq => hall q (List.mem_cons_of_mem _ hq)))

/-- The properties of a PUBLISH without its subscription identifiers. -/
def withoutIdentifiers (l : List MosquittoProperty) : List MosquittoProperty :=
  l.filter (fun p => p.identifier ≠ .subscriptionIdentifier)

/-- The check of a PUBLISH passes with one subscription identifier among properties that pass it. -/
theorem checkAll_one_identifier {l : List MosquittoProperty}
    (hothers : checkAll .publish (withoutIdentifiers l) = .success)
    (hone : (entries l PropId.subscriptionIdentifier.code).length ≤ 1) : checkAll .publish l = .success := by
  refine checkAll_of_count (fun p hp => ?_) (fun i hi => ?_)
  · by_cases he : p.identifier = .subscriptionIdentifier
    · obtain ⟨i, v⟩ := p
      obtain rfl : i = .subscriptionIdentifier := he
      exact ⟨rfl, rfl⟩
    · exact checkAll_each hothers p (List.mem_filter.mpr ⟨hp, by simpa using he⟩)
  · by_cases he : i = .subscriptionIdentifier
    · rw [he]
      exact hone
    · have hsame : entries l i.code = entries (withoutIdentifiers l) i.code := by
        unfold entries withoutIdentifiers
        rw [List.filter_filter]
        refine List.filter_congr (fun p _ => ?_)
        by_cases hp : p.identifier.code = i.code
        · have hpi := PropId.code_inj.mp hp
          simp [hpi, he]
        · simp [hp]
      rw [hsame]
      exact checkAll_count hothers hi

/-- The section with these identifiers is accepted, and each subscriber whose pattern matches and whose own
    identifier is among them gets the message once. -/
def DeliversMerged (l : List MosquittoProperty) (ids : List UInt32) : Prop :=
  (∀ payload, readAll .publish ((writeAll l true).1 ++ payload) = .ok (l, payload)) ∧
    ∀ (msg : SwiftMessage) (pattern : Bytes) (options : List SubscribeOption), msg.props = l →
      topicMatches pattern msg.topic = true → OneIdentifier (buildProps options) →
        (∃ i ∈ ids, identifierOf (buildProps options) = some i) →
          ∃ fuel, received fuel pattern options id [(.mqtt5, .message msg)] = some [msg]

/-- For subscription identifiers at any places in a section that is otherwise valid: the message gets to the
    subscribers exactly when there is only one identifier. -/
theorem merged_publish_iff {l : List MosquittoProperty} {ids : List UInt32}
    (hids : valuesOf mqttPropSubscriptionIdentifier l = ids) (hn : ids ≠ [])
    (hothers : checkAll .publish (withoutIdentifiers l) = .success) (hfits : ∀ p ∈ l, p.Fits)
    (hlen : getLengthAll l < 268435456) : DeliversMerged l ids ↔ ids.length = 1 := by
  have hcount : (entries l PropId.subscriptionIdentifier.code).length = ids.length := by
    rw [← hids]
    exact (length_valuesOf mqttPropSubscriptionIdentifier l).symm
  constructor
  · intro hx
    obtain ⟨hread, -⟩ := hx
    have hle := readAll_count (hread []) (show PropId.subscriptionIdentifier ≠ .userProperty by decide)
    have hpos := List.length_pos_iff.mpr hn
    omega
  · intro hone
    have hcheck := checkAll_one_identifier hothers (by omega)
    refine ⟨fun payload => ?_, ?_⟩
    · rw [writeAll_of_fits hfits hlen, List.append_assoc]
      exact readAll_spelled hcheck hfits hlen payload
    · rintro msg pattern options rfl hmatch ho ⟨i, hi, hown⟩
      obtain ⟨topic, ht⟩ : ∃ topic, msg.topic = some topic := by
        cases ht : msg.topic with
        | none => simp [ht, topicMatches] at hmatch
        | some topic => exact ⟨topic, rfl⟩
      have hid : identifierOf msg.props = some i := by
        obtain ⟨j, rfl⟩ := List.length_eq_one_iff.mp hone
        rw [identifierOf, hids, List.mem_singleton.mp hi]
        rfl
      have hm : topicMatchesSub pattern topic = (.success, true) := by simpa [ht, topicMatches] using hmatch
      refine ⟨2, ?_⟩
      have hpass : passes 2 pattern options .mqtt5 msg.topic msg.props = some true := by
        rw [ht, passes_eq (fun _ => show OneIdentifier msg.props from Nat.le_of_eq (hcount.trans hone))
          (fun _ => ho)
          (Nat.le_refl 2)]
        simp [hm, hid, hown]
      simp [received, receiveEvent, hpass]

def twoIdentifiers : List MosquittoProperty :=
  [⟨.subscriptionIdentifier, (1 : UInt32)⟩, ⟨.subscriptionIdentifier, (2 : UInt32)⟩]

/-- The whole message is refused for the second identifier. -/
theorem two_identifiers_refused :
    valuesOf mqttPropSubscriptionIdentifier twoIdentifiers = [(1 : UInt32), (2 : UInt32)] ∧
      checkAll .publish (withoutIdentifiers twoIdentifiers) = .success ∧
      readAll .publish ((writeAll twoIdentifiers true).1 ++ [65]) = .error .duplicateProperty ∧
      ¬ DeliversMerged twoIdentifiers [1, 2] := by
  have hrefused : readAll .publish ((writeAll twoIdentifiers true).1 ++ [65]) = .error .duplicateProperty := by
    decide
  refine ⟨rfl, by decide, hrefused, ?_⟩
  intro hx
  obtain ⟨h, -⟩ := hx
  rw [h [65]] at hrefused
  cases hrefused

/-- With one identifier, after another property. -/
theorem merged_publish_one :
    DeliversMerged [⟨.topicAlias, (3 : UInt16)⟩, ⟨.subscriptionIdentifier, (7 : UInt32)⟩] [7] ↔
    ([7] : List UInt32).length = 1 :=
  merged_publish_iff rfl (by decide) (by decide) (by decide) (by decide)

end Artemisia.Topic
