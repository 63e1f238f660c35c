/-
  Artemisia.Swift.Options — option literals (`PublishOptions`, `SubscribeOptions`, `Topic.init`).

  An options value is made by a static function or by an array literal of options values, which may be
  nested in any way. `buildProps` works on the list behind the pointer that it is given. It may trap: a `Data` of
  more than 65535 bytes has a length that is no `UInt16`.

  Proved:
  - `publishOptions_spells`:   the value of a literal is what its leaves in a row spell, however they are nested.
  - `subscribeOptions_spells`: the same for `SubscribeOptions`.
  - `literals_flat`:           with what follows for literals with the same leaves, the empty literal and
                               `Topic.init`.
-/
import Artemisia.Lib.Literal
import Artemisia.Property.BinaryData
import Artemisia.Topic.Subscriber

namespace Artemisia.Swift

open Artemisia.Lib Artemisia.Property Artemisia.Topic

/-! ## PublishOptions -/

@[ext] structure PublishOptions where
  topic : Option Bytes
  qos : Option Int
  retain : Option Bool
  buildProps : List MosquittoProperty → Option (List MosquittoProperty)

def PublishOptions.new (topic : Option Bytes) (qos : Option Int) (retain : Option Bool)
    (build : List MosquittoProperty → Option (List MosquittoProperty)) : PublishOptions :=
  ⟨topic, qos, retain, build⟩

def PublishOptions.arrayLiteral (elements : List PublishOptions) : PublishOptions :=
  let topic := elements.foldl (fun topic e => topic.or e.topic) none
  let qos := elements.foldl (fun qos e => qos.or e.qos) none
  let retain := elements.foldl (fun retain e => retain.or e.retain) none
  .new topic qos retain (fun props => elements.foldlM (fun props e => e.buildProps props) props)

/-- The static functions of `PublishOptions`. A Swift string is its UTF-8 bytes. -/
inductive PublishOption where
  | topic (topic : Bytes)
  | qos (qos : Int)
  | retain (retain : Bool)
  | messageExpiryInterval (value : UInt32)
  | contentType (value : Bytes)
  | responseTopic (value : Bytes)
  | correlationData (value : Bytes)
  | subscriptionIdentifier (value : UInt32)
  | topicAlias (value : UInt16)
  | userProperties (value : List (Bytes × Bytes))
  | payloadFormatIndicator (value : UInt8)

/-- `MQTT_PROP_USER_PROPERTY.tryAdd`: the C functions see a string up to its first NUL. -/
def tryAddUserProperty (props : List MosquittoProperty) (p : Bytes × Bytes) : List MosquittoProperty :=
  tryAdd props (addStringPair props mqttPropUserProperty.code (some (CString.of p.1)) (some (CString.of p.2)))

/-- What the static functions give as `build`. See `structBytes` for the parameter. -/
def PublishOption.build (outline : Nat → Nat → UInt8) :
    PublishOption → List MosquittoProperty → Option (List MosquittoProperty)
  | .topic _, props | .qos _, props | .retain _, props => some props
  | .messageExpiryInterval value, props =>
    some (tryAdd props (addInt32 props mqttPropMessageExpiryInterval.code value))
  | .contentType value, props =>
    some (tryAdd props (addString props mqttPropContentType.code (some (CString.of value))))
  | .responseTopic value, props =>
    some (tryAdd props (addString props mqttPropResponseTopic.code (some (CString.of value))))
  | .correlationData value, props =>
    if value.length ≤ 65535 then
      some (tryAdd props (addPropValue outline BinaryId.correlationData value props)) else none
  | .subscriptionIdentifier value, props =>
    some (tryAdd props (addVarint props mqttPropSubscriptionIdentifier.code value))
  | .topicAlias value, props => some (tryAdd props (addInt16 props mqttPropTopicAlias.code value))
  | .userProperties value, props => some (value.foldl tryAddUserProperty props)
  | .payloadFormatIndicator value, props =>
    some (tryAdd props (addByte props mqttPropPayloadFormatIndicator.code value))

section Publish

variable (outline : Nat → Nat → UInt8)

/-- The value of a call of a static function. -/
def PublishOption.options (o : PublishOption) : PublishOptions :=
  match o with
  | .topic t => .new (some t) none none (o.build outline)
  | .qos q => .new none (some q) none (o.build outline)
  | .retain r => .new none none (some r) (o.build outline)
  | _ => .new none none none (o.build outline)

/-- The value of a literal. -/
def publishOptions (t : Literal PublishOption) : PublishOptions :=
  t.value (PublishOption.options outline) PublishOptions.arrayLiteral

/-- The options that these say one after the other: the first of a kind counts, and each adds its properties. -/
structure PublishOptions.Spells (leaves : List PublishOption) (o : PublishOptions) : Prop where
  topic : o.topic = leaves.findSome? (fun l => (l.options outline).topic)
  qos : o.qos = leaves.findSome? (fun l => (l.options outline).qos)
  retain : o.retain = leaves.findSome? (fun l => (l.options outline).retain)
  buildProps : ∀ props, o.buildProps props = leaves.foldlM (fun props l => l.build outline props) props

end Publish

/-- The first that is there. -/
theorem foldl_or {α β : Type} (f : α → Option β) (l : List α) :
    l.foldl (fun acc a => acc.or (f a)) none = l.findSome? f := by
  have hfrom (acc : Option β) : l.foldl (fun acc a => acc.or (f a)) acc = acc.or (l.findSome? f) := by
    induction l generalizing acc with
    | nil => rw [List.foldl_nil, List.findSome?_nil, Option.or_none]
    | cons a l ih =>
      rw [List.foldl_cons, ih, Option.or_assoc, List.findSome?_cons]
      cases f a <;> rfl
  rw [hfrom, Option.none_or]

theorem foldl_or_map {α β : Type} (f : α → Option β) (l : List α) :
    l.foldl (fun acc a => acc.or (f a)) none = (l.map f).foldl Option.or none := List.foldl_map.symm

theorem PublishOptions.flat : Flat PublishOptions.arrayLiteral := by
  have hopt (β : Type) : Flat (List.foldl (Option.or (α := β)) none) := flat_foldl Option.or none
  have hrun : Flat (runAll (σ := List MosquittoProperty)) := flat_runAll _
  have htopic (l : List PublishOptions) : (arrayLiteral l).topic = (l.map topic).foldl Option.or none :=
    foldl_or_map _ l
  have hqos (l : List PublishOptions) : (arrayLiteral l).qos = (l.map qos).foldl Option.or none :=
    foldl_or_map _ l
  have hretain (l : List PublishOptions) : (arrayLiteral l).retain = (l.map retain).foldl Option.or none :=
    foldl_or_map _ l
  have hbuild (l : List PublishOptions) : (arrayLiteral l).buildProps = runAll (l.map buildProps) := by
    funext props
    exact (List.foldlM_map (f := PublishOptions.buildProps) (g := fun props e => e props)).symm
  constructor
  · intro o
    exact PublishOptions.ext ((hopt _).single_part htopic o) ((hopt _).single_part hqos o)
      ((hopt _).single_part hretain o) (hrun.single_part hbuild o)
  · intro ls
    exact PublishOptions.ext ((hopt _).flatten_part htopic ls) ((hopt _).flatten_part hqos ls)
      ((hopt _).flatten_part hretain ls) (hrun.flatten_part hbuild ls)

theorem PublishOption.options_build (outline : Nat → Nat → UInt8) (o : PublishOption) :
    (o.options outline).buildProps = o.build outline := by
  cases o <;> rfl

/-- However a literal is nested, it says what its leaves say. -/
theorem publishOptions_spells (outline : Nat → Nat → UInt8) (t : Literal PublishOption) :
    (publishOptions outline t).Spells outline t.leaves := by
  have ht : publishOptions outline t = .arrayLiteral (t.leaves.map (PublishOption.options outline)) :=
    PublishOptions.flat.value_eq _ t
  rw [ht]
  constructor
  · exact List.foldl_map.trans (foldl_or _ _)
  · exact List.foldl_map.trans (foldl_or _ _)
  · exact List.foldl_map.trans (foldl_or _ _)
  · intro props
    refine List.foldlM_map.trans ?_
    simp only [PublishOption.options_build]

/-! ## SubscribeOptions -/

@[ext] structure SubscribeOptions where
  qosVal : Option Int
  buildProps : List MosquittoProperty → List MosquittoProperty
  subOptions : UInt32

def SubscribeOptions.new (qos : Option Int) (subOptions : UInt32)
    (build : List MosquittoProperty → List MosquittoProperty) : SubscribeOptions :=
  ⟨qos, build, subOptions⟩

def SubscribeOptions.arrayLiteral (elements : List SubscribeOptions) : SubscribeOptions :=
  let qos := elements.foldl (fun qos e => qos.or e.qosVal) none
  let options := elements.foldl (fun options e => options ||| e.subOptions) 0
  .new qos options (fun props => elements.foldl (fun props e => e.buildProps props) props)

def noLocal : SubscribeOption := .flags 0x04
def retainAsPublished : SubscribeOption := .flags 0x08
def sendRetainAlways : SubscribeOption := .flags 0x00
def sendRetainNew : SubscribeOption := .flags 0x10
def sendRetainNever : SubscribeOption := .flags 0x20

/-- The value of a call of a static function, or of a static variable. -/
def subscribeOption (o : SubscribeOption) : SubscribeOptions :=
  match o with
  | .qos q => .new (some q) 0 (fun props => o.build props)
  | .flags bits => .new none bits (fun props => o.build props)
  | _ => .new none 0 (fun props => o.build props)

/-- The value of a literal. -/
def subscribeOptions (t : Literal SubscribeOption) : SubscribeOptions :=
  t.value subscribeOption SubscribeOptions.arrayLiteral

/-- The options that these say one after the other. -/
structure SubscribeOptions.Spells (leaves : List SubscribeOption) (o : SubscribeOptions) : Prop where
  qosVal : o.qosVal = leaves.findSome? (fun l => (subscribeOption l).qosVal)
  subOptions : o.subOptions = (leaves.map (fun l => (subscribeOption l).subOptions)).foldl (· ||| ·) 0
  buildProps : ∀ props, o.buildProps props = leaves.foldl SubscribeOption.build props

theorem SubscribeOptions.flat : Flat SubscribeOptions.arrayLiteral := by
  have hopt : Flat (List.foldl (Option.or (α := Int)) none) := flat_foldl Option.or none
  have hbits : Flat (List.foldl (fun a b : UInt32 => a ||| b) 0) := flat_foldl (fun a b => a ||| b) 0
  have hrun : Flat (runEach (σ := List MosquittoProperty)) := flat_runEach _
  have hqos (l : List SubscribeOptions) : (arrayLiteral l).qosVal = (l.map qosVal).foldl Option.or none :=
    foldl_or_map _ l
  have hsub (l : List SubscribeOptions) :
      (arrayLiteral l).subOptions = (l.map subOptions).foldl (fun a b => a ||| b) 0 := List.foldl_map.symm
  have hbuild (l : List SubscribeOptions) : (arrayLiteral l).buildProps = runEach (l.map buildProps) := by
    funext props
    exact (List.foldl_map (f := SubscribeOptions.buildProps) (g := fun props e => e props)).symm
  constructor
  · intro o
    exact SubscribeOptions.ext (hopt.single_part hqos o) (hrun.single_part hbuild o) (hbits.single_part hsub o)
  · intro ls
    exact SubscribeOptions.ext (hopt.flatten_part hqos ls) (hrun.flatten_part hbuild ls)
      (hbits.flatten_part hsub ls)

theorem subscribeOption_build (o : SubscribeOption) : (subscribeOption o).buildProps = fun props =>
    o.build props := by
  cases o <;> rfl

theorem subscribeOptions_spells (t : Literal SubscribeOption) : (subscribeOptions t).Spells t.leaves := by
  have ht : subscribeOptions t = .arrayLiteral (t.leaves.map subscribeOption) :=
    SubscribeOptions.flat.value_eq _ t
  rw [ht]
  constructor
  · exact List.foldl_map.trans (foldl_or _ _)
  · rw [List.foldl_map]
    exact List.foldl_map
  · intro props
    refine List.foldl_map.trans ?_
    simp only [subscribeOption_build]

/-- The properties that the subscription of `Topic.Subscriber` asks with. -/
theorem subscribeOptions_buildProps (t : Literal SubscribeOption) :
    (subscribeOptions t).buildProps [] = buildProps t.leaves := (subscribeOptions_spells t).buildProps []

/-! ## Topic -/

/-- `Artemisia.Topic`, without the client. -/
structure Topic where
  pattern : Bytes
  subscribeOptions : SubscribeOptions
  publishOptions : PublishOptions

def Topic.new (outline : Nat → Nat → UInt8) (pattern : Bytes) (subscribeOptions : SubscribeOptions)
    (publishOptions : PublishOptions) : Topic :=
  ⟨pattern, subscribeOptions, .arrayLiteral [publishOptions, (PublishOption.topic pattern).options outline]⟩

theorem topic_new (outline : Nat → Nat → UInt8) (pattern : Bytes) (s : SubscribeOptions) (o : PublishOptions) :
    (Topic.new outline pattern s o).publishOptions.topic = some (o.topic.getD pattern) := by
  show (Option.or none o.topic).or (some pattern) = _
  cases o.topic <;> rfl

/-- Literals are their leaves in a row: nesting, and empty literals, change nothing. -/
theorem literals_flat (outline : Nat → Nat → UInt8) :
    (∀ t, (publishOptions outline t).Spells outline t.leaves) ∧
    (∀ t u, t.leaves = u.leaves → publishOptions outline t = publishOptions outline u) ∧
    (∀ o, .arrayLiteral [.arrayLiteral [], o] = o ∧ PublishOptions.arrayLiteral [o, .arrayLiteral []] = o) ∧
    (∀ pattern s t, (Topic.new outline pattern s (publishOptions outline t)).publishOptions.topic =
      some ((t.leaves.findSome? (fun l => (l.options outline).topic)).getD pattern)) ∧
    (∀ t, (subscribeOptions t).Spells t.leaves) ∧
    (∀ t u, t.leaves = u.leaves → subscribeOptions t = subscribeOptions u) ∧
    ∀ o, .arrayLiteral [.arrayLiteral [], o] = o ∧ SubscribeOptions.arrayLiteral [o, .arrayLiteral []] = o := by
  refine ⟨publishOptions_spells outline, ?_, ?_, ?_, subscribeOptions_spells, ?_, ?_⟩
  · intro t u h
    exact PublishOptions.flat.value_congr _ h
  · intro o
    exact ⟨PublishOptions.flat.nil_left o, PublishOptions.flat.nil_right o⟩
  · intro pattern s t
    rw [topic_new, (publishOptions_spells outline t).topic]
  · intro t u h
    exact SubscribeOptions.flat.value_congr _ h
  · intro o
    exact ⟨SubscribeOptions.flat.nil_left o, SubscribeOptions.flat.nil_right o⟩

/-- An inner literal and an empty one. -/
theorem literals_flat_nested :
    publishOptions (fun _ _ => 0) (.array [.array [], .array [.leaf (.qos 1), .leaf (.topic [97])],
    .leaf (.topic [98])]) =
      publishOptions (fun _ _ => 0) (.array [.leaf (.qos 1), .leaf (.topic [97]), .leaf (.topic [98])]) :=
  (literals_flat (fun _ _ => 0)).2.1 _ _ rfl

end Artemisia.Swift
