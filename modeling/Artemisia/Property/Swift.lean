/-
  Artemisia.Property.Swift — reading property values from Swift (`Mosquitto+Properties.swift`).

  `read_prop_value(from:)` searches the list from its head in every turn, first without and then with
  `skip_first`. Fuel counts the turns of its loop: a call returns when some fuel gives it a result.

  Proved:
  - `readPropValue_of_two`: with two entries of the identifier or more, the call never returns.
  - `readPropValue_iff`:    it returns the values of all the entries with the identifier, in order,
                            exactly when there is at most one.
-/
import Artemisia.Property.List

namespace Artemisia.Property

/-- A `PropertyId` of the Swift layer: its code and the family whose reader it calls. The field
    `typed` leaves out an identifier read through another family's reader, such as the unused static
    `UInt16Id.MQTT_PROP_TOPIC_ALIAS` with the code of a string. -/
structure PropertyId where
  code : Nat
  kind : Kind
  typed : (PropId.ofCode code).map PropId.kind = some kind

/-! ## The identifiers of the file -/

def mqttPropPayloadFormatIndicator : PropertyId := ⟨1, .byte, rfl⟩
def mqttPropMessageExpiryInterval : PropertyId := ⟨2, .int32, rfl⟩
def mqttPropContentType : PropertyId := ⟨3, .string, rfl⟩
def mqttPropResponseTopic : PropertyId := ⟨8, .string, rfl⟩
def mqttPropCorrelationData : PropertyId := ⟨9, .binary, rfl⟩
def mqttPropSubscriptionIdentifier : PropertyId := ⟨11, .varint, rfl⟩
def mqttPropSessionExpiryInterval : PropertyId := ⟨17, .int32, rfl⟩
def mqttPropAssignedClientIdentifier : PropertyId := ⟨18, .string, rfl⟩
def mqttPropServerKeepAlive : PropertyId := ⟨19, .int16, rfl⟩
def mqttPropAuthenticationMethod : PropertyId := ⟨21, .string, rfl⟩
def mqttPropAuthenticationData : PropertyId := ⟨22, .binary, rfl⟩
def mqttPropRequestProblemInformation : PropertyId := ⟨23, .byte, rfl⟩
def mqttPropWillDelayInterval : PropertyId := ⟨24, .int32, rfl⟩
def mqttPropRequestResponseInformation : PropertyId := ⟨25, .byte, rfl⟩
def mqttPropResponseInformation : PropertyId := ⟨26, .string, rfl⟩
def mqttPropServerReference : PropertyId := ⟨28, .string, rfl⟩
def mqttPropReasonString : PropertyId := ⟨31, .string, rfl⟩
def mqttPropReceiveMaximum : PropertyId := ⟨33, .int16, rfl⟩
def mqttPropTopicAliasMaximum : PropertyId := ⟨34, .int16, rfl⟩
def mqttPropTopicAlias : PropertyId := ⟨35, .int16, rfl⟩
def mqttPropMaximumQos : PropertyId := ⟨36, .byte, rfl⟩
def mqttPropRetainAvailable : PropertyId := ⟨37, .byte, rfl⟩
def mqttPropUserProperty : PropertyId := ⟨38, .pair, rfl⟩
def mqttPropMaximumPacketSize : PropertyId := ⟨39, .int32, rfl⟩
def mqttPropWildcardSubAvailable : PropertyId := ⟨40, .byte, rfl⟩
def mqttPropSubscriptionIdAvailable : PropertyId := ⟨41, .byte, rfl⟩
def mqttPropSharedSubAvailable : PropertyId := ⟨42, .byte, rfl⟩

/-! ## The loop -/

/-- `ValueType` of the family. A Swift string is its UTF-8 bytes. -/
def SwiftValue : Kind → Type
  | .byte => UInt8
  | .int16 => UInt16
  | .int32 => UInt32
  | .varint => UInt32
  | .binary => Bytes
  | .string => Bytes
  | .pair => Bytes × Bytes

/-- `String(cString:)`: the bytes of the buffer before its first NUL. -/
def stringOfBuffer (buff : Bytes) : Bytes := buff.takeWhile (· ≠ 0)

/-- What the loop appends for the buffers a reader has filled, which end in a NUL for a string. -/
def swiftValue : (k : Kind) → Value k → SwiftValue k
  | .byte, v => v
  | .int16, v => v
  | .int32, v => v
  | .varint, v => v
  | .binary, v => v
  | .string, v => stringOfBuffer (CString.bytes v ++ [0])
  | .pair, v => (stringOfBuffer (CString.bytes v.1 ++ [0]), stringOfBuffer (CString.bytes v.2 ++ [0]))

/-- The `while next != nil` of `read_prop_value`: `next` is the last result of the reader. -/
def readLoop (i : PropertyId) (props : List MosquittoProperty) :
    Nat → List (SwiftValue i.kind) → Option (Value i.kind) → Option (List (SwiftValue i.kind))
  | 0, _, _ => none
  | _ + 1, values, none => some values
  | fuel + 1, values, some buff =>
    readLoop i props fuel (values ++ [swiftValue i.kind buff]) (readProperty i.kind props i.code true)

/-- `read_prop_value(from:)`. -/
def readPropValue (fuel : Nat) (i : PropertyId) (props : List MosquittoProperty) :
    Option (List (SwiftValue i.kind)) :=
  readLoop i props fuel [] (readProperty i.kind props i.code false)

/-! ## What it should return -/

def entryValue : (k : Kind) → Value k → SwiftValue k
  | .byte, v => v
  | .int16, v => v
  | .int32, v => v
  | .varint, v => v
  | .binary, v => v
  | .string, v => CString.bytes v
  | .pair, v => (CString.bytes v.1, CString.bytes v.2)

/-- The values of the entries with the identifier, in list order. -/
def valuesOf (i : PropertyId) (l : List MosquittoProperty) : List (SwiftValue i.kind) :=
  (entries l i.code).filterMap (fun p => (p.valueAs i.kind).map (entryValue i.kind))

theorem stringOfBuffer_cstring (c : CString) : stringOfBuffer (c.bytes ++ [0]) = c.bytes := by
  have h : ∀ b ∈ c.bytes, decide (b ≠ 0) = true := fun b hb => by simpa using c.nonzero b hb
  unfold stringOfBuffer
  rw [List.takeWhile_append_of_pos h]
  simp

/-- No byte of a value is lost in the copy. -/
theorem swiftValue_eq (k : Kind) (v : Value k) : swiftValue k v = entryValue k v := by
  cases k with
  | string => exact stringOfBuffer_cstring v
  | pair => exact Prod.ext (stringOfBuffer_cstring v.1) (stringOfBuffer_cstring v.2)
  | _ => rfl

/-- An entry with the identifier has a value of its family. -/
theorem valueAs_of_mem {i : PropertyId} {l : List MosquittoProperty} {p : MosquittoProperty}
    (h : p ∈ entries l i.code) : ∃ v, p.valueAs i.kind = some v := by
  have hc : p.identifier.code = i.code := by simpa using (List.mem_filter.mp h).2
  have hk := i.typed
  rw [← hc, PropId.ofCode_code] at hk
  exact Option.isSome_iff_exists.mp (MosquittoProperty.valueAs_isSome.mpr (by simpa using hk))

theorem valuesOf_one {i : PropertyId} {l : List MosquittoProperty} {p : MosquittoProperty} {v : Value i.kind}
    (h : entries l i.code = [p]) (hv : p.valueAs i.kind = some v) : valuesOf i l = [entryValue i.kind v] := by
  unfold valuesOf
  rw [h, List.filterMap_cons_some (by rw [hv, Option.map_some]), List.filterMap_nil]

theorem readProperty_first {i : PropertyId} {l es : List MosquittoProperty} {p : MosquittoProperty}
    (h : entries l i.code = p :: es) : readProperty i.kind l i.code false = p.valueAs i.kind := by
  simp [readProperty, getProperty_first, h]

theorem readProperty_second {i : PropertyId} {l es : List MosquittoProperty} {p q : MosquittoProperty}
    (h : entries l i.code = p :: q :: es) : readProperty i.kind l i.code true = q.valueAs i.kind := by
  simp [readProperty, getProperty_second, h]

/-- More turns change nothing about what the loop returns. -/
theorem readLoop_more {i : PropertyId} {props : List MosquittoProperty} {fuel more : Nat}
    {values l : List (SwiftValue i.kind)}
    {next : Option (Value i.kind)} (h : readLoop i props fuel values next = some l) (hm : fuel ≤ more) :
    readLoop i props more values next = some l := by
  induction fuel generalizing more values next with
  | zero => cases h
  | succ fuel ih =>
    obtain ⟨more, rfl⟩ : ∃ k, more = k + 1 := ⟨more - 1, by omega⟩
    cases next with
    | none => exact h
    | some v =>
      rw [readLoop] at h ⊢
      exact ih h (by omega)

/-- It returns one thing. -/
theorem readPropValue_unique {i : PropertyId} {props : List MosquittoProperty} {fuel fuel' : Nat}
    {l l' : List (SwiftValue i.kind)} (h : readPropValue fuel i props = some l)
    (h' : readPropValue fuel' i props = some l') :
    l = l' := by
  have hm : readPropValue (max fuel fuel') i props = some l := readLoop_more h (Nat.le_max_left ..)
  have hm' : readPropValue (max fuel fuel') i props = some l' := readLoop_more h' (Nat.le_max_right ..)
  exact Option.some.inj (hm.symm.trans hm')

/-- Once a search with `skip_first` finds an entry, it finds it again in every turn. -/
theorem readLoop_never {i : PropertyId} {l : List MosquittoProperty} {w : Value i.kind}
    (h : readProperty i.kind l i.code true = some w) (fuel : Nat) (values : List (SwiftValue i.kind))
    (v : Value i.kind) : readLoop i l fuel values (some v) = none := by
  induction fuel generalizing values v with
  | zero => rfl
  | succ fuel ih => rw [readLoop, h]; exact ih _ _

/-- With two entries of the identifier the call does not return. -/
theorem readPropValue_of_two {i : PropertyId} {l : List MosquittoProperty} (h : 2 ≤ (entries l i.code).length)
    (fuel : Nat) : readPropValue fuel i l = none := by
  rcases he : entries l i.code with _ | ⟨p, _ | ⟨q, es⟩⟩
  · simp [he] at h
  · simp [he] at h
  · obtain ⟨v, hv⟩ := valueAs_of_mem (i := i) (l := l) (p := p) (by simp [he])
    obtain ⟨w, hw⟩ := valueAs_of_mem (i := i) (l := l) (p := q) (by simp [he])
    unfold readPropValue
    rw [readProperty_first he, hv]
    exact readLoop_never ((readProperty_second he).trans hw) fuel [] v

/-- With at most one it returns after two turns. -/
theorem readPropValue_of_one {i : PropertyId} {l : List MosquittoProperty} (h : (entries l i.code).length ≤ 1) :
    readPropValue 2 i l = some (valuesOf i l) := by
  rcases he : entries l i.code with _ | ⟨p, _ | ⟨q, es⟩⟩
  · simp [readPropValue, readProperty, getProperty_first, he, readLoop, valuesOf]
  · obtain ⟨v, hv⟩ := valueAs_of_mem (i := i) (l := l) (p := p) (by simp [he])
    unfold readPropValue
    rw [readProperty_first he, hv]
    simp [readLoop, readProperty, getProperty_second, he, valuesOf, hv, swiftValue_eq]
  · simp [he] at h

/-- The call returns the values of all the entries with the identifier, in list order, exactly when the
    list has at most one of them. -/
theorem readPropValue_iff (i : PropertyId) (l : List MosquittoProperty) :
    (∃ fuel, readPropValue fuel i l = some (valuesOf i l)) ↔ (entries l i.code).length ≤ 1 := by
  constructor
  · intro hx
    obtain ⟨fuel, h⟩ := hx
    by_contra hlen
    rw [readPropValue_of_two (by omega) fuel] at h
    cases h
  · exact fun h => ⟨2, readPropValue_of_one h⟩

def twoUserProperties : Except Rc (List MosquittoProperty) := do
  let l ← addStringPair [] 38 (some (CString.of [97])) (some (CString.of [49]))
  addStringPair l 38 (some (CString.of [98])) (some (CString.of [50]))

/-- Both pairs are stored, and reading them from Swift does not return. -/
theorem userProperty_never_returns :
    ∃ l, twoUserProperties = .ok l ∧ valuesOf mqttPropUserProperty l = [([97], [49]), ([98], [50])] ∧
      ¬ ∃ fuel, readPropValue fuel mqttPropUserProperty l = some (valuesOf mqttPropUserProperty l) := by
  refine ⟨_, rfl, rfl, ?_⟩
  intro hx
  obtain ⟨fuel, h⟩ := hx
  rw [readPropValue_of_two (by decide) fuel] at h
  cases h

/-- A list decoded from a packet reads back in full for every identifier but the user property. -/
theorem readPropValue_decoded {command : Cmd} {s rest : Bytes} {l : List MosquittoProperty}
    (h : readAll command s = .ok (l, rest)) {i : PropertyId} (hi : i.code ≠ PropId.userProperty.code) :
    readPropValue 2 i l = some (valuesOf i l) := by
  obtain ⟨id, hid, -⟩ := Option.map_eq_some_iff.mp i.typed
  have hcode := PropId.code_of_ofCode hid
  have hne : id ≠ .userProperty := fun e => hi (by rw [← hcode, e])
  exact readPropValue_of_one (hcode ▸ readAll_count h hne)

end Artemisia.Property
