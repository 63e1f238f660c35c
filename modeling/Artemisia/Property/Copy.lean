/-
  Artemisia.Property.Copy — `mosquitto_property_copy_all` (`property_mosq.c`), which `mosquitto_publish_v5`
  runs on the properties of a message of QoS 1 or 2 (`actions.c`).

  The add functions keep an empty string as NULL, and the copy calls `strdup` on every string.

  Proved:
  - `copyValue_iff`:    a value is copied exactly when none of its strings is empty.
  - `copy_iff_filled`:  a list that has been built is copied, and a PUBLISH carries the copy as it would the
                        list, exactly when no string in it is empty.
-/
import Artemisia.Property.Raw

namespace Artemisia.Property.Raw

open Artemisia.Property

/-! ## The copy -/

/-- `strdup` of `v`, next to `len`; `none` if `v` is NULL, which is dereferenced. -/
def MqttString.strdup (s : MqttString CString) : Option (MqttString CString) := s.v.map fun v => ⟨some v, s.len⟩

/-- `malloc` and `memcpy` of `len` bytes. -/
def MqttString.memcpy (b : MqttString Bytes) : Option (MqttString Bytes) :=
  match b.v with
  | some v => some ⟨some (v.take b.len.toNat), b.len⟩
  | none => if b.len = 0 then some ⟨some [], 0⟩ else none

/-- The cases of `mosquitto_property_copy_all`. -/
def copyValue : (k : Kind) → RawValue k → Option (RawValue k)
  | .byte, v => some v
  | .int16, v => some v
  | .int32, v => some v
  | .varint, v => some v
  | .binary, v => MqttString.memcpy v
  | .string, v => MqttString.strdup v
  | .pair, v => do
    let value ← MqttString.strdup v.2
    let name ← MqttString.strdup v.1
    some (name, value)

/-- `mosquitto_property_copy_all`: the list in `*dest` when it returns `MOSQ_ERR_SUCCESS`, `none` if a null
    pointer is dereferenced. -/
def copyAll : List Mqtt5Property → Option (List Mqtt5Property)
  | [] => some []
  | p :: l => do
    let v ← copyValue p.identifier.kind p.value
    let rest ← copyAll l
    some (⟨p.identifier, v, false⟩ :: rest)

/-- `outgoing_properties`: of a list that no add function has made, only the first entry. -/
def outgoingProperties : List Mqtt5Property → List Mqtt5Property
  | [] => []
  | p :: l => if p.clientGenerated then p :: l else [{ p with clientGenerated := true }]

/-- The properties that `mosquitto_publish_v5` hands to `send__publish` or keeps with the message. -/
def publishProperties (qos : Int) (properties : List Mqtt5Property) : Option (List Mqtt5Property) :=
  if qos = 0 then some (outgoingProperties properties) else copyAll (outgoingProperties properties)

/-! ## One value -/

def Mqtt5Property.Filled (p : Mqtt5Property) : Prop := p.said.Filled

theorem Copied.strdup {s : MqttString CString} (h : Copied s) : (∃ s', s.strdup = some s') ↔
    s.text.bytes ≠ [] := by
  show _ ↔ ¬ s.text.bytes = []
  rw [← h.null]
  obtain ⟨v, len⟩ := s
  cases v <;> simp [MqttString.strdup]

theorem strdup_same {s s' : MqttString CString} (h : s.strdup = some s') : s' = s := by
  obtain ⟨v, len⟩ := s
  cases v with
  | none => cases h
  | some v => exact (Option.some.inj h).symm

theorem copyValue_iff {k : Kind} {v : RawValue k} (h : StoredValue k v) :
    (∃ w, copyValue k v = some w) ↔ FilledValue k (saidValue k v) := by
  cases k with
  | string => exact Copied.strdup h
  | pair =>
    obtain ⟨name, value⟩ := v
    have hname : (∃ s', name.strdup = some s') ↔ name.text.bytes ≠ [] := Copied.strdup h.1
    have hvalue : (∃ s', value.strdup = some s') ↔ value.text.bytes ≠ [] := Copied.strdup h.2
    show _ ↔ name.text.bytes ≠ [] ∧ value.text.bytes ≠ []
    rw [← hname, ← hvalue]
    constructor
    · rintro ⟨w, hw⟩
      obtain ⟨value', hv, name', hn, -⟩ := by simpa [copyValue, Option.bind_eq_some_iff] using hw
      exact ⟨⟨name', hn⟩, ⟨value', hv⟩⟩
    · rintro ⟨⟨name', hn⟩, ⟨value', hv⟩⟩
      exact ⟨(name', value'), by simp [copyValue, hn, hv]⟩
  | binary =>
    obtain ⟨b, -, hv, hlen⟩ := h
    refine iff_of_true ?_ trivial
    obtain ⟨bytes, len⟩ := v
    cases bytes with
    | some bytes => exact ⟨_, rfl⟩
    | none =>
      have hnil : b = [] := hv.symm
      rw [hnil] at hlen
      exact ⟨_, if_pos hlen⟩
  | _ => exact iff_of_true ⟨v, rfl⟩ trivial

theorem copyValue_same {k : Kind} {v w : RawValue k} (h : StoredValue k v) (hc : copyValue k v = some w) :
    saidValue k w = saidValue k v ∧ writeValue k w = writeValue k v ∧ lengthValue k w = lengthValue k v := by
  cases k with
  | string =>
    rw [show w = v from strdup_same hc]
    exact ⟨rfl, rfl, rfl⟩
  | pair =>
    obtain ⟨value', hv, name', hn, hw⟩ := by simpa [copyValue, Option.bind_eq_some_iff] using hc
    obtain ⟨name, value⟩ := v
    obtain rfl : value' = value := strdup_same hv
    obtain rfl : name' = name := strdup_same hn
    obtain rfl : (name', value') = w := Option.some.inj hw
    exact ⟨rfl, rfl, rfl⟩
  | binary =>
    obtain ⟨b, -, hv, hlen⟩ := h
    obtain ⟨bytes, len⟩ := v
    cases bytes with
    | some bytes =>
      have hb : bytes = b := hv
      have hl : len = (b.length : Int) := hlen
      subst hb
      obtain rfl : w = ⟨some (bytes.take len.toNat), len⟩ := (Option.some.inj hc).symm
      rw [hl, Int.toNat_natCast, List.take_length]
      exact ⟨rfl, rfl, rfl⟩
    | none =>
      have hl : len = 0 := hlen.trans (by rw [show b = [] from hv.symm]; rfl)
      subst hl
      obtain rfl : w = ⟨some [], 0⟩ := (Option.some.inj hc).symm
      exact ⟨rfl, rfl, rfl⟩
  | _ =>
    obtain rfl : v = w := Option.some.inj hc
    exact ⟨rfl, rfl, rfl⟩

/-! ## A list -/

theorem copyAll_iff {l : List Mqtt5Property} (h : ∀ p ∈ l, p.Stored) : (∃ l', copyAll l = some l') ↔
    ∀ p ∈ l, p.Filled := by
  induction l with
  | nil => exact iff_of_true ⟨[], rfl⟩ (by simp)
  | cons p l ih =>
    have hp : (∃ w, copyValue p.identifier.kind p.value = some w) ↔ p.Filled :=
      copyValue_iff (h p (List.mem_cons_self ..)).value
    have hl := ih (fun q hq => h q (List.mem_cons_of_mem _ hq))
    rw [List.forall_mem_cons, ← hp, ← hl]
    constructor
    · rintro ⟨l', hl'⟩
      obtain ⟨w, hw, rest, hrest, -⟩ := by simpa [copyAll, Option.bind_eq_some_iff] using hl'
      exact ⟨⟨w, hw⟩, ⟨rest, hrest⟩⟩
    · rintro ⟨⟨w, hw⟩, ⟨rest, hrest⟩⟩
      exact ⟨⟨p.identifier, w, false⟩ :: rest, by simp only [copyAll, hw, hrest, Option.bind_eq_bind,
        Option.bind_some]⟩

/-- Entry by entry the copy says the same and takes the same bytes. -/
theorem copyAll_same {l l' : List Mqtt5Property} (h : ∀ p ∈ l, p.Stored) (hc : copyAll l = some l') :
    l'.map Mqtt5Property.said = l.map Mqtt5Property.said ∧ l'.map propertyWrite = l.map propertyWrite ∧
      l'.map getLength = l.map getLength := by
  induction l generalizing l' with
  | nil =>
    obtain rfl : [] = l' := Option.some.inj hc
    exact ⟨rfl, rfl, rfl⟩
  | cons p l ih =>
    obtain ⟨w, hw, rest, hrest, rfl⟩ := by simpa [copyAll, Option.bind_eq_some_iff] using hc
    obtain ⟨hsaid, hwrite, hlength⟩ := copyValue_same (h p (List.mem_cons_self ..)).value hw
    obtain ⟨hs, hws, hls⟩ := ih (fun q hq => h q (List.mem_cons_of_mem _ hq)) hrest
    refine ⟨?_, ?_, ?_⟩
    · rw [List.map_cons, List.map_cons, hs]
      simp only [Mqtt5Property.said, hsaid]
    · rw [List.map_cons, List.map_cons, hws]
      simp only [propertyWrite, hwrite]
    · rw [List.map_cons, List.map_cons, hls]
      simp only [getLength, hlength]

/-- A section is made of what its entries take. -/
theorem writeAll_congr {l l' : List Mqtt5Property} (hw : l'.map propertyWrite = l.map propertyWrite)
    (hl : l'.map getLength = l.map getLength) (writeLen : Bool) : writeAll l' writeLen = writeAll l writeLen := by
  have hfrom (l : List Mqtt5Property) : propertyWriteFrom l = (l.map propertyWrite).foldr andThen ([],
      .success) := by
    induction l with
    | nil => rfl
    | cons p l ih => rw [propertyWriteFrom, ih, List.map_cons, List.foldr_cons]
  have hsum (l : List Mqtt5Property) : getLengthAll l = (l.map getLength).foldl addInt 0 := by
    rw [List.foldl_map]
    rfl
  unfold writeAll
  rw [hfrom l', hfrom l, hsum l', hsum l, hw, hl]

/-- A list that has been built goes out whole. -/
theorem outgoing_built {l : List Mqtt5Property} (h : ∀ p ∈ l, p.Stored) : outgoingProperties l = l := by
  cases l with
  | nil => rfl
  | cons p l => exact if_pos (h p (List.mem_cons_self ..)).generated

/-- A list that has been built is copied, and says the same, and a message of QoS 1 or 2 carries what one of
    QoS 0 would, exactly when no string in it is empty. -/
theorem copy_iff_filled {l : List Mqtt5Property} (h : Built l) :
    (∃ l', copyAll l = some l' ∧ l'.map Mqtt5Property.said = l.map Mqtt5Property.said ∧
      ∀ qos, qos ≠ 0 → ∃ out out0, publishProperties qos l = some out ∧ publishProperties 0 l = some out0 ∧
        writeAll out true = writeAll out0 true) ↔
    ∀ p ∈ l, p.Filled := by
  have hs := built_entries h
  rw [← copyAll_iff hs]
  constructor
  · rintro ⟨l', hl, -⟩
    exact ⟨l', hl⟩
  · rintro ⟨l', hl⟩
    obtain ⟨hsaid, hwrite, hlength⟩ := copyAll_same hs hl
    refine ⟨l', hl, hsaid, fun qos hq => ⟨l', l, ?_, ?_, writeAll_congr hwrite hlength true⟩⟩
    · rw [publishProperties, if_neg hq, outgoing_built hs, hl]
    · rw [publishProperties, if_pos rfl, outgoing_built hs]

/-- A content type and an empty correlation data. -/
def filled : List Mqtt5Property :=
  [⟨.contentType, copyString (some (CString.of [116])), true⟩,
    ⟨.correlationData, (⟨none, 0⟩ : MqttString Bytes), true⟩]

theorem filled_built : Built filled := by
  have hadd := runCall_contentType (v := CString.of [116]) (by decide) (by decide) []
  exact .add _ filled (.binary [] 0) 9 (.add [] _ (.string (some (CString.of [116]))) 3 .nil trivial hadd)
    (Nat.zero_le _) rfl

theorem copy_iff_filled_filled : ∃ l', copyAll filled = some l' ∧
    l'.map Mqtt5Property.said = filled.map Mqtt5Property.said := by
  have hfilled : ∀ p ∈ filled, p.Filled := by
    refine List.forall_mem_cons.mpr ⟨?_, List.forall_mem_cons.mpr ⟨trivial, List.forall_mem_nil _⟩⟩
    show (copyString (some (CString.of [116]))).text.bytes ≠ []
    rw [copyString_text]
    decide
  obtain ⟨l', hl, hsaid, -⟩ := (copy_iff_filled filled_built).mpr hfilled
  exact ⟨l', hl, hsaid⟩

/-- An empty content type is added, and the copy dereferences NULL. -/
theorem empty_not_copied : ¬ ∀ l, Built l → ∃ l', copyAll l = some l' ∧
    l'.map Mqtt5Property.said = l.map Mqtt5Property.said := by
  intro h
  have hadd := runCall_contentType (v := CString.empty) (by decide) (by decide) []
  obtain ⟨l', hl, -⟩ := h _ (.add [] _ (.string (some CString.empty)) 3 .nil trivial hadd)
  cases hl

end Artemisia.Property.Raw
