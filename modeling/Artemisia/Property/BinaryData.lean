/-
  Artemisia.Property.BinaryData — binary properties from Swift (`BinaryId` in `Mosquitto+Properties.swift`).

  `add_prop_value` passes `&data`, the address of the 16 bytes of a `Data` struct, and
  `mosquitto_property_add_binary` copies as many bytes from there as the value has. Foundation keeps a value of at
  most 14 bytes in the struct, and a longer one behind a pointer: then the struct has a range and the pointer,
  whatever the bytes of the value are.

  Proved:
  - `addPropValue_ok`:    what is added are the bytes that lie at `&data`.
  - `kept_iff`:           a value is read back exactly when the list had none of the identifier, and the value
                          is kept in the struct, or what lies there happens to spell it.
  - `kept_outline_unique`: of the longer values of one length at most one is.
-/
import Artemisia.Property.Swift

namespace Artemisia.Property

structure BinaryId where
  code : Nat
  typed : (PropId.ofCode code).map PropId.kind = some .binary

def BinaryId.id (i : BinaryId) : PropertyId := ⟨i.code, .binary, i.typed⟩

/-! ## Adding -/

/-- What lies in memory from the address of a `Data` variable on. The bytes of a longer value are elsewhere:
    `outline n` is what is found in its place when it has `n` bytes. -/
def structBytes (outline : Nat → Nat → UInt8) (value : Bytes) : Bytes :=
  if value.length ≤ 14 then value else (List.range value.length).map (outline value.length)

/-- `add_prop_value`, for a value whose length is a `UInt16`. -/
def addPropValue (outline : Nat → Nat → UInt8) (i : BinaryId) (value : Bytes) (props : List MosquittoProperty) :
    Except Rc (List MosquittoProperty) :=
  addBinary props i.code (structBytes outline value) (UInt16.ofNat value.length)

section Adding

variable {outline : Nat → Nat → UInt8} {i : BinaryId} {value : Bytes} {props : List MosquittoProperty}

@[simp] theorem length_structBytes : (structBytes outline value).length = value.length := by
  unfold structBytes
  split
  · rfl
  · rw [List.length_map, List.length_range]

/-- The call succeeds, and adds what lies in the struct. -/
theorem addPropValue_ok (h : value.length ≤ 65535) :
    ∃ p, addPropValue outline i value props = .ok (props ++ [p]) ∧
    p.identifier.code = i.code ∧ p.valueAs .binary = some (structBytes outline value) := by
  obtain ⟨id, hid, hkind⟩ := Option.map_eq_some_iff.mp i.typed
  have htake : (structBytes outline value).take (UInt16.ofNat value.length).toNat = structBytes
      outline value := by
    rw [UInt16.toNat_ofNat', Nat.mod_eq_of_lt (by omega),
      List.take_of_length_le (Nat.le_of_eq length_structBytes)]
  have hadd : addPropValue outline i value props = .ok (props ++ [⟨id, hkind ▸ structBytes outline value⟩]) := by
    unfold addPropValue addBinary addValue
    rw [hid, htake]
    exact dif_pos hkind
  obtain ⟨p, hp, hcode, hvalue⟩ := addValue_ok (k := .binary) hadd
  rw [htake] at hvalue
  exact ⟨p, by rw [hadd, ← hp], hcode, hvalue⟩

/-! ## Reading back -/

/-- The value is added, and reading the identifier returns it last. -/
def Kept (outline : Nat → Nat → UInt8) (i : BinaryId) (value : Bytes) (props : List MosquittoProperty) : Prop :=
  ∃ (l : List MosquittoProperty) (fuel : Nat) (before : List Bytes),
    addPropValue outline i value props = .ok l ∧ readPropValue fuel i.id l = some (before ++ [value])

theorem entries_added {p : MosquittoProperty} (hp : p.identifier.code = i.code) :
    entries (props ++ [p]) i.code = entries props i.code ++ [p] := by
  unfold entries
  rw [List.filter_append, List.filter_cons_of_pos (by simpa using hp), List.filter_nil]

/-- A second property of the identifier has the reader go round for ever. -/
theorem kept_iff_spelled (h : value.length ≤ 65535) :
    Kept outline i value props ↔ entries props i.code = [] ∧ structBytes outline value = value := by
  obtain ⟨p, hadd, hcode, hvalue⟩ : ∃ p, addPropValue outline i value props = .ok (props ++ [p]) ∧
      p.identifier.code = i.code ∧ p.valueAs .binary = some (structBytes outline value) := addPropValue_ok h
  have hentries : entries (props ++ [p]) i.code = entries props i.code ++ [p] := entries_added hcode
  have hread (hnone : entries props i.code = []) :
      readPropValue 2 i.id (props ++ [p]) = some [structBytes outline value] := by
    rw [hnone, List.nil_append] at hentries
    have hone : entries (props ++ [p]) i.id.code = [p] := hentries
    have hvalues : valuesOf i.id (props ++ [p]) = [structBytes outline value] := valuesOf_one hone hvalue
    exact (readPropValue_of_one (by rw [hone]; exact Nat.le_refl _)).trans (congrArg some hvalues)
  constructor
  · rintro ⟨l, fuel, before, hl, hr⟩
    rw [hadd] at hl
    obtain rfl := Except.ok.inj hl
    have hnone : entries props i.code = [] := by
      by_contra hne
      have htwo : 2 ≤ (entries (props ++ [p]) i.id.code).length := by
        have hpos := List.length_pos_iff.mpr hne
        have hlen : (entries (props ++ [p]) i.id.code).length = (entries props i.code).length + 1 := by
          show (entries (props ++ [p]) i.code).length = _
          rw [hentries, List.length_append, List.length_singleton]
        omega
      rw [readPropValue_of_two htwo] at hr
      cases hr
    have hboth : before ++ [value] = [structBytes outline value] := readPropValue_unique hr (hread hnone)
    have hlast := congrArg List.getLast? hboth
    rw [List.getLast?_concat, List.getLast?_singleton] at hlast
    exact ⟨hnone, (Option.some.inj hlast).symm⟩
  · rintro ⟨hnone, hs⟩
    refine ⟨props ++ [p], 2, [], hadd, ?_⟩
    exact (hread hnone).trans (congrArg (fun v => some [v]) hs)

/-- A value of at most 14 bytes is in the struct. -/
theorem structBytes_eq_iff : structBytes outline value = value ↔
    value.length ≤ 14 ∨ ∀ (j : Nat) (h : j < value.length), outline value.length j = value[j] := by
  unfold structBytes
  by_cases hshort : value.length ≤ 14
  · rw [if_pos hshort]
    exact iff_of_true rfl (.inl hshort)
  rw [if_neg hshort, or_iff_right hshort]
  constructor
  · intro hs j hj
    have hget := congrArg (fun l => l[j]?) hs
    simpa [hj] using hget
  · intro hall
    refine List.ext_getElem (by simp) ?_
    intro j hj hj'
    simpa using hall j hj'

/-- The value survives when no property of the identifier is there yet, and it is short enough for the
    struct, or the bytes that lie there (a range, a pointer, and what is after the variable) are by chance those
    of the value. -/
theorem kept_iff (h : value.length ≤ 65535) : Kept outline i value props ↔
    entries props i.code = [] ∧
      (value.length ≤ 14 ∨ ∀ (j : Nat) (h : j < value.length), outline value.length j = value[j]) := by
  rw [kept_iff_spelled h, structBytes_eq_iff]

end Adding

def BinaryId.correlationData : BinaryId := ⟨9, mqttPropCorrelationData.typed⟩

/-- A `Data` of `n` bytes as it lies in memory: the range from 0 to `n` in two 32-bit integers, then the
    pointer to the storage. -/
def sliceOf (n j : Nat) : UInt8 :=
  [0, 0, 0, 0, UInt8.ofNat n, UInt8.ofNat (n / 256), 0, 0, 64, 195, 0, 0, 1, 96, 0, 64].getD j 0

theorem kept_iff_short : Kept sliceOf .correlationData [1, 2, 3] [] ↔
    entries [] BinaryId.correlationData.code = [] ∧
    ([1, 2, 3].length ≤ 14 ∨ ∀ (j : Nat) (h : j < [1, 2, 3].length), sliceOf [1, 2, 3].length j = [1, 2, 3][j]) :=
  @kept_iff sliceOf .correlationData [1, 2, 3] [] (by decide)

/-- Fifteen letters come back as the range and the pointer. -/
theorem fifteen_not_kept : ¬ Kept sliceOf .correlationData (List.replicate 15 97) [] := by
  intro h
  have hs : structBytes sliceOf (List.replicate 15 97) = List.replicate 15 97 :=
    ((kept_iff_spelled (by decide)).mp h).2
  exact absurd hs (by decide)

/-- Of the longer values of one length, at most one is kept: what lies at `&data` does not depend on the bytes. -/
theorem kept_outline_unique {outline : Nat → Nat → UInt8} {i : BinaryId} {v w : Bytes}
    {props props' : List MosquittoProperty} (hv : v.length ≤ 65535) (hlong : 14 < v.length)
    (hlen : w.length = v.length) (hkv : Kept outline i v props) (hkw : Kept outline i w props') : v = w := by
  obtain ⟨-, hsv⟩ := (kept_iff_spelled hv).mp hkv
  obtain ⟨-, hsw⟩ := (kept_iff_spelled (by omega)).mp hkw
  unfold structBytes at hsv hsw
  rw [if_neg (by omega)] at hsv hsw
  rw [← hsv, ← hsw, hlen]

end Artemisia.Property
