/-
  Artemisia.Property.Prefix — the strings of a property list against their length prefixes of two bytes.

  The check of a string lets 65536 bytes through, and longer ones whose length wraps around to as little; a
  prefix says 65535 at most. And the length of a list is an `int`.

  Proved:
  - `whole_iff_short`:   a string goes out whole behind its length exactly when it has at most 65535 bytes.
  - `prefixes_iff`:      the strings of a list all do, and the length of the list is that of what is written,
                         exactly when they are all short enough and an `int` can say how much they take.
  - `longest_not_whole`: a string of 65536 bytes is accepted, and none of it is written.
-/
import Mathlib.Data.List.Forall2
import Artemisia.Property.Raw
import Artemisia.Property.Utf8

namespace Artemisia.Property.Raw

open Artemisia.Property

/-! ## Lists of strings -/

/-- The lists that calls of `mosquitto_property_add_string` and `mosquitto_property_add_string_pair` make. -/
inductive Texts : List Mqtt5Property → Prop where
  | nil : Texts []
  | string (l l' : List Mqtt5Property) (identifier : Nat) (value : Option CString) :
      Texts l → addString l identifier value = .ok l' → Texts l'
  | pair (l l' : List Mqtt5Property) (identifier : Nat) (name value : Option CString) :
      Texts l → addStringPair l identifier name value = .ok l' → Texts l'

def textsValue : (k : Kind) → RawValue k → List (MqttString CString)
  | .string, v => [v]
  | .pair, v => [v.1, v.2]
  | .byte, _ | .int16, _ | .int32, _ | .varint, _ | .binary, _ => []

/-- The strings of an entry, in the order in which they are written. -/
def Mqtt5Property.texts (p : Mqtt5Property) : List (MqttString CString) := textsValue p.identifier.kind p.value

/-- What an entry should take: its identifier, and for each string two bytes and the string. -/
def Mqtt5Property.size (p : Mqtt5Property) : Nat := 1 + (p.texts.map (fun s => 2 + s.text.bytes.length)).sum

/-- A string behind its length of two bytes. -/
def Prefixed (s : MqttString CString) (w : Bytes) : Prop :=
  ∃ hi lo : UInt8, w = hi :: lo :: s.text.bytes ∧ hi.toNat * 256 + lo.toNat = s.text.bytes.length

/-- Each string of the entry is written whole behind its length. -/
def Mqtt5Property.Whole (p : Mqtt5Property) : Prop :=
  ∃ ws, (propertyWrite p).1 = UInt8.ofNat p.identifier.code :: ws.flatten ∧ List.Forall₂ Prefixed p.texts ws

/-- No string of the entry is longer than its length can say. -/
def Mqtt5Property.ShortTexts (p : Mqtt5Property) : Prop := ∀ s ∈ p.texts, s.text.bytes.length ≤ 65535

/-- An entry of such a list. -/
structure Mqtt5Property.IsText (p : Mqtt5Property) : Prop where
  copied : ∀ s ∈ p.texts, Copied s
  kind : p.identifier.kind = .string ∨ p.identifier.kind = .pair

theorem addValue_texts {k : Kind} {l l' : List Mqtt5Property} {identifier : Nat} {v : RawValue k}
    (h : addValue k l identifier v = .ok l') (hk : k = .string ∨ k = .pair)
    (hv : ∀ s ∈ textsValue k v, Copied s) :
    ∃ p, l' = l ++ [p] ∧ p.IsText := by
  unfold addValue at h
  split at h
  · cases h
  · split at h
    · rename_i hi
      subst hi
      cases h
      exact ⟨_, rfl, hv, hk⟩
    · cases h

theorem texts_entries {l : List Mqtt5Property} (h : Texts l) : ∀ p ∈ l, p.IsText := by
  have more {l l' : List Mqtt5Property} (ih : ∀ p ∈ l, p.IsText) (hadd : ∃ p, l' = l ++ [p] ∧ p.IsText) :
      ∀ p ∈ l', p.IsText := by
    obtain ⟨p, rfl, hp⟩ := hadd
    intro q hq
    rcases List.mem_append.mp hq with hq | hq
    · exact ih q hq
    · rw [List.mem_singleton.mp hq]
      exact hp
  induction h with
  | nil => exact fun p hp => (List.not_mem_nil hp).elim
  | string l l' identifier value _ hadd ih =>
    unfold addString at hadd
    split at hadd
    · cases hadd
    · rename_i hv
      refine more ih (addValue_texts (k := .string) hadd (.inl rfl) ?_)
      exact List.forall_mem_singleton.mpr (copied_of_check hv)
  | pair l l' identifier name value _ hadd ih =>
    unfold addStringPair at hadd
    split at hadd
    · cases hadd
    split at hadd
    · cases hadd
    split at hadd
    · cases hadd
    rename_i hn hv
    refine more ih (addValue_texts (k := .pair) hadd (.inr rfl) ?_)
    exact List.forall_mem_cons.mpr ⟨copied_of_check hn, List.forall_mem_singleton.mpr (copied_of_check hv)⟩

/-! ## One entry -/

/-- What a length of two bytes cannot say is not written behind it. -/
theorem Prefixed.short {s : MqttString CString} {w : Bytes} (h : Prefixed s w) : s.text.bytes.length ≤ 65535 := by
  obtain ⟨hi, lo, -, hlen⟩ := h
  have := hi.toNat_lt
  have := lo.toNat_lt
  omega

theorem writeString_prefixed {s : MqttString CString} (h : Copied s) (hs : s.text.bytes.length ≤ 65535) :
    Prefixed s (writeString s) := by
  have hn : (UInt16.ofNat s.text.bytes.length).toNat = s.text.bytes.length := ofNat_toNat16 (by omega)
  rw [writeString_said h hs, writeString_of_le hs]
  refine ⟨UInt8.ofNat (s.text.bytes.length / 256), UInt8.ofNat (s.text.bytes.length % 256), ?_, ?_⟩
  · simp only [Property.writeBinary, writeUint16, hn, List.cons_append, List.nil_append]
  · rw [ofNat_toNat8 (by omega), ofNat_toNat8 (by omega)]
    omega

theorem length_prefixed {s : MqttString CString} {w : Bytes} (h : Prefixed s w) :
    w.length = 2 + s.text.bytes.length := by
  obtain ⟨hi, lo, rfl, -⟩ := h
  simp only [List.length_cons]
  omega

theorem writeValue_texts {k : Kind} (hk : k = .string ∨ k = .pair) (v : RawValue k) :
    writeValue k v = (((textsValue k v).map writeString).flatten, .success) := by
  rcases hk with rfl | rfl
  · show (writeString v, Rc.success) = ([writeString v].flatten, .success)
    rw [List.flatten_singleton]
  · show (writeString v.1 ++ writeString v.2, Rc.success) = ([writeString v.1, writeString v.2].flatten, .success)
    rw [List.flatten_cons, List.flatten_singleton]

theorem propertyWrite_texts {p : Mqtt5Property} (h : p.IsText) :
    propertyWrite p = (UInt8.ofNat p.identifier.code :: (p.texts.map writeString).flatten, .success) := by
  unfold propertyWrite
  rw [writeVarint_code, writeValue_texts h.kind]
  rfl

theorem whole_iff_short {p : Mqtt5Property} (h : p.IsText) : p.Whole ↔ p.ShortTexts := by
  constructor
  · rintro ⟨ws, -, hws⟩
    have hboth := hws.imp (S := fun s w => s.text.bytes.length ≤ 65535 ∧ Prefixed s w)
        (fun _ _ hw => ⟨hw.short, hw⟩)
    exact ((List.forall₂_and_left _ _).mp hboth).1
  · intro hs
    refine ⟨p.texts.map writeString, by rw [propertyWrite_texts h], ?_⟩
    rw [List.forall₂_map_right_iff, List.forall₂_same]
    exact fun s hmem => writeString_prefixed (h.copied s hmem) (hs s hmem)

/-- Short strings take what they should. -/
theorem length_short {p : Mqtt5Property} (h : p.IsText) (hs : p.ShortTexts) :
    (propertyWrite p).1.length = p.size := by
  have hmap : (p.texts.map writeString).map List.length = p.texts.map (fun s => 2 + s.text.bytes.length) := by
    rw [List.map_map]
    exact List.map_congr_left fun s hmem => length_prefixed (writeString_prefixed (h.copied s hmem) (hs s hmem))
  rw [propertyWrite_texts h, List.length_cons, List.length_flatten, hmap, Mqtt5Property.size, Nat.add_comm]

/-! ## Lengths as an `int` -/

theorem addInt_toInt (a b : Nat) : addInt (toInt a) b = toInt (a + b) := by
  unfold addInt toInt
  rw [Int.bmod_add_bmod, Int.natCast_add]

theorem toInt_eq_iff {n : Nat} : toInt n = n ↔ n < 2147483648 := by
  constructor
  · intro h
    have hlt : toInt n < 2147483648 := Int.bmod_lt (by decide)
    omega
  · exact toInt_of_lt

theorem getLength_short {p : Mqtt5Property} (h : p.IsText) (hs : p.ShortTexts) : getLength p = p.size := by
  have hlen (s : MqttString CString) (hmem : s ∈ p.texts) : s.len = s.text.bytes.length :=
    (h.copied s hmem).len.trans (toInt_of_lt (Nat.lt_of_le_of_lt (hs s hmem) (by decide)))
  have hvalue {k : Kind} (hk : k = .string ∨ k = .pair) (v : RawValue k)
      (hl : ∀ s ∈ textsValue k v, s.len = s.text.bytes.length ∧ s.text.bytes.length ≤ 65535) :
      lengthValue k v = ((1 + ((textsValue k v).map (fun s => 2 + s.text.bytes.length)).sum : Nat) : Int) := by
    rcases hk with rfl | rfl
    · obtain ⟨hv, hle⟩ := hl v (List.mem_singleton_self v)
      have hint : addInt 3 (MqttString.len v) = 3 + (MqttString.text v).bytes.length := by
        rw [hv]
        exact Int.bmod_eq_of_le (by omega) (by omega)
      show addInt 3 (MqttString.len v) = ((1 + (2 + (MqttString.text v).bytes.length + 0) : Nat) : Int)
      omega
    · obtain ⟨name, value⟩ := v
      obtain ⟨hn, hnle⟩ := hl name (List.mem_cons_self ..)
      obtain ⟨hv, hvle⟩ := hl value (List.mem_cons_of_mem _ (List.mem_singleton_self value))
      have hint : addInt (addInt 5 value.len) name.len = 5 + value.text.bytes.length +
          name.text.bytes.length := by
        have hfirst : addInt 5 value.len = 5 + value.text.bytes.length := by
          rw [hv]
          exact Int.bmod_eq_of_le (by omega) (by omega)
        rw [hfirst, hn]
        exact Int.bmod_eq_of_le (by omega) (by omega)
      show addInt (addInt 5 value.len) name.len =
        ((1 + (2 + name.text.bytes.length + (2 + value.text.bytes.length + 0)) : Nat) : Int)
      omega
  exact hvalue h.kind p.value fun s hmem => ⟨hlen s hmem, hs s hmem⟩

/-! ## A list -/

section Lists

variable {l : List Mqtt5Property}

theorem getLengthAll_short (h : ∀ p ∈ l, p.IsText) (hs : ∀ p ∈ l, p.ShortTexts) :
    getLengthAll l = toInt (l.map Mqtt5Property.size).sum := by
  have hfold (a : Nat) : l.foldl (fun len p => addInt len (getLength p)) (toInt a) =
      toInt (a + (l.map Mqtt5Property.size).sum) := by
    induction l generalizing a with
    | nil => rw [List.foldl_nil, List.map_nil, List.sum_nil, Nat.add_zero]
    | cons p l ih =>
      rw [List.foldl_cons, getLength_short (h p (List.mem_cons_self ..)) (hs p (List.mem_cons_self ..)),
        addInt_toInt,
        ih (fun q hq => h q (List.mem_cons_of_mem _ hq)) (fun q hq => hs q (List.mem_cons_of_mem _ hq)),
          List.map_cons,
        List.sum_cons, Nat.add_assoc]
  have hzero : (0 : Int) = toInt 0 := (toInt_of_lt (by decide)).symm
  rw [getLengthAll, hzero, hfold, Nat.zero_add]

theorem length_writeAll_short (h : ∀ p ∈ l, p.IsText) (hs : ∀ p ∈ l, p.ShortTexts) :
    (writeAll l false).1.length = (l.map Mqtt5Property.size).sum := by
  show (propertyWriteFrom l).1.length = _
  induction l with
  | nil => rfl
  | cons p l ih =>
    have hp := h p (List.mem_cons_self ..)
    have hok : (propertyWrite p).2 = .success := by rw [propertyWrite_texts hp]
    rw [propertyWriteFrom, andThen, if_pos hok, List.length_append,
      length_short hp (hs p (List.mem_cons_self ..)),
      ih (fun q hq => h q (List.mem_cons_of_mem _ hq)) (fun q hq => hs q (List.mem_cons_of_mem _ hq)),
        List.map_cons,
      List.sum_cons]

/-- The length of a list of strings is that of what is written, and each string is written whole behind its own,
    exactly when no string has more than 65535 bytes and an `int` can say how much they all take. -/
theorem prefixes_iff (h : Texts l) : (getLengthAll l = (writeAll l false).1.length ∧ ∀ p ∈ l, p.Whole) ↔
    (∀ p ∈ l, ∀ s ∈ p.texts, s.text.bytes.length ≤ 65535) ∧ (l.map Mqtt5Property.size).sum < 2147483648 := by
  have hentries := texts_entries h
  have hwhole : (∀ p ∈ l, p.Whole) ↔ ∀ p ∈ l, p.ShortTexts := forall₂_congr fun p hp =>
      whole_iff_short (hentries p hp)
  rw [hwhole, and_comm]
  refine and_congr_right fun hs => ?_
  rw [getLengthAll_short hentries hs, length_writeAll_short hentries hs]
  exact toInt_eq_iff

end Lists

/-! ## Examples -/

def contentType (v : CString) : List Mqtt5Property := [⟨.contentType, copyString (some v), true⟩]

theorem contentType_texts {v : CString} (hlt : v.bytes.length < 2147483648)
    (hv : validateUtf8 v.bytes = .success) :
    Texts (contentType v) := .string [] _ 3 (some v) .nil (runCall_contentType hlt hv [])

theorem prefixes_iff_letter : getLengthAll (contentType (CString.of [116])) =
    (writeAll (contentType (CString.of [116])) false).1.length := by
  have htext : (copyString (some (CString.of [116]))).text.bytes = [116] :=
    congrArg CString.bytes (copyString_text _)
  refine ((prefixes_iff (contentType_texts (by decide) (by decide))).mpr ⟨?_, ?_⟩).1
  · refine List.forall_mem_singleton.mpr (List.forall_mem_singleton.mpr ?_)
    rw [htext]
    decide
  · show 1 + (2 + (copyString (some (CString.of [116]))).text.bytes.length + 0) + 0 < 2147483648
    rw [htext]
    decide

def letters (n : Nat) : CString := ⟨List.replicate n 97, letters_nonzero n⟩

theorem validateUtf8_letters {n : Nat} (h : n ≤ 65536) : validateUtf8 (letters n).bytes = .success := by
  have hspelled : Utf8.encode 97 = [97] := by decide
  refine validateUtf8_iff.mpr ⟨by simpa [letters] using h, List.replicate n 97, fun cp hcp => ?_, ?_⟩
  · rw [List.eq_of_mem_replicate hcp]
    exact ⟨⟨by decide, by decide⟩, ⟨by decide, by decide⟩, by decide, by decide, by decide⟩
  · rw [List.flatMap_replicate, hspelled, List.flatten_replicate_singleton]
    rfl

/-- A string of 65536 bytes is added, and is not written whole. -/
theorem longest_not_whole : ¬ ∀ l, Texts l → getLengthAll l = (writeAll l false).1.length ∧ ∀ p ∈ l, p.Whole := by
  intro h
  have hlen : (letters 65536).bytes.length = 65536 := List.length_replicate
  have hlist := contentType_texts (v := letters 65536) (by rw [hlen]; decide)
      (validateUtf8_letters (Nat.le_refl _))
  have hentry : (⟨.contentType, copyString (some (letters 65536)), true⟩ : Mqtt5Property) ∈
      contentType (letters 65536) :=
    List.mem_singleton_self _
  have hshort := (whole_iff_short (texts_entries hlist _ hentry)).mp ((h _ hlist).2 _ hentry)
  have hle := hshort _ (List.mem_singleton_self _)
  rw [copyString_text, Option.getD_some, hlen] at hle
  omega

end Artemisia.Property.Raw
