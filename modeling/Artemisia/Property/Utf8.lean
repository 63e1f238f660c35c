/-
  Artemisia.Property.Utf8 — what the check of `utf8_mosq.c` accepts: the texts of MQTT 5, in UTF-8. So a
  Swift string that is made of it has the same bytes.

  Proved:
  - `codePoint_reads`:    each turn of the check takes the spelling of a code point that such a text may have.
  - `validateUtf8_iff`:   the check accepts the texts of up to 65536 bytes, and nothing else.
  - `validateUtf8_valid`: an accepted string encodes a text of characters.
-/
import Artemisia.Lib.Codec
import Artemisia.Lib.Utf8
import Artemisia.Property.Datatypes

namespace Artemisia.Property

open Codec Utf8

def encodeText (text : List Char) : Bytes := text.flatMap String.utf8EncodeChar

/-- The bytes that `String(data:encoding:)` makes a string of. -/
def ValidUtf8 (bytes : Bytes) : Prop := ∃ text, bytes = encodeText text

theorem validUtf8_iff {bytes : Bytes} : bytes.toByteArray.IsValidUTF8 ↔ ValidUtf8 bytes := by
  constructor
  · intro hx
    obtain ⟨text, h⟩ := hx
    refine ⟨text, ?_⟩
    have := congrArg (fun a => a.data.toList) h
    rwa [List.utf8Encode, List.toList_data_toByteArray, List.toList_data_toByteArray] at this
  · intro hx
    obtain ⟨text, rfl⟩ := hx
    exact ⟨text, rfl⟩

instance (bytes : Bytes) : Decidable (ValidUtf8 bytes) := decidable_of_iff _ validUtf8_iff

/-! ## The texts of MQTT 5 -/

/-- Those without control characters and non-characters. -/
structure Allowed (cp : Nat) : Prop where
  scalar : Scalar cp
  noControl : ¬ cp ≤ 0x1F ∧ ¬ (0x7F ≤ cp ∧ cp ≤ 0x9F)
  noNonCharacter : ¬ (0xFDD0 ≤ cp ∧ cp ≤ 0xFDEF) ∧ cp % 0x10000 ≠ 0xFFFE ∧ cp % 0x10000 ≠ 0xFFFF

/-- The spellings of allowed code points, one after the other. -/
def IsText (bytes : Bytes) : Prop := ∃ text : List Nat, (∀ cp ∈ text, Allowed cp) ∧ bytes = text.flatMap encode

theorem IsText.valid {bytes : Bytes} (h : IsText bytes) : ValidUtf8 bytes := by
  obtain ⟨text, hall, rfl⟩ := h
  induction text with
  | nil => exact ⟨[], rfl⟩
  | cons cp text ih =>
    obtain ⟨hcp, hrest⟩ := List.forall_mem_cons.mp hall
    obtain ⟨c, rfl⟩ := hcp.scalar.exists_char
    obtain ⟨chars, hchars⟩ := ih hrest
    exact ⟨c :: chars, by rw [List.flatMap_cons, encode_char, hchars]; rfl⟩

/-! ## Bytes -/

/-- Leading bytes by their ranges; checked for all bytes. -/
theorem utf8Head_eq (b : UInt8) : utf8Head b =
    if b.toNat = 0 then none else if b.toNat < 128 then some (1, b.toNat)
    else if b.toNat < 194 then none else if b.toNat < 224 then some (2, b.toNat - 192)
    else if b.toNat < 240 then some (3, b.toNat - 224) else if b.toNat < 245 then some (4, b.toNat - 240)
    else none := by
  have hall : ∀ i : Fin 256, utf8Head (UInt8.ofNat i.val) =
      if i.val = 0 then none else if i.val < 128 then some (1, i.val)
      else if i.val < 194 then none else if i.val < 224 then some (2, i.val - 192)
      else if i.val < 240 then some (3, i.val - 224) else if i.val < 245 then some (4, i.val - 240)
        else none := by
    decide +kernel
  simpa using hall ⟨b.toNat, b.toNat_lt⟩

/-- A continuation byte adds six bits. -/
theorem utf8Tail_cons (n cp : Nat) (b : UInt8) (s : Bytes) : utf8Tail (n + 1) cp (b :: s) =
    if 128 ≤ b.toNat ∧ b.toNat < 192 then utf8Tail n (cp * 64 + (b.toNat - 128)) s else none := by
  have hall : ∀ i : Fin 256, (UInt8.ofNat i.val &&& 0xC0 = 0x80 ↔ 128 ≤ i.val ∧ i.val < 192) ∧
      (128 ≤ i.val ∧ i.val < 192 → (UInt8.ofNat i.val &&& 0x3F).toNat = i.val - 128) := by
    decide +kernel
  obtain ⟨hmask, hbits⟩ := hall ⟨b.toNat, b.toNat_lt⟩
  simp only [UInt8.ofNat_toNat] at hmask hbits
  rw [utf8Tail, ite_not]
  by_cases hb : 128 ≤ b.toNat ∧ b.toNat < 192
  · rw [if_pos hb, if_pos (hmask.mpr hb), hbits hb, ← Nat.shiftLeft_add_eq_or_of_lt (by omega), Nat.shiftLeft_eq]
  · rw [if_neg hb, if_neg (fun h => hb (hmask.mp h))]

theorem utf8Tail_succ {n cp : Nat} {s : Bytes} {r : Nat × Bytes} (h : utf8Tail (n + 1) cp s = some r) :
    ∃ b s', s = b :: s' ∧ Continues b ∧ utf8Tail n (cp * 64 + (b.toNat - 128)) s' = some r := by
  cases s with
  | nil => cases h
  | cons b s =>
    rw [utf8Tail_cons] at h
    split at h
    · exact ⟨b, s, rfl, ‹_›, h⟩
    · cases h

theorem utf8Tail_ofNat (n cp k : Nat) (hk : k < 64) (s : Bytes) :
    utf8Tail (n + 1) cp (UInt8.ofNat (0x80 + k) :: s) = utf8Tail n (cp * 64 + k) s := by
  have hb : (UInt8.ofNat (0x80 + k)).toNat = 0x80 + k := UInt8.toNat_ofNat_of_lt' (by show _ < 256; omega)
  rw [utf8Tail_cons, hb, if_pos (by omega), Nat.add_sub_cancel_left]

theorem utf8Head_ofNat {k : Nat} (hk : k < 256) : utf8Head (UInt8.ofNat k) =
    if k = 0 then none else if k < 128 then some (1, k) else if k < 194 then none
    else if k < 224 then some (2, k - 192) else if k < 240 then some (3, k - 224)
    else if k < 245 then some (4, k - 240) else none := by
  rw [utf8Head_eq, UInt8.toNat_ofNat_of_lt' hk]

/-- The last tests of a turn: the code point is allowed, and takes as many bytes as it was written in. -/
theorem utf8Refused_iff {codelen cp : Nat} (hmax : codelen ≠ 4 → cp ≤ 0x10FFFF) : utf8Refused codelen cp = false ↔
    Allowed cp ∧ (codelen = 3 → 0x800 ≤ cp) ∧ (codelen = 4 → 0x10000 ≤ cp) := by
  have hlast : cp &&& 0xFFFF = cp % 0x10000 := Nat.and_two_pow_sub_one_eq_mod cp 16
  rw [utf8Refused, decide_eq_false_iff_not, hlast]
  constructor
  · intro h
    exact ⟨⟨⟨by omega, by omega⟩, ⟨by omega, by omega⟩, by omega, by omega, by omega⟩, by omega, by omega⟩
  · rintro ⟨⟨⟨hle, hs⟩, ⟨hc0, hc1⟩, hn0, hn1, hn2⟩, h3, h4⟩
    omega

/-! ## A turn of the check -/

/-- The loop body, as a reader of a code point. -/
def readCodePoint : Bytes → Except Rc (Nat × Bytes)
  | [] => .error .malformedUtf8
  | b :: s =>
    match utf8Head b with
    | none => .error .malformedUtf8
    | some (codelen, first) =>
      match utf8Tail (codelen - 1) first s with
      | none => .error .malformedUtf8
      | some (codepoint, rest) => if utf8Refused codelen codepoint then .error .malformedUtf8
          else .ok (codepoint, rest)

theorem readCodePoint_of {b : UInt8} {s rest : Bytes} {codelen first cp : Nat}
    (hhead : utf8Head b = some (codelen, first))
    (htail : utf8Tail (codelen - 1) first s = some (cp, rest)) (href : utf8Refused codelen cp = false) :
    readCodePoint (b :: s) = .ok (cp, rest) := by
  simp [readCodePoint, hhead, htail, href]

theorem readCodePoint_ok {s rest : Bytes} {cp : Nat} (h : readCodePoint s = .ok (cp, rest)) :
    ∃ b s' codelen first,
    s = b :: s' ∧ utf8Head b = some (codelen, first) ∧ utf8Tail (codelen - 1) first s' = some (cp, rest) ∧
      utf8Refused codelen cp = false := by
  cases s with
  | nil => cases h
  | cons b s =>
    simp only [readCodePoint] at h
    split at h
    · cases h
    rename_i codelen first hhead
    split at h
    · cases h
    rename_i codepoint rest' htail
    split at h
    · cases h
    rename_i href
    obtain ⟨rfl, rfl⟩ := Prod.mk.inj (Except.ok.inj h)
    exact ⟨b, s, codelen, first, rfl, hhead, htail, by simpa using href⟩

theorem readCodePoint_error {s : Bytes} {rc : Rc} (h : readCodePoint s = .error rc) : rc ≠ .success := by
  unfold readCodePoint at h
  repeat' split at h
  all_goals
    cases h
    try decide

/-- An allowed code point is read back, whatever follows. -/
theorem readCodePoint_encode {cp : Nat} (h : Allowed cp) (s : Bytes) :
    readCodePoint (encode cp ++ s) = .ok (cp, s) := by
  obtain ⟨hle, -⟩ := h.scalar
  obtain ⟨hc0, hc1⟩ := h.noControl
  unfold encode
  split_ifs with h1 h2 h3
  · have hhead : utf8Head (UInt8.ofNat cp) = some (1, cp) := by
      rw [utf8Head_ofNat (by omega), if_neg (by omega), if_pos (by omega)]
    exact readCodePoint_of hhead rfl ((utf8Refused_iff (by omega)).mpr ⟨h, by omega, by omega⟩)
  · have hhead : utf8Head (UInt8.ofNat (0xC0 + cp / 64)) = some (2, cp / 64) := by
      rw [utf8Head_ofNat (by omega), if_neg (by omega), if_neg (by omega), if_neg (by omega), if_pos (by omega),
        Nat.add_sub_cancel_left]
    have htail : utf8Tail 1 (cp / 64) (UInt8.ofNat (0x80 + cp % 64) :: s) = some (cp, s) := by
      rw [utf8Tail_ofNat _ _ _ (Nat.mod_lt _ (by decide)), utf8Tail, show cp / 64 * 64 + cp % 64 = cp by omega]
    exact readCodePoint_of hhead htail ((utf8Refused_iff (by omega)).mpr ⟨h, by omega, by omega⟩)
  · have hhead : utf8Head (UInt8.ofNat (0xE0 + cp / 4096)) = some (3, cp / 4096) := by
      rw [utf8Head_ofNat (by omega), if_neg (by omega), if_neg (by omega), if_neg (by omega), if_neg (by omega),
        if_pos (by omega), Nat.add_sub_cancel_left]
    have htail : utf8Tail 2 (cp / 4096) (UInt8.ofNat (0x80 + cp / 64 % 64) :: UInt8.ofNat (0x80 + cp % 64) :: s) =
        some (cp, s) := by
      rw [utf8Tail_ofNat _ _ _ (Nat.mod_lt _ (by decide)), utf8Tail_ofNat _ _ _ (Nat.mod_lt _ (by decide)),
        utf8Tail,
        show (cp / 4096 * 64 + cp / 64 % 64) * 64 + cp % 64 = cp by omega]
    exact readCodePoint_of hhead htail ((utf8Refused_iff (by omega)).mpr ⟨h, by omega, by omega⟩)
  · have hhead : utf8Head (UInt8.ofNat (0xF0 + cp / 262144)) = some (4, cp / 262144) := by
      rw [utf8Head_ofNat (by omega), if_neg (by omega), if_neg (by omega), if_neg (by omega), if_neg (by omega),
        if_neg (by omega), if_pos (by omega), Nat.add_sub_cancel_left]
    have htail : utf8Tail 3 (cp / 262144) (UInt8.ofNat (0x80 + cp / 4096 % 64) ::
        UInt8.ofNat (0x80 + cp / 64 % 64) ::
        UInt8.ofNat (0x80 + cp % 64) :: s) = some (cp, s) := by
      rw [utf8Tail_ofNat _ _ _ (Nat.mod_lt _ (by decide)), utf8Tail_ofNat _ _ _ (Nat.mod_lt _ (by decide)),
        utf8Tail_ofNat _ _ _ (Nat.mod_lt _ (by decide)), utf8Tail,
        show ((cp / 262144 * 64 + cp / 4096 % 64) * 64 + cp / 64 % 64) * 64 + cp % 64 = cp by omega]
    exact readCodePoint_of hhead htail ((utf8Refused_iff (by omega)).mpr ⟨h, by omega, by omega⟩)

/-- What is read is the shortest form of an allowed code point. -/
theorem readCodePoint_only {s rest : Bytes} {cp : Nat} (h : readCodePoint s = .ok (cp, rest)) :
    Allowed cp ∧ s = encode cp ++ rest := by
  obtain ⟨b, s, codelen, first, rfl, hhead, htail, href⟩ := readCodePoint_ok h
  rw [utf8Head_eq] at hhead
  split_ifs at hhead with h0 h1 hover h2 h3 h4
  · -- one byte
    obtain ⟨rfl, rfl⟩ := Prod.mk.inj (Option.some.inj hhead)
    obtain ⟨rfl, rfl⟩ := Prod.mk.inj (Option.some.inj htail)
    obtain ⟨ha, -⟩ := (utf8Refused_iff (by omega)).mp href
    exact ⟨ha, by rw [encode_one (by omega)]; rfl⟩
  · -- two bytes
    obtain ⟨rfl, rfl⟩ := Prod.mk.inj (Option.some.inj hhead)
    obtain ⟨b1, s, rfl, hb1, htail⟩ := utf8Tail_succ htail
    obtain ⟨hcp, rfl⟩ := Prod.mk.inj (Option.some.inj htail)
    obtain ⟨hl1, hu1⟩ := hb1
    obtain ⟨ha, -⟩ := (utf8Refused_iff (by omega)).mp href
    exact ⟨ha, by rw [encode_two (by omega) ⟨hl1, hu1⟩ hcp.symm (by omega) (by omega)]; rfl⟩
  · -- three bytes
    obtain ⟨rfl, rfl⟩ := Prod.mk.inj (Option.some.inj hhead)
    obtain ⟨b1, s, rfl, hb1, htail⟩ := utf8Tail_succ htail
    obtain ⟨b2, s, rfl, hb2, htail⟩ := utf8Tail_succ htail
    obtain ⟨hcp, rfl⟩ := Prod.mk.inj (Option.some.inj htail)
    obtain ⟨hl1, hu1⟩ := hb1
    obtain ⟨hl2, hu2⟩ := hb2
    obtain ⟨ha, hlow, -⟩ := (utf8Refused_iff (by omega)).mp href
    have hlow := hlow rfl
    exact ⟨ha, by rw [encode_three (by omega) ⟨hl1, hu1⟩ ⟨hl2, hu2⟩ hcp.symm (by omega) (by omega)]; rfl⟩
  · -- four bytes
    obtain ⟨rfl, rfl⟩ := Prod.mk.inj (Option.some.inj hhead)
    obtain ⟨b1, s, rfl, hb1, htail⟩ := utf8Tail_succ htail
    obtain ⟨b2, s, rfl, hb2, htail⟩ := utf8Tail_succ htail
    obtain ⟨b3, s, rfl, hb3, htail⟩ := utf8Tail_succ htail
    obtain ⟨hcp, rfl⟩ := Prod.mk.inj (Option.some.inj htail)
    obtain ⟨ha, -, hlow⟩ := (utf8Refused_iff (by omega)).mp href
    have hlow := hlow rfl
    exact ⟨ha, by rw [encode_four (by omega) hb1 hb2 hb3 hcp.symm (by omega)]; rfl⟩

theorem codePoint_reads : Reads readCodePoint encode Allowed :=
  ⟨fun s h => readCodePoint_encode h s, readCodePoint_only⟩

/-! ## The check -/

theorem validateUtf8From_cons (fuel : Nat) (b : UInt8) (s : Bytes) : validateUtf8From (fuel + 1) (b :: s) =
    match readCodePoint (b :: s) with
    | .error rc => rc
    | .ok (_, rest) => validateUtf8From fuel rest := by
  cases hhead : utf8Head b with
  | none => simp only [validateUtf8From, readCodePoint, hhead]
  | some r =>
    obtain ⟨codelen, first⟩ := r
    cases htail : utf8Tail (codelen - 1) first s with
    | none => simp only [validateUtf8From, readCodePoint, hhead, htail, ite_self]
    | some q =>
      obtain ⟨codepoint, rest⟩ := q
      have hlong : ¬ s.length + 1 = codelen - 1 := by
        obtain ⟨taken, rfl, hlen, -⟩ := utf8Tail_taken htail
        rw [List.length_append]
        omega
      simp only [validateUtf8From, readCodePoint, hhead, htail, hlong, if_false]
      split <;> rfl

theorem validateUtf8From_iff {fuel : Nat} {s : Bytes} : validateUtf8From fuel s = .success ↔
    ∃ text, readToEnd .malformedUtf8 readCodePoint fuel s = .ok text := by
  induction fuel generalizing s with
  | zero =>
    cases s with
    | nil => exact iff_of_true rfl ⟨[], rfl⟩
    | cons b s => exact iff_of_false (by simp [validateUtf8From]) (by simp [readToEnd])
  | succ fuel ih =>
    cases s with
    | nil => exact iff_of_true rfl ⟨[], rfl⟩
    | cons b s =>
      rw [validateUtf8From_cons]
      cases hread : readCodePoint (b :: s) with
      | error rc =>
        have hrc := readCodePoint_error hread
        exact iff_of_false hrc (by simp [readToEnd, hread, bind, Except.bind])
      | ok r =>
        obtain ⟨cp, rest⟩ := r
        dsimp only
        rw [ih]
        constructor
        · rintro ⟨text, ht⟩
          exact ⟨cp :: text, by simp only [readToEnd, hread, bind, Except.bind, ht]⟩
        · rintro ⟨text, ht⟩
          cases hrest : readToEnd .malformedUtf8 readCodePoint fuel rest with
          | error rc => simp [readToEnd, hread, hrest, bind, Except.bind] at ht
          | ok text => exact ⟨text, rfl⟩

/-- The loop goes on to the end of the string exactly if it is such a text. -/
theorem validateUtf8From_text (s : Bytes) : validateUtf8From s.length s = .success ↔ IsText s := by
  rw [validateUtf8From_iff]
  constructor
  · rintro ⟨text, ht⟩
    exact ⟨text, codePoint_reads.ofEnd ht⟩
  · rintro ⟨text, hall, rfl⟩
    exact ⟨text, codePoint_reads.toEnd (fun cp _ => encode_ne_nil cp) _ hall (Nat.le_refl _)⟩

instance (bytes : Bytes) : Decidable (IsText bytes) := decidable_of_iff _ (validateUtf8From_text bytes)

theorem validateUtf8_iff {s : Bytes} : validateUtf8 s = .success ↔ s.length ≤ 65536 ∧ IsText s := by
  unfold validateUtf8
  split
  · exact iff_of_false (by decide) (fun h => absurd h.1 (by omega))
  · rw [validateUtf8From_text, and_iff_right (by omega)]

/-- An accepted string is the encoding of a text. -/
theorem validateUtf8_valid {s : Bytes} (h : validateUtf8 s = .success) : ValidUtf8 s :=
  (validateUtf8_iff.mp h).2.valid

end Artemisia.Property
