/-
  Utf8 — code points, and how UTF-8 spells them, by numbers.

  Proved:
  - `encode_char`:        the spelling of a character is that of Lean's own strings.
  - `Scalar.exists_char`: the code points that are spelled are those of the characters.
-/
import Mathlib.Tactic.Common

namespace Utf8

/-- Up to U+10FFFF, the surrogates left out. -/
def Scalar (cp : Nat) : Prop := cp ≤ 0x10FFFF ∧ ¬ (0xD800 ≤ cp ∧ cp ≤ 0xDFFF)

/-- The shortest form: what a byte can take, else six bits in each byte after the first. -/
def encode (cp : Nat) : List UInt8 :=
  if cp ≤ 0x7F then [.ofNat cp]
  else if cp ≤ 0x7FF then [.ofNat (0xC0 + cp / 64), .ofNat (0x80 + cp % 64)]
  else if cp ≤ 0xFFFF then [.ofNat (0xE0 + cp / 4096), .ofNat (0x80 + cp / 64 % 64), .ofNat (0x80 + cp % 64)]
  else [.ofNat (0xF0 + cp / 262144), .ofNat (0x80 + cp / 4096 % 64), .ofNat (0x80 + cp / 64 % 64),
    .ofNat (0x80 + cp % 64)]

theorem encode_ne_nil (cp : Nat) : encode cp ≠ [] := by
  unfold encode
  split_ifs <;> exact List.cons_ne_nil _ _

/-! ## Bytes -/

theorem byte_eq {n : Nat} {b : UInt8} (h : n = b.toNat) : UInt8.ofNat n = b := by
  rw [h, UInt8.ofNat_toNat]

/-- A byte after the first. -/
def Continues (b : UInt8) : Prop := 128 ≤ b.toNat ∧ b.toNat < 192

section Forms

variable {b b1 b2 b3 : UInt8} {cp : Nat}

theorem encode_one (h : b.toNat ≤ 0x7F) : encode b.toNat = [b] := by
  rw [encode, if_pos h, UInt8.ofNat_toNat]

theorem encode_two (hb : 192 ≤ b.toNat) (h1 : Continues b1) (hcp : cp = (b.toNat - 192) * 64 + (b1.toNat - 128))
    (hlow : 0x7F < cp) (hhigh : cp ≤ 0x7FF) : encode cp = [b, b1] := by
  obtain ⟨hl1, hu1⟩ := h1
  rw [encode, if_neg (by omega), if_pos hhigh, byte_eq (show _ = b.toNat by omega),
    byte_eq (show _ = b1.toNat by omega)]

theorem encode_three (hb : 224 ≤ b.toNat) (h1 : Continues b1) (h2 : Continues b2)
    (hcp : cp = ((b.toNat - 224) * 64 + (b1.toNat - 128)) * 64 + (b2.toNat - 128)) (hlow : 0x7FF < cp)
    (hhigh : cp ≤ 0xFFFF) : encode cp = [b, b1, b2] := by
  obtain ⟨hl1, hu1⟩ := h1
  obtain ⟨hl2, hu2⟩ := h2
  rw [encode, if_neg (by omega), if_neg (by omega), if_pos hhigh, byte_eq (show _ = b.toNat by omega),
    byte_eq (show _ = b1.toNat by omega), byte_eq (show _ = b2.toNat by omega)]

theorem encode_four (hb : 240 ≤ b.toNat) (h1 : Continues b1) (h2 : Continues b2) (h3 : Continues b3)
    (hcp : cp = (((b.toNat - 240) * 64 + (b1.toNat - 128)) * 64 + (b2.toNat - 128)) * 64 + (b3.toNat - 128))
    (hlow : 0xFFFF < cp) : encode cp = [b, b1, b2, b3] := by
  obtain ⟨hl1, hu1⟩ := h1
  obtain ⟨hl2, hu2⟩ := h2
  obtain ⟨hl3, hu3⟩ := h3
  rw [encode, if_neg (by omega), if_neg (by omega), if_neg (by omega), byte_eq (show _ = b.toNat by omega),
    byte_eq (show _ = b1.toNat by omega), byte_eq (show _ = b2.toNat by omega),
      byte_eq (show _ = b3.toNat by omega)]

end Forms

/-! ## Characters -/

theorem scalar_char (c : Char) : Scalar c.val.toNat := by
  rcases c.valid with h | ⟨hl, hu⟩
  · exact ⟨by omega, by omega⟩
  · exact ⟨by omega, by omega⟩

theorem Scalar.exists_char {cp : Nat} (h : Scalar cp) : ∃ c : Char, c.val.toNat = cp := by
  obtain ⟨hle, hs⟩ := h
  have hn : (UInt32.ofNat cp).toNat = cp := UInt32.toNat_ofNat_of_lt' (Nat.lt_of_le_of_lt hle (by decide))
  have hv : (UInt32.ofNat cp).isValidChar := by
    show (UInt32.ofNat cp).toNat.isValidChar
    rw [hn]
    by_cases hlow : cp < 0xD800
    · exact .inl hlow
    · exact .inr ⟨by omega, by omega⟩
  exact ⟨⟨UInt32.ofNat cp, hv⟩, hn⟩

theorem encode_char (c : Char) : encode c.val.toNat = String.utf8EncodeChar c := by
  obtain ⟨hle, -⟩ := scalar_char c
  have heq : String.utf8EncodeChar c =
      if c.val.toNat ≤ 0x7F then [UInt8.ofNat c.val.toNat]
      else if c.val.toNat ≤ 0x7FF then [.ofNat (c.val.toNat / 64 % 32 + 192), .ofNat (c.val.toNat % 64 + 128)]
      else if c.val.toNat ≤ 0xFFFF then
        [.ofNat (c.val.toNat / 4096 % 16 + 224), .ofNat (c.val.toNat / 64 % 64 + 128),
          .ofNat (c.val.toNat % 64 + 128)]
      else [.ofNat (c.val.toNat / 262144 % 8 + 240), .ofNat (c.val.toNat / 4096 % 64 + 128),
        .ofNat (c.val.toNat / 64 % 64 + 128), .ofNat (c.val.toNat % 64 + 128)] := rfl
  generalize c.val.toNat = cp at hle heq
  have hsix (n : Nat) : 0x80 + n % 64 = n % 64 + 128 := Nat.add_comm ..
  rw [heq, encode, hsix, hsix, hsix]
  split_ifs with h1 h2 h3
  · rfl
  · rw [show 0xC0 + cp / 64 = cp / 64 % 32 + 192 by omega]
  · rw [show 0xE0 + cp / 4096 = cp / 4096 % 16 + 224 by omega]
  · rw [show 0xF0 + cp / 262144 = cp / 262144 % 8 + 240 by omega]

end Utf8
