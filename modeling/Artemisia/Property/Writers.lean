/-
  Artemisia.Property.Writers — the byte-level writers of the client (`packet_datatypes.c`), each with the reader
  that takes back what it writes.

  A writer is the bytes it puts at the cursor, so the cursor moves by their number. A length that is written in
  two bytes is a `uint16_t`: what does not fit is cut off.

  Proved:
  - `reads_uint16`, `reads_uint32`, `reads_varint`: the numbers.
  - `reads_binary`, `reads_string`:                 what has its length before it, if it fits two bytes.
-/
import Artemisia.Lib.Codec
import Artemisia.Property.Datatypes
import Mathlib.Tactic.Ring

namespace Artemisia.Property

open Codec

/-! ## Writers -/

def writeByte (byte : UInt8) : Bytes := [byte]

def writeUint16 (word : UInt16) : Bytes := [UInt8.ofNat (word.toNat / 256), UInt8.ofNat (word.toNat % 256)]

def writeUint32 (word : UInt32) : Bytes :=
  [UInt8.ofNat (word.toNat / 16777216), UInt8.ofNat (word.toNat / 65536 % 256),
    UInt8.ofNat (word.toNat / 256 % 256),
   UInt8.ofNat (word.toNat % 256)]

/-- `packet__write_string`: its parameter `length` is a `uint16_t`. -/
def writeString (str : Bytes) : Bytes := writeUint16 (UInt16.ofNat str.length) ++ str.take (str.length % 65536)

/-- A length of 16 bits and `packet__write_bytes` with the whole length. -/
def writeBinary (data : Bytes) : Bytes := writeUint16 (UInt16.ofNat data.length) ++ data

/-- The digits of base 128 that `packet__write_varint` and `packet__alloc` put down, at most so many. -/
def varintDigits : Nat → Nat → Bytes
  | 0, _ => []
  | n + 1, word =>
    -- more digits follow
    if word / 128 > 0 then (UInt8.ofNat (word % 128) ||| 0x80) :: varintDigits n (word / 128)
    else [UInt8.ofNat (word % 128)]

/-- `packet__write_varint`: one digit for a negative `int32_t`, and an error when five have been written. -/
def writeVarint (word : Int) : Bytes × Rc :=
  if word < 0 then ([UInt8.ofInt (word.tmod 128)], .success)
  else (varintDigits 5 word.toNat, if (varintDigits 5 word.toNat).length = 5 then .protocol else .success)

/-! ## Bytes and words -/

theorem and127 (b : UInt8) : (b &&& 127).toNat = b.toNat % 128 := by
  rw [UInt8.toNat_and]
  exact Nat.and_two_pow_sub_one_eq_mod b.toNat 7

theorem and128_eq_zero {b : UInt8} : b &&& 128 = 0 ↔ b.toNat < 128 := by
  have hb := b.toNat_lt
  have hand : (b &&& 128).toNat = b.toNat / 128 * 128 := by
    rw [UInt8.toNat_and]
    have h : ∀ i : Fin 256, i.val &&& 128 = i.val / 128 * 128 := by decide +kernel
    exact h ⟨b.toNat, hb⟩
  rw [← UInt8.toNat_inj, hand]
  show b.toNat / 128 * 128 = 0 ↔ b.toNat < 128
  omega

theorem or128 {n : Nat} (h : n < 128) : (UInt8.ofNat n ||| 0x80).toNat = n + 128 := by
  have hn : (UInt8.ofNat n).toNat = n := by
    rw [UInt8.toNat_ofNat']
    omega
  rw [UInt8.toNat_or, hn, Nat.or_comm]
  show 2 ^ 7 * 1 ||| n = n + 128
  rw [← Nat.two_pow_add_eq_or_of_lt h]
  omega

theorem ofNat_toNat8 {n : Nat} (h : n < 256) : (UInt8.ofNat n).toNat = n := by
  rw [UInt8.toNat_ofNat']
  omega

theorem ofNat_toNat16 {n : Nat} (h : n < 65536) : (UInt16.ofNat n).toNat = n := by
  rw [UInt16.toNat_ofNat']
  omega

@[simp] theorem length_writeUint16 (word : UInt16) : (writeUint16 word).length = 2 := rfl
@[simp] theorem length_writeUint32 (word : UInt32) : (writeUint32 word).length = 4 := rfl

theorem reads_byte : Reads (ε := Rc) readByte writeByte (fun _ => True) where
  round := fun _ _ => rfl
  only := by
    intro s rest b h
    cases s with
    | nil => cases h
    | cons c s =>
      simp only [readByte, Except.ok.injEq, Prod.mk.injEq] at h
      obtain ⟨rfl, rfl⟩ := h
      exact ⟨trivial, rfl⟩

theorem reads_uint16 : Reads (ε := Rc) readUint16 writeUint16 (fun _ => True) where
  round := by
    intro w s _
    have hw := w.toNat_lt
    have hh : (UInt8.ofNat (w.toNat / 256)).toNat = w.toNat / 256 := ofNat_toNat8 (by omega)
    have hl : (UInt8.ofNat (w.toNat % 256)).toNat = w.toNat % 256 := ofNat_toNat8 (by omega)
    simp only [writeUint16, List.cons_append, List.nil_append, readUint16, hh, hl, Except.ok.injEq,
      Prod.mk.injEq, and_true]
    apply UInt16.toNat_inj.mp
    rw [ofNat_toNat16 (by omega)]
    omega
  only := by
    intro s rest w h
    rcases s with _ | ⟨a, _ | ⟨b, s⟩⟩
    · cases h
    · cases h
    · have ha := a.toNat_lt
      have hb := b.toNat_lt
      simp only [readUint16, Except.ok.injEq, Prod.mk.injEq] at h
      obtain ⟨rfl, rfl⟩ := h
      refine ⟨trivial, ?_⟩
      have hn : (UInt16.ofNat (a.toNat * 256 + b.toNat)).toNat = a.toNat * 256 + b.toNat :=
        ofNat_toNat16 (by omega)
      have h1 : UInt8.ofNat ((a.toNat * 256 + b.toNat) / 256) = a := by
        apply UInt8.toNat_inj.mp
        rw [ofNat_toNat8 (by omega)]
        omega
      have h2 : UInt8.ofNat ((a.toNat * 256 + b.toNat) % 256) = b := by
        apply UInt8.toNat_inj.mp
        rw [ofNat_toNat8 (by omega)]
        omega
      simp only [writeUint16, hn, h1, h2, List.cons_append, List.nil_append]

theorem reads_uint32 : Reads (ε := Rc) readUint32 writeUint32 (fun _ => True) where
  round := by
    intro w s _
    have hw := w.toNat_lt
    have h1 : (UInt8.ofNat (w.toNat / 16777216)).toNat = w.toNat / 16777216 := ofNat_toNat8 (by omega)
    have h2 : (UInt8.ofNat (w.toNat / 65536 % 256)).toNat = w.toNat / 65536 % 256 := ofNat_toNat8 (by omega)
    have h3 : (UInt8.ofNat (w.toNat / 256 % 256)).toNat = w.toNat / 256 % 256 := ofNat_toNat8 (by omega)
    have h4 : (UInt8.ofNat (w.toNat % 256)).toNat = w.toNat % 256 := ofNat_toNat8 (by omega)
    simp only [writeUint32, List.cons_append, List.nil_append, readUint32, h1, h2, h3, h4, Except.ok.injEq,
      Prod.mk.injEq, and_true]
    apply UInt32.toNat_inj.mp
    rw [UInt32.toNat_ofNat']
    omega
  only := by
    intro s rest w h
    rcases s with _ | ⟨a, _ | ⟨b, _ | ⟨c, _ | ⟨d, s⟩⟩⟩⟩
    · cases h
    · cases h
    · cases h
    · cases h
    · have ha := a.toNat_lt
      have hb := b.toNat_lt
      have hc := c.toNat_lt
      have hd := d.toNat_lt
      simp only [readUint32, Except.ok.injEq, Prod.mk.injEq] at h
      obtain ⟨rfl, rfl⟩ := h
      refine ⟨trivial, ?_⟩
      have hn : (UInt32.ofNat (((a.toNat * 256 + b.toNat) * 256 + c.toNat) * 256 + d.toNat)).toNat =
          ((a.toNat * 256 + b.toNat) * 256 + c.toNat) * 256 + d.toNat := by
        rw [UInt32.toNat_ofNat']
        omega
      have digit {n : Nat} {x : UInt8} (e : n = x.toNat) : UInt8.ofNat n = x := by
        rw [e]
        exact UInt8.ofNat_toNat
      have h1 : UInt8.ofNat ((((a.toNat * 256 + b.toNat) * 256 + c.toNat) * 256 + d.toNat) / 16777216) = a :=
        digit (by omega)
      have h2 : UInt8.ofNat ((((a.toNat * 256 + b.toNat) * 256 + c.toNat) * 256 + d.toNat) / 65536 % 256) = b :=
        digit (by omega)
      have h3 : UInt8.ofNat ((((a.toNat * 256 + b.toNat) * 256 + c.toNat) * 256 + d.toNat) / 256 % 256) = c :=
        digit (by omega)
      have h4 : UInt8.ofNat ((((a.toNat * 256 + b.toNat) * 256 + c.toNat) * 256 + d.toNat) % 256) = d :=
        digit (by omega)
      simp only [writeUint32, hn, h1, h2, h3, h4, List.cons_append, List.nil_append]

/-! ## Variable byte integers -/

/-- A number with a digit to come has fewer digits left, and not none. -/
theorem digits_more {n word : Nat} (h : word < 128 ^ (n + 1)) (hw : word / 128 > 0) :
    0 < n ∧ word / 128 < 128 ^ n := by
  have hlt : word / 128 < 128 ^ n := Nat.div_lt_of_lt_mul (by rw [pow_succ] at h; omega)
  refine ⟨?_, hlt⟩
  by_contra h0
  simp only [show n = 0 by omega, pow_zero] at hlt
  omega

theorem moreDigit_toNat (word : Nat) : (UInt8.ofNat (word % 128) ||| 0x80).toNat = word % 128 + 128 :=
  or128 (Nat.mod_lt _ (by omega))

theorem lastDigit_toNat {word : Nat} (h : word < 128) : (UInt8.ofNat (word % 128)).toNat = word := by
  rw [ofNat_toNat8 (by omega)]
  omega

/-- What the loops of the readers add up: a digit at its place, and the rest one place up. -/
theorem digit_sum (lword word mult : Nat) :
    lword + word % 128 * mult + word / 128 * (mult * 128) = lword + word * mult := by
  have hdiv : word % 128 + word / 128 * 128 = word := by omega
  calc lword + word % 128 * mult + word / 128 * (mult * 128)
      = lword + (word % 128 + word / 128 * 128) * mult := by ring
    _ = lword + word * mult := by rw [hdiv]

/-- Digits that are enough for the number are as good as more of them. -/
theorem varintDigits_enough {n k word : Nat} (hn : 0 < n) (hk : n ≤ k) (h : word < 128 ^ n) :
    varintDigits k word = varintDigits n word := by
  induction n generalizing k word with
  | zero => omega
  | succ n ih =>
    obtain ⟨k, rfl⟩ : ∃ j, k = j + 1 := ⟨k - 1, by omega⟩
    simp only [varintDigits]
    by_cases hw : word / 128 > 0
    · obtain ⟨hpos, hlt⟩ := digits_more h hw
      rw [if_pos hw, if_pos hw, ih hpos (by omega) hlt]
    · rw [if_neg hw, if_neg hw]

/-- The loop of the reader takes the digits of a number off, unless they are a zero after another digit. -/
theorem readVarintFrom_digits {n word : Nat} (lword mult lbytes : Nat) (s : Bytes) (hn : 0 < n)
    (h : word < 128 ^ n)
    (hz : 0 < lbytes → 0 < word) :
    readVarintFrom n lword mult lbytes (varintDigits n word ++ s) =
      .ok ((lword + word * mult, lbytes + (varintDigits n word).length), s) := by
  induction n generalizing word lword mult lbytes with
  | zero => omega
  | succ n ih =>
    by_cases hw : word / 128 > 0
    · obtain ⟨hpos, hlt⟩ := digits_more h hw
      have hdigit := moreDigit_toNat word
      have htop : ¬ (UInt8.ofNat (word % 128) ||| 0x80) &&& 128 = 0 := by
        rw [and128_eq_zero]
        omega
      simp only [varintDigits, if_pos hw, List.cons_append, readVarintFrom, if_neg htop, and127, hdigit,
        List.length_cons]
      rw [ih _ _ _ hpos hlt (fun _ => hw)]
      have hmod : (word % 128 + 128) % 128 = word % 128 := by omega
      rw [hmod, digit_sum]
      simp only [Nat.add_assoc, Nat.add_comm 1]
    · have hsmall : word < 128 := by omega
      have hdigit := lastDigit_toNat hsmall
      have htop : UInt8.ofNat (word % 128) &&& 128 = 0 := by
        rw [and128_eq_zero, hdigit]
        exact hsmall
      have hzero : ¬ (lbytes + 1 > 1 ∧ UInt8.ofNat (word % 128) = 0) := by
        intro hx
        obtain ⟨hl, h0⟩ := hx
        rw [h0] at hdigit
        have : (0 : UInt8).toNat = 0 := rfl
        have := hz (by omega)
        omega
      simp only [varintDigits, if_neg hw, List.cons_append, List.nil_append, readVarintFrom, if_pos htop,
        if_neg hzero, and127, hdigit, List.length_cons, List.length_nil]
      rw [Nat.mod_eq_of_lt hsmall]

/-- Whatever the loop accepts is the digits of the number it gives. -/
theorem readVarintFrom_only {n lword mult lbytes : Nat} {s rest : Bytes} {word bytes : Nat}
    (h : readVarintFrom n lword mult lbytes s = .ok ((word, bytes), rest)) :
    ∃ w, w < 128 ^ n ∧ (0 < lbytes → 0 < w) ∧ word = lword + w * mult ∧
      bytes = lbytes + (varintDigits n w).length ∧ s = varintDigits n w ++ rest := by
  induction n generalizing lword mult lbytes s with
  | zero => simp [readVarintFrom] at h
  | succ n ih =>
    cases s with
    | nil => simp [readVarintFrom] at h
    | cons b s =>
      have hb := b.toNat_lt
      simp only [readVarintFrom] at h
      split at h
      · rename_i htop
        have hlow := and128_eq_zero.mp htop
        split at h
        · cases h
        · rename_i hzero
          simp only [Except.ok.injEq, Prod.mk.injEq] at h
          obtain ⟨⟨rfl, rfl⟩, rfl⟩ := h
          have hdigits : varintDigits (n + 1) b.toNat = [b] := by
            rw [varintDigits, if_neg (by omega), Nat.mod_eq_of_lt hlow, UInt8.ofNat_toNat]
          refine ⟨b.toNat, ?_, ?_, ?_, by rw [hdigits]; rfl, by rw [hdigits]; rfl⟩
          · have : 1 ≤ 128 ^ n := Nat.one_le_pow _ _ (by decide)
            rw [pow_succ]
            omega
          · intro hl
            by_contra h0
            exact hzero ⟨by omega, UInt8.toNat_inj.mp (show b.toNat = 0 by omega)⟩
          · rw [and127, Nat.mod_eq_of_lt hlow]
      · rename_i htop
        have hhigh : 128 ≤ b.toNat := by
          by_contra hlow
          exact htop (and128_eq_zero.mpr (by omega))
        obtain ⟨w, hw, hpos, rfl, rfl, rfl⟩ := ih h
        have hw0 := hpos (by omega)
        have hmod : (b.toNat % 128 + w * 128) % 128 = b.toNat % 128 := by omega
        have hdiv : (b.toNat % 128 + w * 128) / 128 = w := by omega
        have hdigit : UInt8.ofNat (b.toNat % 128) ||| 0x80 = b := by
          apply UInt8.toNat_inj.mp
          rw [or128 (by omega)]
          omega
        have hdigits : varintDigits (n + 1) (b.toNat % 128 + w * 128) = b :: varintDigits n w := by
          rw [varintDigits, hdiv, if_pos hw0, hmod, hdigit]
        refine ⟨b.toNat % 128 + w * 128, ?_, fun _ => by omega, ?_, ?_, by rw [hdigits]; rfl⟩
        · rw [pow_succ]
          omega
        · rw [and127]
          ring
        · rw [hdigits, List.length_cons]
          omega

theorem length_varintDigits {word : Nat} (h : word < 268435456) :
    (varintDigits 5 word).length = varintBytes word := by
  by_cases h1 : word < 128
  · rw [varintDigits, if_neg (by omega), varintBytes, if_pos h1]
    rfl
  by_cases h2 : word < 16384
  · rw [varintDigits, if_pos (by omega), varintDigits, if_neg (by omega), varintBytes, if_neg h1, if_pos h2]
    rfl
  by_cases h3 : word < 2097152
  · rw [varintDigits, if_pos (by omega), varintDigits, if_pos (by omega), varintDigits, if_neg (by omega),
      varintBytes,
      if_neg h1, if_neg h2, if_pos h3]
    rfl
  · rw [varintDigits, if_pos (by omega), varintDigits, if_pos (by omega), varintDigits, if_pos (by omega),
      varintDigits,
      if_neg (by omega), varintBytes, if_neg h1, if_neg h2, if_neg h3, if_pos h]
    rfl

theorem reads_varint : Reads (ε := Rc) readVarint (fun p => varintDigits 5 p.1)
    (fun p => p.1 < 268435456 ∧ p.2 = varintBytes p.1) where
  round := by
    rintro ⟨word, bytes⟩ s ⟨hw, hb⟩
    obtain rfl : bytes = varintBytes word := hb
    replace hw : word < 268435456 := hw
    have h4 : varintDigits 5 word = varintDigits 4 word := varintDigits_enough (by omega) (by omega) hw
    have hlen := length_varintDigits hw
    show readVarintFrom 4 0 1 0 (varintDigits 5 word ++ s) = _
    rw [h4] at hlen ⊢
    rw [readVarintFrom_digits 0 1 0 s (by omega) hw (by omega), hlen, Nat.zero_add, Nat.mul_one, Nat.zero_add]
  only := by
    rintro s rest ⟨word, bytes⟩ h
    obtain ⟨w, hw, -, hword, hbytes, hs⟩ := readVarintFrom_only h
    have h4 : varintDigits 5 w = varintDigits 4 w := varintDigits_enough (by omega) (by omega) hw
    have hlen := length_varintDigits hw
    obtain rfl : word = w := by omega
    rw [← h4] at hbytes hs
    exact ⟨⟨hw, show bytes = varintBytes word by omega⟩, hs⟩

/-- A number of at most 28 bits is written whole. -/
theorem writeVarint_of_lt {word : Nat} (h : word < 268435456) :
    writeVarint word = (varintDigits 5 word, .success) := by
  have hlen := length_varintDigits h
  have h4 : varintBytes word ≠ 5 := by
    unfold varintBytes
    split_ifs <;> omega
  have hpos : ¬ (word : Int) < 0 := by omega
  simp only [writeVarint, if_neg hpos, Int.toNat_natCast, hlen, if_neg h4]

/-! ## Strings -/

theorem reads_binary : Reads (ε := Rc) readBinary writeBinary (fun data => data.length ≤ 65535) where
  round := by
    intro data s h
    have hlen : (UInt16.ofNat data.length).toNat = data.length := ofNat_toNat16 (by omega)
    have hfit : ¬ (UInt16.ofNat data.length).toNat > (data ++ s).length := by
      rw [hlen, List.length_append]
      omega
    simp only [readBinary, writeBinary, List.append_assoc, reads_uint16.round _ trivial, bind, Except.bind,
      if_neg hfit]
    rw [hlen, List.take_left, List.drop_left]
  only := by
    intro s rest data h
    cases hr : readUint16 s with
    | error e => simp [readBinary, hr, bind, Except.bind] at h
    | ok r =>
      obtain ⟨slen, s'⟩ := r
      obtain ⟨-, rfl⟩ := reads_uint16.only hr
      simp only [readBinary, hr, bind, Except.bind] at h
      split at h
      · cases h
      · rename_i hfit
        have hlt := slen.toNat_lt
        simp only [Except.ok.injEq, Prod.mk.injEq] at h
        obtain ⟨rfl, rfl⟩ := h
        have hlen : (s'.take slen.toNat).length = slen.toNat := by
          rw [List.length_take]
          omega
        refine ⟨by omega, ?_⟩
        rw [writeBinary, hlen, UInt16.ofNat_toNat, List.append_assoc, List.take_append_drop]

/-- A string of at most 65535 bytes goes out like a binary. -/
theorem writeString_of_le {str : Bytes} (h : str.length ≤ 65535) : writeString str = writeBinary str := by
  rw [writeString, writeBinary, Nat.mod_eq_of_lt (by omega), List.take_length]

theorem length_writeBinary (data : Bytes) : (writeBinary data).length = 2 + data.length := by
  rw [writeBinary, List.length_append, length_writeUint16]

theorem length_writeString_of_le {str : Bytes} (h : str.length ≤ 65535) :
    (writeString str).length = 2 + str.length := by
  rw [writeString_of_le h, length_writeBinary]

theorem reads_string : Reads (ε := Rc) readString (fun v => writeString v.bytes)
    (fun v => v.bytes.length ≤ 65535 ∧ validateUtf8 v.bytes = .success) where
  round := by
    rintro v s ⟨hlen, hutf⟩
    show readString (writeString v.bytes ++ s) = .ok (v, s)
    simp only [readString, writeString_of_le hlen, reads_binary.round s hlen, bind, Except.bind, dif_pos hutf]
  only := by
    intro s rest v h
    cases hr : readBinary s with
    | error e => simp [readString, hr, bind, Except.bind] at h
    | ok r =>
      obtain ⟨data, s'⟩ := r
      simp only [readString, hr, bind, Except.bind] at h
      split at h
      · rename_i hutf
        simp only [Except.ok.injEq, Prod.mk.injEq] at h
        obtain ⟨rfl, rfl⟩ := h
        obtain ⟨hlen, hs⟩ := reads_binary.only hr
        exact ⟨⟨hlen, hutf⟩, hs.trans (by rw [writeString_of_le hlen])⟩
      · cases h

end Artemisia.Property
