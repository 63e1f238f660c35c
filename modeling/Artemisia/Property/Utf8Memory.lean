/-
  Artemisia.Property.Utf8Memory — `mosquitto_validate_utf8` as it reads memory, byte by byte from a pointer.

  The lists of `Property.Datatypes` and `Property.Raw` end where the string does. The code has a pointer and
  a length: whether a sequence is complete it asks only if it is one byte short, and leaves the other cases
  to the NUL.

  Proved:
  - `mosquittoValidateUtf8_gives`: with a NUL behind the string, and any length up to it, the code comes to what
                                   `validateUtf8Int` says of the list, and reads nothing behind the NUL.
  - `validateUtf8_exact`:          so it accepts exactly the texts of MQTT 5, and stays in bounds.
-/
import Artemisia.Lib.Memory
import Artemisia.Property.Raw
import Artemisia.Property.Utf8

namespace Artemisia.Property

open Memory Raw

/-! ## The code -/

/-- The inner loop, with `i` and `codepoint` after it; `none` is `MOSQ_ERR_MALFORMED_UTF8`. -/
def readContinuation (ustr : Nat) : Nat → Nat → Nat → Reading UInt8 (Option (Nat × Nat))
  | 0, i, codepoint => pure (some (i, codepoint))
  | j + 1, i, codepoint => do
    let byte ← load (ustr + (i + 1))
    if byte &&& 0xC0 ≠ 0x80 then pure none
    else readContinuation ustr j (i + 1) ((codepoint <<< 6) ||| (byte &&& 0x3F).toNat)

/-- The outer loop from `i` on; `none` if it has not come to an end in so many turns. -/
def validateLoop (ustr : Nat) (len : Int) : Nat → Nat → Reading UInt8 (Option Rc)
  | 0, i => if (i : Int) < len then pure none else pure (some .success)
  | turns + 1, i =>
    if (i : Int) < len then do
      let byte ← load (ustr + i)
      match utf8Head byte with
      | none => pure (some .malformedUtf8)
      | some (codelen, codepoint) =>
        if (i : Int) = len - codelen + 1 then pure (some .malformedUtf8)
        else do
          match ← readContinuation ustr (codelen - 1) i codepoint with
          | none => pure (some .malformedUtf8)
          | some (i, codepoint) =>
            if utf8Refused codelen codepoint then pure (some .malformedUtf8)
              else validateLoop ustr len turns (i + 1)
    else pure (some .success)

/-- `mosquitto_validate_utf8`; `none` is NULL. Each turn moves `i` on, so there are no more than `len`. -/
def mosquittoValidateUtf8 (str : Option Nat) (len : Int) : Reading UInt8 (Option Rc) :=
  match str with
  | none => pure (some .inval)
  | some ustr => if len < 0 ∨ len > 65536 then pure (some .inval) else validateLoop ustr len len.toNat 0

/-! ## Reading a string -/

section Bounds

variable {mem : Nat → UInt8} {ustr n : Nat}

/-- From the string to its NUL. -/
def InBounds (ustr n p : Nat) : Prop := ustr ≤ p ∧ p ≤ ustr + n

/-- The NUL is no continuation byte: what goes past the end stops there. -/
theorem readContinuation_gives {j i cp : Nat} {s : Bytes} (hs : Stored mem (ustr + (i + 1)) (s ++ [0]))
    (hn : i + 1 + s.length = n) : Gives mem (InBounds ustr n) (readContinuation ustr j i cp)
      ((utf8Tail j cp s).map fun r => (i + j, r.1)) := by
  induction j generalizing i cp s with
  | zero => exact .done
  | succ j ih =>
    refine .read ⟨by omega, by omega⟩ ?_
    cases s with
    | nil =>
      rw [show mem (ustr + (i + 1)) = 0 from hs.1, if_pos (by decide)]
      exact .done
    | cons b s =>
      rw [show mem (ustr + (i + 1)) = b from hs.1, utf8Tail]
      split
      · exact .done
      · rw [show i + (j + 1) = i + 1 + j by omega]
        rw [List.length_cons] at hn
        exact ih hs.2 (by omega)

theorem validateUtf8Turns_done {left : Int} (h : left ≤ 0) (fuel : Nat) (s : Bytes) :
    validateUtf8Turns fuel left s = .success := by
  cases fuel <;> simp [validateUtf8Turns, h]

theorem validateLoop_gives {len : Int} {turns fuel i : Nat} {s : Bytes} (hs : Stored mem (ustr + i) (s ++ [0]))
    (hn : i + s.length = n) (hlen : len ≤ n) (hturns : len - i ≤ turns) (hfuel : s.length ≤ fuel) :
    Gives mem (InBounds ustr n) (validateLoop ustr len turns i) (some (validateUtf8Turns fuel (len - i) s)) := by
  induction turns generalizing i s fuel with
  | zero =>
    rw [validateLoop, if_neg (by omega), validateUtf8Turns_done (by omega)]
    exact .done
  | succ turns ih =>
    by_cases hlt : (i : Int) < len
    · cases s with
      | nil =>
        rw [List.length_nil] at hn
        omega
      | cons b s =>
        rw [List.length_cons] at hn hfuel
        obtain ⟨fuel, rfl⟩ : ∃ k, fuel = k + 1 := ⟨fuel - 1, by omega⟩
        rw [validateLoop, if_pos hlt, validateUtf8Turns, if_neg (by omega)]
        refine .read ⟨by omega, by omega⟩ ?_
        rw [show mem (ustr + i) = b from hs.1]
        cases hhead : utf8Head b with
        | none => exact .done
        | some r =>
          obtain ⟨codelen, first⟩ := r
          have hpos := utf8Head_pos hhead
          dsimp only
          by_cases hshort : len - i = codelen - 1
          · rw [if_pos hshort, if_pos (by omega)]
            exact .done
          rw [if_neg hshort, if_neg (by omega)]
          have htail : Gives mem (InBounds ustr n) (readContinuation ustr (codelen - 1) i first)
              ((utf8Tail (codelen - 1) first s).map fun r => (i + (codelen - 1), r.1)) :=
            readContinuation_gives hs.2 (by omega)
          refine .bind htail ?_
          cases hq : utf8Tail (codelen - 1) first s with
          | none => exact .done
          | some q =>
            obtain ⟨codepoint, rest⟩ := q
            obtain ⟨taken, hs', htaken, -⟩ := utf8Tail_taken hq
            obtain rfl : s = taken ++ rest := hs'
            rw [Option.map_some]
            dsimp only
            split
            · exact .done
            · rw [List.length_append] at hn hfuel
              have hrest : Stored mem (ustr + (i + 1) + taken.length) (rest ++ [0]) := by
                refine Stored.drop (l := taken) ?_
                rw [← List.append_assoc]
                exact hs.2
              have hnext : i + (codelen - 1) + 1 = i + codelen := by omega
              rw [hnext, show len - i - codelen = len - (i + codelen : Nat) by omega]
              refine ih ?_ (by omega) (by omega) (by omega)
              rwa [show ustr + (i + codelen) = ustr + (i + 1) + taken.length by omega]
    · rw [validateLoop, if_neg hlt, validateUtf8Turns_done (by omega)]
      exact .done

theorem mosquittoValidateUtf8_gives {str : Bytes} {len : Int} (hlen : len ≤ str.length)
    (hstr : Stored mem ustr (str ++ [0])) :
    Gives mem (InBounds ustr str.length) (mosquittoValidateUtf8 (some ustr) len)
    (some (validateUtf8Int str len)) := by
  unfold mosquittoValidateUtf8 validateUtf8Int
  dsimp only
  split
  · exact .done
  · have hloop : Gives mem (InBounds ustr str.length) (validateLoop ustr len len.toNat 0)
        (some (validateUtf8Turns str.length (len - (0 : Nat)) str)) :=
      validateLoop_gives hstr (Nat.zero_add _) hlen (by omega) (Nat.le_refl _)
    rwa [show len - (0 : Nat) = len by omega] at hloop

/-- On up to 65536 bytes with a NUL behind them the check reads none behind the NUL, and accepts exactly
    the texts of MQTT 5. -/
theorem validateUtf8_exact {str : Bytes} (hlen : str.length ≤ 65536) (hstr : Stored mem ustr (str ++ [0])) :
    (∀ p ∈ (mosquittoValidateUtf8 (some ustr) str.length).reads mem, ustr ≤ p ∧ p ≤ ustr + str.length) ∧
      ∃ rc, (mosquittoValidateUtf8 (some ustr) str.length).run mem = some rc ∧ (rc = .success ↔ IsText str) := by
  have hgives := mosquittoValidateUtf8_gives (Int.le_refl _) hstr
  have hcheck := validateUtf8Int_length (show str.length < 2147483648 by omega)
  rw [toInt_of_lt (by omega)] at hcheck
  rw [hcheck] at hgives
  refine ⟨hgives.within, _, hgives.value, ?_⟩
  rw [validateUtf8_iff, and_iff_right hlen]

end Bounds

def accent : Bytes := [0xC3, 0xA9]

/-- Its string in memory, with a continuation byte wherever the string is not. -/
def accentMemory (p : Nat) : UInt8 := (accent ++ [0]).getD p 0x80

theorem validateUtf8_exact_accent :
    (∀ p ∈ (mosquittoValidateUtf8 (some 0) accent.length).reads accentMemory, 0 ≤ p ∧ p ≤ 0 + accent.length) ∧
      ∃ rc, (mosquittoValidateUtf8 (some 0) accent.length).run accentMemory = some rc ∧
      (rc = .success ↔ IsText accent) :=
  validateUtf8_exact (by decide) (by decide)

/-- A sequence of four bytes that is cut off after the first: behind it only the NUL is read. -/
example : (mosquittoValidateUtf8 (some 0) 1).reads ([0xF0, 0, 0x80].getD · 0x80) = [0, 1] := rfl

end Artemisia.Property
