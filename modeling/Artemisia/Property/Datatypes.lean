/-
  Artemisia.Property.Datatypes — the byte-level readers of the client (`packet_datatypes.c`) and the
  UTF-8 check they apply to strings (`utf8_mosq.c`).

  A packet being read is the list of its bytes from `pos` to `remaining_length`; a reader gives its
  value and the bytes after it. Allocation is taken to succeed.

  Proved:
  - `validateUtf8_nonzero`: a string the check accepts holds no NUL byte, so it survives as a C string.
  - `readVarint_lt`:        a variable byte integer is below 2^28.
  - `readVarint_length`:    and takes as many bytes as it reports.
-/
import Mathlib.Data.List.TakeWhile
import Mathlib.Tactic.Linarith

namespace Artemisia

/-- Return codes of the library (`enum mosq_err_t`); the broker's own are left out. -/
inductive Rc where
  | success | nomem | protocol | inval | noConn | connRefused | notFound | connLost | tls | payloadSize
  | notSupported | auth | aclDenied | unknown | errno | eai | proxy | malformedUtf8 | keepalive | lookup
  | malformedPacket | duplicateProperty | tlsHandshake | qosNotSupported | oversizePacket | ocsp
  /-- No code is returned: NULL has been followed, or an assertion has failed, and the process has ended. -/
  | aborted
  deriving DecidableEq, Repr

abbrev Bytes := List UInt8

namespace Property

/-! ## UTF-8 -/

/-- The length and the first bits of the code point that a leading byte announces; `none` is
    `MOSQ_ERR_MALFORMED_UTF8`. -/
def utf8Head (b : UInt8) : Option (Nat × Nat) :=
  if b = 0 then none
  else if b ≤ 0x7f then some (1, b.toNat)
  else if b &&& 0xE0 = 0xC0 then
    if b = 0xC0 ∨ b = 0xC1 then none else some (2, (b &&& 0x1F).toNat)
  else if b &&& 0xF0 = 0xE0 then some (3, (b &&& 0x0F).toNat)
  else if b &&& 0xF8 = 0xF0 then
    if b > 0xF4 then none else some (4, (b &&& 0x07).toNat)
  else none

/-- The continuation bytes. Past the end stands the NUL that closes the buffer, which is none. -/
def utf8Tail : Nat → Nat → Bytes → Option (Nat × Bytes)
  | 0, codepoint, s => some (codepoint, s)
  | _ + 1, _, [] => none
  | n + 1, codepoint, b :: s =>
    if b &&& 0xC0 ≠ 0x80 then none else utf8Tail n ((codepoint <<< 6) ||| (b &&& 0x3F).toNat) s

/-- Surrogates, overlong or out of range encodings, non-characters and control characters. -/
def utf8Refused (codelen codepoint : Nat) : Bool :=
  (0xD800 ≤ codepoint ∧ codepoint ≤ 0xDFFF)
  ∨ (codelen = 3 ∧ codepoint < 0x0800)
  ∨ (codelen = 4 ∧ (codepoint < 0x10000 ∨ codepoint > 0x10FFFF))
  ∨ (0xFDD0 ≤ codepoint ∧ codepoint ≤ 0xFDEF)
  ∨ codepoint &&& 0xFFFF = 0xFFFE ∨ codepoint &&& 0xFFFF = 0xFFFF
  ∨ codepoint ≤ 0x001F ∨ (0x007F ≤ codepoint ∧ codepoint ≤ 0x009F)

/-- The loop of `mosquitto_validate_utf8` from the current byte on; each turn takes a byte or more. -/
def validateUtf8From : Nat → Bytes → Rc
  | _, [] => .success
  | 0, _ :: _ => .malformedUtf8
  | fuel + 1, b :: s =>
    match utf8Head b with
    | none => .malformedUtf8
    | some (codelen, first) =>
      -- `i == len-codelen+1`: exactly one byte short
      if s.length + 1 = codelen - 1 then .malformedUtf8
      else match utf8Tail (codelen - 1) first s with
        | none => .malformedUtf8
        | some (codepoint, rest) =>
          if utf8Refused codelen codepoint then .malformedUtf8 else validateUtf8From fuel rest

/-- `mosquitto_validate_utf8`, of a string whose length is an `int`. -/
def validateUtf8 (str : Bytes) : Rc :=
  if str.length > 65536 then .inval else validateUtf8From str.length str

theorem length_of_validateUtf8 {str : Bytes} (h : validateUtf8 str = .success) : str.length ≤ 65536 := by
  unfold validateUtf8 at h
  split at h
  · cases h
  · omega

theorem utf8Head_nonzero {b : UInt8} {r : Nat × Nat} (h : utf8Head b = some r) : b ≠ 0 := by
  intro hx
  obtain rfl := hx
  simp [utf8Head] at h

theorem utf8Head_pos {b : UInt8} {codelen first : Nat} (h : utf8Head b = some (codelen, first)) :
    0 < codelen := by
  unfold utf8Head at h
  split_ifs at h
  all_goals
    simp only [Option.some.injEq, Prod.mk.injEq] at h
    omega

/-- The bytes that are taken are so many, and no NUL is among them. -/
theorem utf8Tail_taken {n cp : Nat} {s : Bytes} {r : Nat × Bytes} (h : utf8Tail n cp s = some r) :
    ∃ taken, s = taken ++ r.2 ∧ taken.length = n ∧ ∀ b ∈ taken, b ≠ 0 := by
  induction n generalizing cp s with
  | zero =>
    simp only [utf8Tail, Option.some.injEq] at h
    exact ⟨[], by simp [← h], rfl, by simp⟩
  | succ n ih =>
    cases s with
    | nil => simp [utf8Tail] at h
    | cons b s =>
      simp only [utf8Tail] at h
      split at h
      · cases h
      · rename_i hb
        obtain ⟨taken, hs, hlen, ht⟩ := ih h
        refine ⟨b :: taken, by simp [hs], by simp [hlen], List.forall_mem_cons.mpr ⟨?_, ht⟩⟩
        intro hx
        obtain rfl := hx
        exact hb (by decide)

theorem validateUtf8From_nonzero {fuel : Nat} {s : Bytes} (h : validateUtf8From fuel s = .success) :
    ∀ b ∈ s, b ≠ 0 := by
  induction fuel generalizing s with
  | zero => cases s with
    | nil => simp
    | cons b s => simp [validateUtf8From] at h
  | succ fuel ih =>
    cases s with
    | nil => simp
    | cons b s =>
      simp only [validateUtf8From] at h
      cases hhead : utf8Head b with
      | none => simp [hhead] at h
      | some r =>
        cases htail : utf8Tail (r.1 - 1) r.2 s with
        | none => simp [hhead, htail] at h
        | some q =>
          obtain ⟨taken, rfl, -, ht⟩ := utf8Tail_taken htail
          simp only [hhead, htail] at h
          split at h
          · cases h
          · split at h
            · cases h
            · intro c hc
              rcases List.mem_cons.mp hc with rfl | hc
              · exact utf8Head_nonzero hhead
              · rcases List.mem_append.mp hc with hc | hc
                · exact ht c hc
                · exact ih h c hc

/-- A string that passes the check holds no NUL byte. -/
theorem validateUtf8_nonzero {s : Bytes} (h : validateUtf8 s = .success) : ∀ b ∈ s, b ≠ 0 := by
  unfold validateUtf8 at h
  split at h
  · cases h
  · exact validateUtf8From_nonzero h

/-! ## Readers -/

def readByte : Bytes → Except Rc (UInt8 × Bytes)
  | b :: s => .ok (b, s)
  | [] => .error .protocol

def readUint16 : Bytes → Except Rc (UInt16 × Bytes)
  | msb :: lsb :: s => .ok (.ofNat (msb.toNat * 256 + lsb.toNat), s)
  | _ => .error .protocol

def readUint32 : Bytes → Except Rc (UInt32 × Bytes)
  | a :: b :: c :: d :: s => .ok (.ofNat (((a.toNat * 256 + b.toNat) * 256 + c.toNat) * 256 + d.toNat), s)
  | _ => .error .protocol

/-- The turns of `packet__read_varint` that are left, with `lword`, `remaining_mult` and `lbytes` so far. -/
def readVarintFrom : Nat → Nat → Nat → Nat → Bytes → Except Rc ((Nat × Nat) × Bytes)
  | 0, _, _, _, _ => .error .protocol
  | _ + 1, _, _, _, [] => .error .protocol
  | n + 1, lword, mult, lbytes, byte :: s =>
    let word := lword + (byte &&& 127).toNat * mult
    if byte &&& 128 = 0 then
      -- an overlong encoding
      if lbytes + 1 > 1 ∧ byte = 0 then .error .protocol else .ok ((word, lbytes + 1), s)
    else readVarintFrom n word (mult * 128) (lbytes + 1) s

/-- `packet__read_varint`: the number and how many bytes it took. -/
def readVarint (s : Bytes) : Except Rc ((Nat × Nat) × Bytes) := readVarintFrom 4 0 1 0 s

def readBinary (s : Bytes) : Except Rc (Bytes × Bytes) := do
  let (slen, s) ← readUint16 s
  if slen.toNat > s.length then .error .protocol
  else .ok (s.take slen.toNat, s.drop slen.toNat)

/-- A byte string with no NUL in it, so that reading it as a C string gives all of it back. -/
structure CString where
  bytes : Bytes
  nonzero : ∀ b ∈ bytes, b ≠ 0
  deriving DecidableEq

def CString.empty : CString := ⟨[], by simp⟩

/-- The C string in a buffer that is not known to have no NUL before its end. -/
def CString.of (b : Bytes) : CString :=
  ⟨b.takeWhile (· ≠ 0), fun c hc => by simpa using List.mem_takeWhile_imp hc⟩

/-- `packet__read_string`: an empty string is not checked. -/
def readString (s : Bytes) : Except Rc (CString × Bytes) := do
  let (v, s) ← readBinary s
  if h : validateUtf8 v = .success then .ok (⟨v, validateUtf8_nonzero h⟩, s)
  else .error .malformedUtf8

def varintBytes (word : Nat) : Nat :=
  if word < 128 then 1 else if word < 16384 then 2 else if word < 2097152 then 3
  else if word < 268435456 then 4 else 5

theorem and127_lt (b : UInt8) : (b &&& 127).toNat < 128 := by
  have : (b &&& 127).toNat ≤ 127 := by
    rw [UInt8.toNat_and]
    exact Nat.and_le_right
  omega

theorem readVarintFrom_lt {n lword mult lbytes : Nat} {s rest : Bytes} {word bytes : Nat}
    (h : readVarintFrom n lword mult lbytes s = .ok ((word, bytes), rest)) (hl : lword < mult) :
    word < mult * 128 ^ n := by
  induction n generalizing lword mult lbytes s with
  | zero => simp [readVarintFrom] at h
  | succ n ih =>
    cases s with
    | nil => simp [readVarintFrom] at h
    | cons b s =>
      have hb := and127_lt b
      have hword : lword + (b &&& 127).toNat * mult < mult * 128 := by nlinarith
      simp only [readVarintFrom] at h
      split at h
      · split at h
        · cases h
        · simp only [Except.ok.injEq, Prod.mk.injEq] at h
          have : 1 ≤ 128 ^ n := Nat.one_le_pow _ _ (by decide)
          rw [← h.1.1, pow_succ]
          nlinarith
      · have := ih h hword
        rw [pow_succ]
        nlinarith

/-- A variable byte integer fits the 28 bits of its four bytes. -/
theorem readVarint_lt {s rest : Bytes} {word bytes : Nat} (h : readVarint s = .ok ((word, bytes), rest)) :
    word < 2 ^ 28 := by
  have := readVarintFrom_lt h (by decide)
  omega

theorem readVarintFrom_length {n lword mult lbytes : Nat} {s rest : Bytes} {word bytes : Nat}
    (h : readVarintFrom n lword mult lbytes s = .ok ((word, bytes), rest)) :
    lbytes < bytes ∧ s.length + lbytes = rest.length + bytes := by
  induction n generalizing lword mult lbytes s with
  | zero => simp [readVarintFrom] at h
  | succ n ih =>
    cases s with
    | nil => simp [readVarintFrom] at h
    | cons b s =>
      simp only [readVarintFrom] at h
      split at h
      · split at h
        · cases h
        · simp only [Except.ok.injEq, Prod.mk.injEq] at h
          obtain ⟨⟨-, rfl⟩, rfl⟩ := h
          simp only [List.length_cons]
          omega
      · have := ih h
        simp only [List.length_cons]
        omega

/-- It takes as many bytes as it reports, one at least. -/
theorem readVarint_length {s rest : Bytes} {word bytes : Nat} (h : readVarint s = .ok ((word, bytes), rest)) :
    0 < bytes ∧ s.length = rest.length + bytes := by
  simpa using readVarintFrom_length h

end Property
end Artemisia
