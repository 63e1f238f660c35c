/-
  Artemisia.Property.Write — writing a property section (`property_mosq.c`) and reading it back.

  A writer is the bytes it puts down and its result; what follows a write that fails is not written.

  Proved:
  - `reads_property`:    one property is taken back as it was written, whatever follows it.
  - `length_writeAll`:   the length that is announced is the number of bytes that follow it.
  - `section_roundtrip`: the section of a list whose values fit their encodings reads back as the list.
-/
import Artemisia.Property.List
import Artemisia.Property.Writers

namespace Artemisia.Property

open Codec

/-! ## Writing -/

/-- A writer, and after it another one if it has not failed. -/
def andThen (first next : Bytes × Rc) : Bytes × Rc := if first.2 = .success then (first.1 ++ next.1, next.2)
  else first

/-- What `property__write` puts down for a value of the kind. -/
def writeValue : (k : Kind) → Value k → Bytes × Rc
  | .byte, v => (writeByte v, .success)
  | .int16, v => (writeUint16 v, .success)
  | .int32, v => (writeUint32 v, .success)
  -- a `uint32_t` that is passed as an `int32_t`
  | .varint, v => writeVarint (UInt32.toInt32 v).toInt
  | .string, v => (writeString (CString.bytes v), .success)
  | .binary, v => (writeBinary v, .success)
  | .pair, v => (writeString (CString.bytes v.1) ++ writeString (CString.bytes v.2), .success)

def propertyWrite (p : MosquittoProperty) : Bytes × Rc :=
  andThen (writeVarint p.identifier.code) (writeValue p.identifier.kind p.value)

def propertyWriteFrom : List MosquittoProperty → Bytes × Rc
  | [] => ([], .success)
  | p :: l => andThen (propertyWrite p) (propertyWriteFrom l)

def writeAll (l : List MosquittoProperty) (writeLen : Bool) : Bytes × Rc :=
  if writeLen then andThen (writeVarint (getLengthAll l)) (propertyWriteFrom l) else propertyWriteFrom l

/-! ## What fits its encoding -/

/-- A value that its encoding can hold: two bytes for a length, 28 bits for a variable byte integer, and a
    string that the readers do not refuse. -/
def FitsValue : (k : Kind) → Value k → Prop
  | .byte, _ => True
  | .int16, _ => True
  | .int32, _ => True
  | .varint, v => UInt32.toNat v < 268435456
  | .string, v => (CString.bytes v).length ≤ 65535 ∧ validateUtf8 (CString.bytes v) = .success
  | .binary, v => List.length (α := UInt8) v ≤ 65535
  | .pair, v => ((CString.bytes v.1).length ≤ 65535 ∧ validateUtf8 (CString.bytes v.1) = .success) ∧
      ((CString.bytes v.2).length ≤ 65535 ∧ validateUtf8 (CString.bytes v.2) = .success)

def MosquittoProperty.Fits (p : MosquittoProperty) : Prop := FitsValue p.identifier.kind p.value

instance : (k : Kind) → (v : Value k) → Decidable (FitsValue k v)
  | .byte, _ => inferInstanceAs (Decidable True)
  | .int16, _ => inferInstanceAs (Decidable True)
  | .int32, _ => inferInstanceAs (Decidable True)
  | .varint, v => inferInstanceAs (Decidable (UInt32.toNat v < 268435456))
  | .string, v => inferInstanceAs (Decidable (_ ∧ validateUtf8 (CString.bytes v) = .success))
  | .binary, v => inferInstanceAs (Decidable (List.length (α := UInt8) v ≤ 65535))
  | .pair, v => inferInstanceAs (Decidable ((_ ∧ validateUtf8 (CString.bytes v.1) = .success) ∧
      (_ ∧ validateUtf8 (CString.bytes v.2) = .success)))

instance (p : MosquittoProperty) : Decidable p.Fits := inferInstanceAs (Decidable (FitsValue _ _))

/-! ## One value -/

theorem toInt32_toInt {v : UInt32} (h : v.toNat < 268435456) : v.toInt32.toInt = v.toNat := by
  show v.toBitVec.toInt = v.toNat
  have hn : v.toBitVec.toNat = v.toNat := rfl
  rw [BitVec.toInt_eq_toNat_cond, hn, if_pos (by omega)]

/-- A value that fits is written without an error. -/
theorem writeValue_success {k : Kind} {v : Value k} (h : FitsValue k v) : (writeValue k v).2 = .success := by
  cases k with
  | varint =>
    show (writeVarint (UInt32.toInt32 v).toInt).2 = .success
    rw [toInt32_toInt h, writeVarint_of_lt h]
  | _ => rfl

theorem writeValue_varint {v : UInt32} (h : v.toNat < 268435456) :
    (writeValue .varint v).1 = varintDigits 5 v.toNat := by
  show (writeVarint v.toInt32.toInt).1 = _
  rw [toInt32_toInt h, writeVarint_of_lt h]

theorem reads_varintValue : Reads (ε := Rc) (readValue .varint) (fun q => (writeValue .varint q.1).1)
    (fun q => FitsValue .varint q.1 ∧ q.2 = (writeValue .varint q.1).1.length) := by
  refine (reads_varint.map (fun q => (UInt32.ofNat q.1, q.2)) (fun q : UInt32 × Nat => (q.1.toNat, q.2))
    ?_ (fun ⟨v, n⟩ => ?_)).congr (fun _ => rfl) ?_
  · rintro ⟨n, b⟩ ⟨hn, -⟩
    show ((UInt32.ofNat n).toNat, b) = (n, b)
    rw [UInt32.toNat_ofNat_of_lt' (Nat.lt_trans hn (by decide))]
  · show v.toNat < 268435456 ∧ n = (writeValue .varint v).1.length ↔
      (v.toNat < 268435456 ∧ n = varintBytes v.toNat) ∧ (UInt32.ofNat v.toNat, n) = (v, n)
    rw [UInt32.ofNat_toNat]
    constructor
    · intro hx
      obtain ⟨hv, rfl⟩ := hx
      exact ⟨⟨hv, by rw [writeValue_varint hv, length_varintDigits hv]⟩, rfl⟩
    · intro hx
      obtain ⟨⟨hv, rfl⟩, -⟩ := hx
      exact ⟨hv, by rw [writeValue_varint hv, length_varintDigits hv]⟩
  · rintro ⟨v, n⟩ ⟨hv, -⟩
    exact writeValue_varint hv

theorem reads_stringValue : Reads (ε := Rc) (readValue .string) (fun q => (writeValue .string q.1).1)
    (fun q => FitsValue .string q.1 ∧ q.2 = (writeValue .string q.1).1.length) := by
  refine reads_string.map (fun v => (v, 2 + v.bytes.length)) (fun q => q.1) (fun _ _ => rfl) (fun ⟨v, n⟩ => ?_)
  show (v.bytes.length ≤ 65535 ∧ validateUtf8 v.bytes = .success) ∧ n = (writeString v.bytes).length ↔
    (v.bytes.length ≤ 65535 ∧ validateUtf8 v.bytes = .success) ∧ (v, 2 + v.bytes.length) = (v, n)
  constructor
  · intro hx
    obtain ⟨h, rfl⟩ := hx
    exact ⟨h, by rw [length_writeString_of_le h.1]⟩
  · intro hx
    obtain ⟨h, he⟩ := hx
    cases he
    exact ⟨h, (length_writeString_of_le h.1).symm⟩

theorem reads_pairValue : Reads (ε := Rc) (readValue .pair) (fun q => (writeValue .pair q.1).1)
    (fun q => FitsValue .pair q.1 ∧ q.2 = (writeValue .pair q.1).1.length) := by
  have hboth := reads_string.seq (fun _ _ => reads_string)
  refine (hboth.map (fun q => (q, 2 + q.1.bytes.length + 2 + q.2.bytes.length)) (fun q => q.1) (fun _ _ => rfl)
    (fun ⟨v, n⟩ => ?_)).congr (fun s => ?_) (fun _ _ => rfl)
  · have hlen (h : v.1.bytes.length ≤ 65535 ∧ v.2.bytes.length ≤ 65535) :
        (writeString v.1.bytes ++ writeString v.2.bytes).length = 2 + v.1.bytes.length + 2 +
          v.2.bytes.length := by
      rw [List.length_append, length_writeString_of_le h.1, length_writeString_of_le h.2]
      omega
    show ((_ ∧ _) ∧ _ ∧ _) ∧ n = (writeString v.1.bytes ++ writeString v.2.bytes).length ↔ (_ ∧ _) ∧
      (v, 2 + v.1.bytes.length + 2 + v.2.bytes.length) = (v, n)
    constructor
    · intro hx
      obtain ⟨h, rfl⟩ := hx
      exact ⟨h, by rw [hlen ⟨h.1.1, h.2.1⟩]⟩
    · intro hx
      obtain ⟨h, he⟩ := hx
      cases he
      exact ⟨h, (hlen ⟨h.1.1, h.2.1⟩).symm⟩
  · show readValue .pair s = _
    simp only [readValue]
    cases h1 : readString s with
    | error e => rfl
    | ok r =>
      cases h2 : readString r.2 with
      | error e =>
        simp only [bind, Except.bind, h2]
        rfl
      | ok q =>
        simp only [bind, Except.bind, h2]
        rfl

/-- The reader of a kind takes back the values that fit it, with the number of bytes they were written in. -/
theorem reads_value (k : Kind) : Reads (ε := Rc) (readValue k) (fun q => (writeValue k q.1).1)
    (fun q => FitsValue k q.1 ∧ q.2 = (writeValue k q.1).1.length) := by
  cases k with
  | byte =>
    refine reads_byte.map (fun v => (v, 1)) (fun q => q.1) (fun _ _ => rfl) (fun ⟨v, n⟩ => ?_)
    show True ∧ n = 1 ↔ True ∧ (v, 1) = (v, n)
    grind
  | int16 =>
    refine reads_uint16.map (fun v => (v, 2)) (fun q => q.1) (fun _ _ => rfl) (fun ⟨v, n⟩ => ?_)
    show True ∧ n = 2 ↔ True ∧ (v, 2) = (v, n)
    grind
  | int32 =>
    refine reads_uint32.map (fun v => (v, 4)) (fun q => q.1) (fun _ _ => rfl) (fun ⟨v, n⟩ => ?_)
    show True ∧ n = 4 ↔ True ∧ (v, 4) = (v, n)
    grind
  | varint => exact reads_varintValue
  | binary =>
    refine reads_binary.map (fun v => (v, 2 + v.length)) (fun q => q.1) (fun _ _ => rfl) (fun ⟨v, n⟩ => ?_)
    show List.length v ≤ 65535 ∧ n = (writeBinary v).length ↔ List.length v ≤ 65535 ∧
        (v, 2 + List.length v) = (v, n)
    rw [length_writeBinary]
    grind
  | string => exact reads_stringValue
  | pair => exact reads_pairValue

/-! ## One property -/

theorem code_lt (i : PropId) : i.code < 128 := by cases i <;> decide

/-- An identifier is written in one byte. -/
theorem writeVarint_code (i : PropId) : writeVarint i.code = ([UInt8.ofNat i.code], .success) := by
  have h := code_lt i
  rw [writeVarint_of_lt (by omega), varintDigits, if_neg (by omega), Nat.mod_eq_of_lt h]

theorem propertyWrite_of_fits {p : MosquittoProperty} (h : p.Fits) :
    propertyWrite p = (UInt8.ofNat p.identifier.code :: (writeValue p.identifier.kind p.value).1, .success) := by
  simp only [propertyWrite, andThen, writeVarint_code, if_true, List.cons_append, List.nil_append,
    writeValue_success h]

/-- The length that `property__get_length` foretells is that of what is written. -/
theorem length_propertyWrite {p : MosquittoProperty} (h : p.Fits) : (propertyWrite p).1.length = getLength p := by
  rw [propertyWrite_of_fits h, List.length_cons]
  obtain ⟨i, v⟩ := p
  unfold MosquittoProperty.Fits at h
  unfold getLength
  dsimp only at h v ⊢
  revert v
  generalize i.kind = k
  intro v h
  cases k with
  | byte => rfl
  | int16 => rfl
  | int32 => rfl
  | varint =>
    rw [writeValue_varint h, length_varintDigits h]
    have hv : UInt32.toNat v < 268435456 := h
    show varintBytes (UInt32.toNat v) + 1 = if UInt32.toNat v < 128 then 2 else if UInt32.toNat v < 16384 then 3
      else if UInt32.toNat v < 2097152 then 4 else if UInt32.toNat v < 268435456 then 5 else 0
    unfold varintBytes
    split_ifs <;> rfl
  | binary =>
    have hv : (writeBinary v).length = 2 + List.length (α := UInt8) v := length_writeBinary v
    show (writeBinary v).length + 1 = 3 + List.length (α := UInt8) v
    omega
  | string =>
    show (writeString (CString.bytes v)).length + 1 = 3 + (CString.bytes v).length
    rw [length_writeString_of_le h.1]
    omega
  | pair =>
    show (writeString (CString.bytes v.1) ++ writeString (CString.bytes v.2)).length + 1 =
      5 + (CString.bytes v.2).length + (CString.bytes v.1).length
    rw [List.length_append, length_writeString_of_le h.1.1, length_writeString_of_le h.2.1]
    omega

/-- `property__read` takes back one property that fits. -/
theorem reads_property : Reads (ε := Rc) propertyRead (fun q => (propertyWrite q.1).1)
    (fun q => q.1.Fits ∧ q.2 = getLength q.1) where
  round := by
    rintro ⟨p, n⟩ s ⟨h, hn⟩
    obtain rfl : n = getLength p := hn
    have hcode := code_lt p.identifier
    have hone : varintDigits 5 p.identifier.code = [UInt8.ofNat p.identifier.code] := by
      rw [varintDigits, if_neg (by omega), Nat.mod_eq_of_lt hcode]
    have hid : readVarint (UInt8.ofNat p.identifier.code :: ((writeValue p.identifier.kind p.value).1 ++ s)) =
        .ok ((p.identifier.code, varintBytes p.identifier.code),
          (writeValue p.identifier.kind p.value).1 ++ s) := by
      have := reads_varint.round (a := (p.identifier.code, varintBytes p.identifier.code))
        ((writeValue p.identifier.kind p.value).1 ++ s) ⟨show p.identifier.code < 268435456 by omega, rfl⟩
      rwa [hone] at this
    have hv := (reads_value p.identifier.kind).round
      (a := (p.value, (writeValue p.identifier.kind p.value).1.length)) s ⟨h, rfl⟩
    have hlen := length_propertyWrite h
    simp only [propertyWrite_of_fits h, List.cons_append] at hlen ⊢
    unfold propertyRead
    simp only [hid, bind, Except.bind, PropId.ofCode_code, hv, ← hlen, List.length_cons, Nat.add_comm 1]
  only := by
    rintro s rest ⟨p, n⟩ h
    unfold propertyRead at h
    cases hid : readVarint s with
    | error e => simp [hid, bind, Except.bind] at h
    | ok r =>
      obtain ⟨⟨code, bytes⟩, s'⟩ := r
      obtain ⟨-, rfl⟩ := reads_varint.only hid
      cases hi : PropId.ofCode code with
      | none => simp [hid, hi, bind, Except.bind] at h
      | some i =>
        obtain rfl := PropId.code_of_ofCode hi
        cases hv : readValue i.kind s' with
        | error e => simp [hid, hi, hv, bind, Except.bind] at h
        | ok q =>
          obtain ⟨⟨v, taken⟩, s''⟩ := q
          simp only [hid, hi, hv, bind, Except.bind, Except.ok.injEq, Prod.mk.injEq] at h
          obtain ⟨⟨rfl, rfl⟩, rfl⟩ := h
          obtain ⟨⟨hfits, htaken⟩, rfl⟩ := (reads_value i.kind).only hv
          replace htaken : taken = (writeValue i.kind v).1.length := htaken
          have hp : (⟨i, v⟩ : MosquittoProperty).Fits := hfits
          have hone : varintDigits 5 i.code = [UInt8.ofNat i.code] := by
            have := code_lt i
            rw [varintDigits, if_neg (by omega), Nat.mod_eq_of_lt this]
          refine ⟨⟨hp, ?_⟩, ?_⟩
          · show 1 + taken = getLength ⟨i, v⟩
            rw [← length_propertyWrite hp, propertyWrite_of_fits hp, List.length_cons, Nat.add_comm, htaken]
          · show varintDigits 5 i.code ++ ((writeValue i.kind v).1 ++ s'') = (propertyWrite ⟨i, v⟩).1 ++ s''
            rw [propertyWrite_of_fits hp, hone]
            rfl

/-! ## The section -/

/-- The bytes of a list, one property after the other. -/
def spelled (l : List MosquittoProperty) : Bytes := l.flatMap (fun p => (propertyWrite p).1)

theorem propertyWriteFrom_of_fits {l : List MosquittoProperty} (h : ∀ p ∈ l, p.Fits) :
    propertyWriteFrom l = (spelled l, .success) := by
  induction l with
  | nil => rfl
  | cons p l ih =>
    have hp := h p (List.mem_cons_self ..)
    have hrest := ih (fun q hq => h q (List.mem_cons_of_mem _ hq))
    have hok : (propertyWrite p).2 = .success := by rw [propertyWrite_of_fits hp]
    simp only [propertyWriteFrom, andThen, if_pos hok, hrest, spelled, List.flatMap_cons]

/-- The announced length is that of the bytes. -/
theorem length_spelled {l : List MosquittoProperty} (h : ∀ p ∈ l, p.Fits) :
    (spelled l).length = getLengthAll l := by
  induction l with
  | nil => rfl
  | cons p l ih =>
    have hp := h p (List.mem_cons_self ..)
    have hrest := ih (fun q hq => h q (List.mem_cons_of_mem _ hq))
    rw [spelled, List.flatMap_cons, List.length_append, length_propertyWrite hp]
    show getLength p + (spelled l).length = getLength p + getLengthAll l
    rw [hrest]

theorem getLength_pos {p : MosquittoProperty} (h : p.Fits) : 0 < getLength p := by
  rw [← length_propertyWrite h, propertyWrite_of_fits h, List.length_cons]
  omega

theorem length_le_spelled {l : List MosquittoProperty} (h : ∀ p ∈ l, p.Fits) : l.length ≤ (spelled l).length := by
  rw [length_spelled h]
  induction l with
  | nil => exact Nat.le_refl _
  | cons p l ih =>
    have hpos := getLength_pos (h p (List.mem_cons_self ..))
    have hrest := ih (fun q hq => h q (List.mem_cons_of_mem _ hq))
    show l.length + 1 ≤ getLength p + getLengthAll l
    omega

/-- The loop of the decoder takes back a list that fits, if its length is what it counts down from. -/
theorem propertyReadFrom_spelled {l : List MosquittoProperty} (h : ∀ p ∈ l, p.Fits) {fuel : Nat}
    (hfuel : l.length ≤ fuel) (acc : List MosquittoProperty) (s : Bytes) :
    propertyReadFrom fuel (getLengthAll l) acc (spelled l ++ s) = .ok (acc ++ l, s) := by
  induction l generalizing fuel acc with
  | nil =>
    rw [List.append_nil]
    cases fuel <;> rfl
  | cons p l ih =>
    obtain ⟨fuel, rfl⟩ : ∃ n, fuel = n + 1 := ⟨fuel - 1, by simp only [List.length_cons] at hfuel; omega⟩
    have hp := h p (List.mem_cons_self ..)
    have hsum : getLengthAll (p :: l) = getLength p + getLengthAll l := rfl
    have hpos := getLength_pos hp
    have hread := reads_property.round (a := (p, getLength p)) (spelled l ++ s) ⟨hp, rfl⟩
    have hs : spelled (p :: l) ++ s = (propertyWrite p).1 ++ (spelled l ++ s) := by
      rw [spelled, List.flatMap_cons, List.append_assoc]
      rfl
    have hloop : ((getLengthAll (p :: l) : Nat) : Int) > 0 := by omega
    have hnext : ((getLengthAll (p :: l) : Nat) : Int) - (getLength p : Int) = (getLengthAll l : Nat) := by omega
    simp only [propertyReadFrom, if_pos hloop, hs, hread, bind, Except.bind, hnext]
    rw [ih (fun q hq => h q (List.mem_cons_of_mem _ hq)) (by simp only [List.length_cons] at hfuel; omega),
      List.append_assoc, List.singleton_append]

/-- With its length before it, a list that fits is written whole. -/
theorem writeAll_of_fits {l : List MosquittoProperty} (h : ∀ p ∈ l, p.Fits) (hlen : getLengthAll l < 268435456) :
    writeAll l true = (varintDigits 5 (getLengthAll l) ++ spelled l, .success) := by
  simp only [writeAll, if_true, andThen, writeVarint_of_lt hlen, propertyWriteFrom_of_fits h]

theorem getLengthAll_eq {l : List MosquittoProperty} (h : ∀ p ∈ l, p.Fits) :
    getLengthAll l = (writeAll l false).1.length := by
  simp only [writeAll, Bool.false_eq_true, if_false, propertyWriteFrom_of_fits h, length_spelled h]

/-- The section of a list that fits, taken off what follows it. -/
theorem readAll_spelled {command : Cmd} {l : List MosquittoProperty} (hcheck : checkAll command l = .success)
    (h : ∀ p ∈ l, p.Fits) (hlen : getLengthAll l < 268435456) (more : Bytes) :
    readAll command (varintDigits 5 (getLengthAll l) ++ (spelled l ++ more)) = .ok (l, more) := by
  have hprefix := reads_varint.round (a := (getLengthAll l, varintBytes (getLengthAll l))) (spelled l ++ more)
    ⟨hlen, rfl⟩
  have hfuel : l.length ≤ (spelled l ++ more).length := by
    have := length_le_spelled h
    rw [List.length_append]
    omega
  simp only [readAll, hprefix, bind, Except.bind, propertyReadFrom_spelled h hfuel, List.nil_append, hcheck]

/-- The length of a section is foretold, and its bytes read back as the list, whatever follows them. -/
theorem section_roundtrip {command : Cmd} {l : List MosquittoProperty} (hcheck : checkAll command l = .success)
    (h : ∀ p ∈ l, p.Fits) (hlen : getLengthAll l < 268435456) (more : Bytes) :
    getLengthAll l = (writeAll l false).1.length ∧
      (writeAll l true).2 = .success ∧ readAll command ((writeAll l true).1 ++ more) = .ok (l, more) := by
  refine ⟨getLengthAll_eq h, ?_, ?_⟩
  · rw [writeAll_of_fits h hlen]
  · rw [writeAll_of_fits h hlen, List.append_assoc]
    exact readAll_spelled hcheck h hlen more

/-- One property of each kind, and the user property twice. -/
def eachKind : List MosquittoProperty :=
  [⟨.payloadFormatIndicator, (1 : UInt8)⟩, ⟨.topicAlias, (3 : UInt16)⟩,
    ⟨.messageExpiryInterval, (70000 : UInt32)⟩,
   ⟨.subscriptionIdentifier, (300 : UInt32)⟩, ⟨.contentType, CString.of [116]⟩,
   ⟨.correlationData, ([0, 255] : Bytes)⟩, ⟨.userProperty, (CString.of [97], CString.of [98])⟩,
   ⟨.userProperty, (CString.of [97], CString.of [])⟩]

theorem section_roundtrip_eachKind :
    (getLengthAll eachKind = (writeAll eachKind false).1.length ∧
      (writeAll eachKind true).2 = .success ∧
        readAll .publish ((writeAll eachKind true).1 ++ [7]) =
        .ok (eachKind, [7])) ∧ getLengthAll eachKind = 35 :=
  ⟨section_roundtrip (by decide) (by decide) (by decide) [7], by decide⟩

/-! ## Lists that are built -/

inductive AddCall where
  | byte (value : UInt8)
  | int16 (value : UInt16)
  | int32 (value : UInt32)
  | varint (value : UInt32)
  | binary (value : Bytes) (len : UInt16)
  | string (value : Option CString)
  | pair (name value : Option CString)

def AddCall.run (c : AddCall) (l : List MosquittoProperty) (identifier : Nat) :
    Except Rc (List MosquittoProperty) :=
  match c with
  | .byte value => addByte l identifier value
  | .int16 value => addInt16 l identifier value
  | .int32 value => addInt32 l identifier value
  | .varint value => addVarint l identifier value
  | .binary value len => addBinary l identifier value len
  | .string value => addString l identifier value
  | .pair name value => addStringPair l identifier name value

/-- The lists that the add functions can make, which are the only ones an application has. -/
inductive Built : List MosquittoProperty → Prop where
  | nil : Built []
  | add (l l' : List MosquittoProperty) (c : AddCall) (identifier : Nat) : Built l →
      c.run l identifier = .ok l' → Built l'

/-- The strings and binaries of a value are at most 65535 bytes long. -/
def ShortValue : (k : Kind) → Value k → Prop
  | .string, v => (CString.bytes v).length ≤ 65535
  | .binary, v => List.length (α := UInt8) v ≤ 65535
  | .pair, v => (CString.bytes v.1).length ≤ 65535 ∧ (CString.bytes v.2).length ≤ 65535
  | .byte, _ | .int16, _ | .int32, _ | .varint, _ => True

def MosquittoProperty.Short (p : MosquittoProperty) : Prop := ShortValue p.identifier.kind p.value

instance : (k : Kind) → (v : Value k) → Decidable (ShortValue k v)
  | .string, v => inferInstanceAs (Decidable ((CString.bytes v).length ≤ 65535))
  | .binary, v => inferInstanceAs (Decidable (List.length (α := UInt8) v ≤ 65535))
  | .pair, v => inferInstanceAs (Decidable ((CString.bytes v.1).length ≤ 65535 ∧
      (CString.bytes v.2).length ≤ 65535))
  | .byte, _ | .int16, _ | .int32, _ | .varint, _ => inferInstanceAs (Decidable True)

instance (p : MosquittoProperty) : Decidable p.Short := inferInstanceAs (Decidable (ShortValue _ _))

/-- What the add functions see to: they refuse other strings and numbers. -/
def AddedValue : (k : Kind) → Value k → Prop
  | .varint, v => UInt32.toNat v < 268435456
  | .string, v => validateUtf8 (CString.bytes v) = .success
  | .pair, v => validateUtf8 (CString.bytes v.1) = .success ∧ validateUtf8 (CString.bytes v.2) = .success
  | .binary, v => List.length (α := UInt8) v ≤ 65535
  | .byte, _ | .int16, _ | .int32, _ => True

theorem fitsValue_iff {k : Kind} {v : Value k} (h : AddedValue k v) : FitsValue k v ↔ ShortValue k v := by
  cases k with
  | string => exact and_iff_left h
  | pair => exact and_congr (and_iff_left h.1) (and_iff_left h.2)
  | varint => exact iff_of_true h trivial
  | binary => exact Iff.rfl
  | byte => exact Iff.rfl
  | int16 => exact Iff.rfl
  | int32 => exact Iff.rfl

/-- What is known of the value of an entry, by way of `valueAs`. -/
theorem value_of_valueAs (P : (k : Kind) → Value k → Prop) {p : MosquittoProperty} {k : Kind} {v : Value k}
    (h : p.valueAs k = some v) (hP : P k v) : P p.identifier.kind p.value := by
  unfold MosquittoProperty.valueAs at h
  split at h
  · rename_i hk
    subst hk
    rw [← Option.some.inj h] at hP
    exact hP
  · cases h

theorem validateUtf8_nil : validateUtf8 CString.empty.bytes = .success := rfl

/-- One more entry, of a value that the function lets through. -/
theorem addCall_entry {c : AddCall} {l l' : List MosquittoProperty} {identifier : Nat}
    (h : c.run l identifier = .ok l') :
    ∃ p, l' = l ++ [p] ∧ p.identifier.code = identifier ∧ AddedValue p.identifier.kind p.value := by
  have entry {k : Kind} {v : Value k} (hv : AddedValue k v) (ha : addValue k l identifier v = .ok l') :
      ∃ p, l' = l ++ [p] ∧ p.identifier.code = identifier ∧ AddedValue p.identifier.kind p.value := by
    obtain ⟨p, hl, hcode, hp⟩ := addValue_ok ha
    exact ⟨p, hl, hcode, value_of_valueAs AddedValue hp hv⟩
  cases c with
  | byte value => exact entry (k := .byte) trivial h
  | int16 value => exact entry (k := .int16) trivial h
  | int32 value => exact entry (k := .int32) trivial h
  | varint value =>
    simp only [AddCall.run, addVarint] at h
    split at h
    · cases h
    · rename_i hle
      refine entry (k := .varint) ?_ h
      have hle' : value.toNat ≤ (268435455 : UInt32).toNat := UInt32.le_iff_toNat_le.mp (UInt32.not_lt.mp hle)
      exact Nat.lt_succ_of_le hle'
  | binary value len =>
    refine entry (k := .binary) ?_ h
    have := len.toNat_lt
    show (value.take len.toNat).length ≤ 65535
    rw [List.length_take]
    omega
  | string value =>
    cases value with
    | none => exact entry (k := .string) validateUtf8_nil h
    | some v =>
      simp only [AddCall.run, addString] at h
      split at h
      · cases h
      · rename_i hv
        exact entry (k := .string) (not_not.mp hv) h
  | pair name value =>
    simp only [AddCall.run, addStringPair] at h
    split at h
    · cases h
    split at h
    · cases h
    split at h
    · cases h
    rename_i hn hv
    have checked (s : Option CString) (hs : ¬ s.any (fun n => validateUtf8 n.bytes ≠ .success) = true) :
        validateUtf8 (s.getD CString.empty).bytes = .success := by
      cases s with
      | none => exact validateUtf8_nil
      | some s => simpa using hs
    exact entry (k := .pair) ⟨checked name hn, checked value hv⟩ h

theorem built_added {l : List MosquittoProperty} (h : Built l) :
    ∀ p ∈ l, AddedValue p.identifier.kind p.value := by
  induction h with
  | nil => exact fun p hp => (List.not_mem_nil hp).elim
  | add l l' c identifier _ hadd ih =>
    obtain ⟨p, rfl, -, hp⟩ := addCall_entry hadd
    intro q hq
    rcases List.mem_append.mp hq with hq | hq
    · exact ih q hq
    · rw [List.mem_singleton.mp hq]
      exact hp

end Artemisia.Property
