/-
  Artemisia.Property.Raw — MQTT 5 property lists as they lie in memory (`property_mosq.h`): a string is a
  pointer, NULL for an empty one, with an `int` for its length.

  The list of `Property.List` is what such a list says. The two part ways where a length does not fit an
  `int`: there the add functions check, and count, only the beginning of a string. Memory is there when it is
  asked for, and `malloc(0)` gives a pointer, as the libraries of Apple and GNU do.

  Proved:
  - `validateUtf8Int_length`: the check of a string whose length is an `int` is that of `Property.Datatypes`.
  - `run_said`:               with such strings, a call that adds to a list adds to what the list says.
  - `built_entries`:          what an entry of a list that has been built looks like.
  - `propertyWrite_said`:     what is written for such an entry is what is written for what it says.
-/
import Artemisia.Property.Write

namespace Artemisia.Property.Raw

open Artemisia.Property

/-! ## The structures -/

/-- A `size_t` passed as an `int`: on the machines at hand it wraps around. -/
def toInt (n : Nat) : Int := (n : Int).bmod 4294967296

/-- `struct mqtt__string`, of a C string or of bytes. -/
structure MqttString (α : Type) where
  /-- `none` is NULL. -/
  v : Option α
  len : Int
  deriving DecidableEq

/-- The union `value`, with `name` for a pair. -/
def RawValue : Kind → Type
  | .byte => UInt8
  | .int16 => UInt16
  | .int32 => UInt32
  | .varint => UInt32
  | .binary => MqttString Bytes
  | .string => MqttString CString
  | .pair => MqttString CString × MqttString CString

instance : (k : Kind) → DecidableEq (RawValue k)
  | .byte => inferInstanceAs (DecidableEq UInt8)
  | .int16 => inferInstanceAs (DecidableEq UInt16)
  | .int32 => inferInstanceAs (DecidableEq UInt32)
  | .varint => inferInstanceAs (DecidableEq UInt32)
  | .binary => inferInstanceAs (DecidableEq (MqttString Bytes))
  | .string => inferInstanceAs (DecidableEq (MqttString CString))
  | .pair => inferInstanceAs (DecidableEq (MqttString CString × MqttString CString))

structure Mqtt5Property where
  identifier : PropId
  value : RawValue identifier.kind
  clientGenerated : Bool
  deriving DecidableEq

/-! ## What a list says -/

def MqttString.text (s : MqttString CString) : CString := s.v.getD CString.empty

def saidValue : (k : Kind) → RawValue k → Value k
  | .byte, v => v
  | .int16, v => v
  | .int32, v => v
  | .varint, v => v
  | .binary, v => (MqttString.v v).getD []
  | .string, v => MqttString.text v
  | .pair, v => (MqttString.text v.1, MqttString.text v.2)

def Mqtt5Property.said (p : Mqtt5Property) : MosquittoProperty :=
  ⟨p.identifier, saidValue p.identifier.kind p.value⟩

/-! ## The check of a string -/

/-- The loop of `mosquitto_validate_utf8` with `left` bytes of its `len` to go, which need not be where the
    string ends. A sequence that begins before it may go on past it. -/
def validateUtf8Turns : Nat → Int → Bytes → Rc
  | 0, left, _ => if left ≤ 0 then .success else .malformedUtf8
  | fuel + 1, left, s =>
    if left ≤ 0 then .success
    else match s with
    | [] => .malformedUtf8
    | b :: s => match utf8Head b with
      | none => .malformedUtf8
      | some (codelen, first) =>
        if left = codelen - 1 then .malformedUtf8
        else match utf8Tail (codelen - 1) first s with
          | none => .malformedUtf8
          | some (codepoint, rest) =>
            if utf8Refused codelen codepoint then .malformedUtf8 else validateUtf8Turns fuel (left - codelen) rest

/-- `mosquitto_validate_utf8` of a string, with its parameter `len`. -/
def validateUtf8Int (str : Bytes) (len : Int) : Rc :=
  if len < 0 ∨ len > 65536 then .inval else validateUtf8Turns str.length len str

/-- A string as the add functions check it. -/
def checkString (s : CString) : Rc := validateUtf8Int s.bytes (toInt s.bytes.length)

/-! ## Building -/

theorem kind_symm {i : PropId} {k : Kind} (h : i.kind = k) : k = i.kind := h.symm

/-- `property__add` after the identifier check of the add functions. -/
def addValue (k : Kind) (proplist : List Mqtt5Property) (identifier : Nat) (value : RawValue k) :
    Except Rc (List Mqtt5Property) :=
  match PropId.ofCode identifier with
  | none => .error .inval
  | some i => if h : i.kind = k then .ok (proplist ++ [⟨i, kind_symm h ▸ value, true⟩]) else .error .inval

def addByte (l : List Mqtt5Property) (identifier : Nat) (value : UInt8) := addValue .byte l identifier value

def addInt16 (l : List Mqtt5Property) (identifier : Nat) (value : UInt16) := addValue .int16 l identifier value

def addInt32 (l : List Mqtt5Property) (identifier : Nat) (value : UInt32) := addValue .int32 l identifier value

def addVarint (l : List Mqtt5Property) (identifier : Nat) (value : UInt32) : Except Rc (List Mqtt5Property) :=
  if value > 268435455 then .error .inval else addValue .varint l identifier value

/-- A copy of so many bytes, NULL if there are none. -/
def copyBytes (value : Bytes) (len : UInt16) : MqttString Bytes :=
  if len = 0 then ⟨none, 0⟩ else ⟨some (value.take len.toNat), len.toNat⟩

/-- A copy of a string, NULL if it is empty or there is none. -/
def copyString (value : Option CString) : MqttString CString :=
  match value with
  | none => ⟨none, 0⟩
  | some v => if v.bytes = [] then ⟨none, 0⟩ else ⟨some v, toInt v.bytes.length⟩

def addBinary (l : List Mqtt5Property) (identifier : Nat) (value : Bytes) (len : UInt16) :=
  addValue .binary l identifier (copyBytes value len)

def addString (l : List Mqtt5Property) (identifier : Nat) (value : Option CString) :
    Except Rc (List Mqtt5Property) :=
  if value.any (fun v => checkString v ≠ .success) then .error .malformedUtf8
  else addValue .string l identifier (copyString value)

def addStringPair (l : List Mqtt5Property) (identifier : Nat) (name value : Option CString) :
    Except Rc (List Mqtt5Property) :=
  if identifier ≠ PropId.userProperty.code then .error .inval
  else if name.any (fun v => checkString v ≠ .success) then .error .malformedUtf8
  else if value.any (fun v => checkString v ≠ .success) then .error .malformedUtf8
  else addValue .pair l identifier (copyString name, copyString value)

def runCall (c : AddCall) (l : List Mqtt5Property) (identifier : Nat) : Except Rc (List Mqtt5Property) :=
  match c with
  | .byte value => addByte l identifier value
  | .int16 value => addInt16 l identifier value
  | .int32 value => addInt32 l identifier value
  | .varint value => addVarint l identifier value
  | .binary value len => addBinary l identifier value len
  | .string value => addString l identifier value
  | .pair name value => addStringPair l identifier name value

/-- There are as many bytes to be copied as a call says. -/
def Given : AddCall → Prop
  | .binary value len => len.toNat ≤ value.length
  | _ => True

/-- The lists that calls of the add functions make, those that return success. -/
inductive Built : List Mqtt5Property → Prop where
  | nil : Built []
  | add (l l' : List Mqtt5Property) (c : AddCall) (identifier : Nat) : Built l → Given c →
      runCall c l identifier = .ok l' →
      Built l'

/-! ## Writing -/

def addInt (a b : Int) : Int := (a + b).bmod 4294967296

/-- `packet__write_string`, whose parameter `length` is a `uint16_t`. -/
def writeString (s : MqttString CString) : Bytes :=
  writeUint16 (UInt16.ofInt s.len) ++ s.text.bytes.take (UInt16.ofInt s.len).toNat

/-- `packet__write_uint16` and `packet__write_bytes`, whose parameter `count` is not. -/
def writeBinary (b : MqttString Bytes) : Bytes :=
  writeUint16 (UInt16.ofInt b.len) ++ (b.v.getD []).take b.len.toNat

def writeValue : (k : Kind) → RawValue k → Bytes × Rc
  | .byte, v => (writeByte v, .success)
  | .int16, v => (writeUint16 v, .success)
  | .int32, v => (writeUint32 v, .success)
  | .varint, v => writeVarint (UInt32.toInt32 v).toInt
  | .string, v => (writeString v, .success)
  | .binary, v => (writeBinary v, .success)
  | .pair, v => (writeString v.1 ++ writeString v.2, .success)

def propertyWrite (p : Mqtt5Property) : Bytes × Rc :=
  andThen (writeVarint p.identifier.code) (writeValue p.identifier.kind p.value)

/-- The cases of `property__get_length`. -/
def lengthValue : (k : Kind) → RawValue k → Int
  | .byte, _ => 2
  | .int16, _ => 3
  | .int32, _ => 5
  | .varint, v =>
    let n := UInt32.toNat v
    if n < 128 then 2 else if n < 16384 then 3 else if n < 2097152 then 4 else if n < 268435456 then 5 else 0
  | .binary, v => addInt 3 (MqttString.len v)
  | .string, v => addInt 3 (MqttString.len v)
  | .pair, v => addInt (addInt 5 (MqttString.len v.2)) (MqttString.len v.1)

def getLength (p : Mqtt5Property) : Int := lengthValue p.identifier.kind p.value

def getLengthAll (l : List Mqtt5Property) : Int := l.foldl (fun len p => addInt len (getLength p)) 0

def propertyWriteFrom : List Mqtt5Property → Bytes × Rc
  | [] => ([], .success)
  | p :: l => andThen (propertyWrite p) (propertyWriteFrom l)

def writeAll (l : List Mqtt5Property) (writeLen : Bool) : Bytes × Rc :=
  if writeLen then andThen (writeVarint (getLengthAll l)) (propertyWriteFrom l) else propertyWriteFrom l

/-! ## Lengths that an int holds -/

theorem toInt_of_lt {n : Nat} (h : n < 2147483648) : toInt n = n := by
  unfold toInt
  rw [Int.bmod_eq_of_le (by omega) (by omega)]

theorem validateUtf8Turns_length (fuel : Nat) (s : Bytes) :
    validateUtf8Turns fuel s.length s = validateUtf8From fuel s := by
  induction fuel generalizing s with
  | zero => cases s <;> simp [validateUtf8Turns, validateUtf8From]
  | succ fuel ih =>
    cases s with
    | nil => simp [validateUtf8Turns, validateUtf8From]
    | cons b s =>
      have hpos : ¬ (((b :: s).length : Nat) : Int) ≤ 0 := by
        rw [List.length_cons]
        omega
      unfold validateUtf8Turns validateUtf8From
      rw [if_neg hpos]
      dsimp only
      cases hhead : utf8Head b with
      | none => rfl
      | some r =>
        obtain ⟨codelen, first⟩ := r
        have hcode := utf8Head_pos hhead
        have hshort : (((b :: s).length : Nat) : Int) = (codelen : Int) - 1 ↔ s.length + 1 = codelen - 1 := by
          rw [List.length_cons]
          omega
        dsimp only
        by_cases hs : s.length + 1 = codelen - 1
        · rw [if_pos hs, if_pos (hshort.mpr hs)]
        rw [if_neg hs, if_neg (fun h => hs (hshort.mp h))]
        cases htail : utf8Tail (codelen - 1) first s with
        | none => rfl
        | some q =>
          obtain ⟨codepoint, rest⟩ := q
          have hlen : s.length = codelen - 1 + rest.length := by
            obtain ⟨taken, rfl, htaken, -⟩ := utf8Tail_taken htail
            rw [List.length_append, htaken]
          have hleft : (((b :: s).length : Nat) : Int) - codelen = rest.length := by
            rw [List.length_cons]
            omega
          dsimp only
          rw [hleft, ih rest]

theorem letters_nonzero (n : Nat) : ∀ b ∈ List.replicate n (97 : UInt8), b ≠ 0 := by
  intro b hb
  rw [List.eq_of_mem_replicate hb]
  decide

/-- With a length that an `int` holds, the check is that of the string. -/
theorem validateUtf8Int_length {s : Bytes} (h : s.length < 2147483648) :
    validateUtf8Int s (toInt s.length) = validateUtf8 s := by
  unfold validateUtf8Int validateUtf8
  rw [toInt_of_lt h, validateUtf8Turns_length]
  by_cases hl : s.length > 65536
  · rw [if_pos hl, if_pos (.inr (by omega))]
  · rw [if_neg hl, if_neg (by omega)]

/-! ## A list and what it says -/

theorem addValue_said {k : Kind} (l : List Mqtt5Property) (identifier : Nat) (v : RawValue k) :
    (addValue k l identifier v).map (List.map Mqtt5Property.said) =
      Property.addValue k (l.map Mqtt5Property.said) identifier (saidValue k v) := by
  unfold addValue Property.addValue
  cases PropId.ofCode identifier with
  | none => rfl
  | some i =>
    dsimp only
    by_cases hk : i.kind = k
    · subst hk
      rw [dif_pos rfl, dif_pos rfl]
      show Except.ok ((l ++ [_]).map Mqtt5Property.said) = _
      rw [List.map_append]
      rfl
    · rw [dif_neg hk, dif_neg hk]
      rfl

theorem copyString_text (value : Option CString) : (copyString value).text = value.getD CString.empty := by
  cases value with
  | none => rfl
  | some v =>
    unfold copyString
    dsimp only
    split
    · rename_i h
      obtain ⟨bytes, hb⟩ := v
      subst h
      rfl
    · rfl

theorem copyBytes_said (value : Bytes) (len : UInt16) :
    (copyBytes value len).v.getD [] = value.take len.toNat := by
  unfold copyBytes
  split
  · rename_i h
    rw [h]
    rfl
  · rfl

/-- An `int` can say how long the strings of a call are. -/
def Ints : AddCall → Prop
  | .string value => ∀ v ∈ value, v.bytes.length < 2147483648
  | .pair name value => (∀ v ∈ name, v.bytes.length < 2147483648) ∧ ∀ v ∈ value, v.bytes.length < 2147483648
  | _ => True

theorem checkString_eq {v : CString} (h : v.bytes.length < 2147483648) :
    checkString v = validateUtf8 v.bytes := by
  unfold checkString
  exact validateUtf8Int_length h

theorem any_checkString {value : Option CString} (h : ∀ v ∈ value, v.bytes.length < 2147483648) :
    value.any (fun v => checkString v ≠ .success) = value.any (fun v => validateUtf8 v.bytes ≠ .success) := by
  cases value with
  | none => rw [Option.any_none, Option.any_none]
  | some v =>
    have hlt : v.bytes.length < 2147483648 := h v (Option.mem_some_self v)
    rw [Option.any_some, Option.any_some, decide_eq_decide, checkString_eq hlt]

/-- A call adds to what the list says, or is refused for the same reason. -/
theorem run_said (c : AddCall) (hc : Ints c) (l : List Mqtt5Property) (identifier : Nat) :
    (runCall c l identifier).map (List.map Mqtt5Property.said) = c.run (l.map Mqtt5Property.said) identifier := by
  cases c with
  | byte value => exact addValue_said (k := .byte) l identifier value
  | int16 value => exact addValue_said (k := .int16) l identifier value
  | int32 value => exact addValue_said (k := .int32) l identifier value
  | varint value =>
    simp only [runCall, AddCall.run, addVarint, Property.addVarint]
    split
    · rfl
    · exact addValue_said (k := .varint) l identifier value
  | binary value len =>
    have h := addValue_said (k := .binary) l identifier (copyBytes value len)
    rw [show saidValue .binary (copyBytes value len) = value.take len.toNat from copyBytes_said value len] at h
    exact h
  | string value =>
    have hints : ∀ v ∈ value, v.bytes.length < 2147483648 := hc
    have h := addValue_said (k := .string) l identifier (copyString value)
    rw [show saidValue .string (copyString value) = value.getD CString.empty from copyString_text value] at h
    simp only [runCall, AddCall.run, addString, Property.addString, any_checkString hints]
    cases value with
    | none => exact h
    | some v =>
      simp only [Option.any_some, decide_eq_true_eq]
      split
      · rfl
      · exact h
  | pair name value =>
    obtain ⟨hname, hvalue⟩ : (∀ v ∈ name, v.bytes.length < 2147483648) ∧
        ∀ v ∈ value, v.bytes.length < 2147483648 := hc
    have h := addValue_said (k := .pair) l identifier (copyString name, copyString value)
    rw [show saidValue .pair (copyString name, copyString value) =
      (name.getD CString.empty, value.getD CString.empty) from
      Prod.ext (copyString_text name) (copyString_text value)] at h
    simp only [runCall, AddCall.run, addStringPair, Property.addStringPair, any_checkString hname,
      any_checkString hvalue]
    split
    · rfl
    split
    · rfl
    split
    · rfl
    · exact h

theorem runCall_contentType {v : CString} (hlt : v.bytes.length < 2147483648)
    (hv : validateUtf8 v.bytes = .success)
    (l : List Mqtt5Property) :
    runCall (.string (some v)) l 3 = .ok (l ++ [⟨.contentType, copyString (some v), true⟩]) := by
  have hcheck : ¬ (some v).any (fun v => checkString v ≠ .success) = true := by
    rw [Option.any_some, decide_eq_true_eq, checkString_eq hlt, hv]
    exact fun h => h rfl
  show addString l 3 (some v) = _
  unfold addString
  rw [if_neg hcheck]
  rfl

/-! ## What has been built -/

/-- A string that the add functions have checked and copied. -/
def Copied (s : MqttString CString) : Prop := ∃ value :
  Option CString, (∀ v ∈ value, checkString v = .success) ∧ s = copyString value

/-- What the add functions put into an entry. -/
def StoredValue : (k : Kind) → RawValue k → Prop
  | .string, v => Copied v
  | .pair, v => Copied v.1 ∧ Copied v.2
  | .binary, v => ∃ b : Bytes, b.length ≤ 65535 ∧ (MqttString.v v).getD [] = b ∧ MqttString.len v = b.length
  | .varint, v => UInt32.toNat v < 268435456
  | .byte, _ | .int16, _ | .int32, _ => True

structure Mqtt5Property.Stored (p : Mqtt5Property) : Prop where
  value : StoredValue p.identifier.kind p.value
  generated : p.clientGenerated = true

theorem addValue_stored {k : Kind} {l l' : List Mqtt5Property} {identifier : Nat} {v : RawValue k}
    (h : addValue k l identifier v = .ok l') (hv : StoredValue k v) : ∃ p, l' = l ++ [p] ∧ p.Stored := by
  unfold addValue at h
  split at h
  · cases h
  · split at h
    · rename_i hk
      subst hk
      cases h
      exact ⟨_, rfl, hv, rfl⟩
    · cases h

theorem copied_of_check {value : Option CString} (h : ¬ value.any (fun v => checkString v ≠ .success) = true) :
    Copied (copyString value) := by
  refine ⟨value, fun v hv => ?_, rfl⟩
  rw [Option.mem_def] at hv
  subst hv
  rw [Option.any_some, decide_eq_true_eq] at h
  exact not_not.mp h

theorem copyBytes_stored {value : Bytes} {len : UInt16} (h : len.toNat ≤ value.length) :
    StoredValue .binary (copyBytes value len) := by
  have hlen := len.toNat_lt
  refine ⟨value.take len.toNat, ?_, copyBytes_said value len, ?_⟩
  · rw [List.length_take]
    omega
  · rw [List.length_take, Nat.min_eq_left h]
    unfold copyBytes
    split
    · rename_i h0
      rw [h0]
      rfl
    · rfl

theorem runCall_stored {c : AddCall} {l l' : List Mqtt5Property} {identifier : Nat} (hg : Given c)
    (h : runCall c l identifier = .ok l') : ∃ p, l' = l ++ [p] ∧ p.Stored := by
  cases c with
  | byte value => exact addValue_stored (k := .byte) h trivial
  | int16 value => exact addValue_stored (k := .int16) h trivial
  | int32 value => exact addValue_stored (k := .int32) h trivial
  | varint value =>
    simp only [runCall, addVarint] at h
    split at h
    · cases h
    · rename_i hle
      refine addValue_stored (k := .varint) h ?_
      have hle' : value.toNat ≤ (268435455 : UInt32).toNat := UInt32.le_iff_toNat_le.mp (UInt32.not_lt.mp hle)
      exact Nat.lt_succ_of_le hle'
  | binary value len => exact addValue_stored (k := .binary) h (copyBytes_stored hg)
  | string value =>
    simp only [runCall, addString] at h
    split at h
    · cases h
    · rename_i hv
      exact addValue_stored (k := .string) h (copied_of_check hv)
  | pair name value =>
    simp only [runCall, addStringPair] at h
    split at h
    · cases h
    split at h
    · cases h
    split at h
    · cases h
    rename_i hn hv
    exact addValue_stored (k := .pair) h ⟨copied_of_check hn, copied_of_check hv⟩

theorem built_entries {l : List Mqtt5Property} (h : Built l) : ∀ p ∈ l, p.Stored := by
  induction h with
  | nil => exact fun p hp => (List.not_mem_nil hp).elim
  | add l l' c identifier _ hg hadd ih =>
    obtain ⟨p, rfl, hp⟩ := runCall_stored hg hadd
    intro q hq
    rcases List.mem_append.mp hq with hq | hq
    · exact ih q hq
    · rw [List.mem_singleton.mp hq]
      exact hp

/-! ## What is written -/

/-- The length that is kept is that of the string, as an `int`. -/
theorem Copied.len {s : MqttString CString} (h : Copied s) : s.len = toInt s.text.bytes.length := by
  obtain ⟨value, -, rfl⟩ := h
  have hzero : (0 : Int) = toInt 0 := (toInt_of_lt (by decide)).symm
  cases value with
  | none => exact hzero
  | some v =>
    unfold copyString
    dsimp only
    split
    · exact hzero
    · rw [MqttString.text, Option.getD_some]

/-- It is NULL exactly when the string is empty. -/
theorem Copied.null {s : MqttString CString} (h : Copied s) : s.v = none ↔ s.text.bytes = [] := by
  obtain ⟨value, -, rfl⟩ := h
  cases value with
  | none => exact iff_of_true rfl rfl
  | some v =>
    unfold copyString
    dsimp only
    split
    · exact iff_of_true rfl rfl
    · rename_i hv
      exact iff_of_false (Option.some_ne_none v) hv

theorem ofInt_natCast16 (n : Nat) : UInt16.ofInt n = UInt16.ofNat n := by
  apply UInt16.toNat_inj.mp
  rw [UInt16.ofInt, UInt16.toNat_ofNat', UInt16.toNat_ofNat']
  omega

theorem writeString_said {s : MqttString CString} (h : Copied s) (hs : s.text.bytes.length ≤ 65535) :
    writeString s = Property.writeString s.text.bytes := by
  have hlen : s.len = s.text.bytes.length := h.len.trans (toInt_of_lt (by omega))
  unfold writeString Property.writeString
  rw [hlen, ofInt_natCast16, ofNat_toNat16 (by omega), Nat.mod_eq_of_lt (by omega)]

/-- What is written for a value is what is written for what it says, if its strings are short. -/
theorem writeValue_said {k : Kind} {v : RawValue k} (h : StoredValue k v) (hs : ShortValue k (saidValue k v)) :
    writeValue k v = Property.writeValue k (saidValue k v) := by
  cases k with
  | string => exact congrArg (·, Rc.success) (writeString_said h hs)
  | pair =>
    refine congrArg (·, Rc.success) ?_
    rw [writeString_said h.1 hs.1, writeString_said h.2 hs.2]
    rfl
  | binary =>
    obtain ⟨b, hb, hv, hlen⟩ := h
    refine congrArg (·, Rc.success) ?_
    show writeUint16 (UInt16.ofInt (MqttString.len v)) ++ ((MqttString.v v).getD []).take
        (MqttString.len v).toNat =
      Property.writeBinary ((MqttString.v v).getD [])
    rw [hv, hlen, ofInt_natCast16, Int.toNat_natCast, List.take_length]
    rfl
  | _ => rfl

theorem propertyWrite_said {p : Mqtt5Property} (h : p.Stored) (hs : p.said.Short) :
    propertyWrite p = Property.propertyWrite p.said := by
  unfold propertyWrite Property.propertyWrite
  rw [writeValue_said h.value hs]
  rfl

end Artemisia.Property.Raw
