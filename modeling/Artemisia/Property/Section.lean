/-
  Artemisia.Property.Section — where the property decoder stops (`property__read_all`).

  The loop counts the declared length down and stops once it is not positive, so a property that begins
  inside the section is read to its end, be that inside or not.

  Proved:
  - `propertyReadFrom_iff`:   what the loop takes is the spelling of the list it gives, property by property.
  - `readAll_iff`:            what the decoder accepts, and what it leaves.
  - `readAll_consumed_iff`:   it takes the declared bytes, which the list is written back to, exactly when the
                              section is made of whole properties.
  - `readAll_aborted`:        it ends the process exactly where it comes to an identifier that it does not know.
  - `obtained_fits`:          a list that an application has can be written, if its strings are not too long.
-/
import Artemisia.Property.Write

namespace Artemisia.Property

open Codec

/-! ## Whole properties -/

/-- The size of a field that has its length before it. -/
def prefixedSize : Bytes → Nat
  | msb :: lsb :: _ => 2 + (msb.toNat * 256 + lsb.toNat)
  | _ => 2

/-- The size of the field of a kind at the front, going by its own lengths and marks. -/
def fieldSize : Kind → Bytes → Nat
  | .byte, _ => 1
  | .int16, _ => 2
  | .int32, _ => 4
  | .varint, s => (s.takeWhile (fun b => 128 ≤ b.toNat)).length + 1
  | .binary, s => prefixedSize s
  | .string, s => prefixedSize s
  | .pair, s => prefixedSize s + prefixedSize (s.drop (prefixedSize s))

/-- So many bytes from here on are whole properties: an identifier and its field, and one that ends where
    they end. -/
inductive Whole : Nat → Bytes → Prop where
  | done (s : Bytes) : Whole 0 s
  | next (i : PropId) (s : Bytes) (n : Nat) : Whole n (s.drop (fieldSize i.kind s)) →
      Whole (1 + fieldSize i.kind s + n) (UInt8.ofNat i.code :: s)

/-! ## Sizes of what is written -/

theorem prefixedSize_writeBinary {data : Bytes} (h : data.length ≤ 65535) (s : Bytes) :
    prefixedSize (writeBinary data ++ s) = 2 + data.length := by
  have hword : (UInt16.ofNat data.length).toNat = data.length := ofNat_toNat16 (by omega)
  have hh : (UInt8.ofNat (data.length / 256)).toNat = data.length / 256 := ofNat_toNat8 (by omega)
  have hl : (UInt8.ofNat (data.length % 256)).toNat = data.length % 256 := ofNat_toNat8 (by omega)
  simp only [writeBinary, writeUint16, hword, List.cons_append, prefixedSize, hh, hl]
  omega

theorem prefixedSize_writeString {str : Bytes} (h : str.length ≤ 65535) (s : Bytes) :
    prefixedSize (writeString str ++ s) = (writeString str).length := by
  rw [length_writeString_of_le h, writeString_of_le h, prefixedSize_writeBinary h]

theorem fieldSize_pair {name str : Bytes} (hn : name.length ≤ 65535) (hs : str.length ≤ 65535) (s : Bytes) :
    fieldSize .pair (writeString name ++ writeString str ++ s) = (writeString name ++
    writeString str).length := by
  rw [List.append_assoc, fieldSize, prefixedSize_writeString hn, List.drop_left, prefixedSize_writeString hs,
    List.length_append]

theorem fieldSize_varintDigits {n word : Nat} (hn : 0 < n) (h : word < 128 ^ n) (s : Bytes) :
    fieldSize .varint (varintDigits n word ++ s) = (varintDigits n word).length := by
  induction n generalizing word with
  | zero => omega
  | succ n ih =>
    by_cases hw : word / 128 > 0
    · obtain ⟨hpos, hlt⟩ := digits_more h hw
      have htop : decide (128 ≤ (UInt8.ofNat (word % 128) ||| 0x80).toNat) = true := by
        rw [moreDigit_toNat]
        exact decide_eq_true (by omega)
      have hrest := ih hpos hlt
      simp only [varintDigits, if_pos hw, List.cons_append, fieldSize, List.takeWhile_cons, htop, if_true,
        List.length_cons] at hrest ⊢
      omega
    · have hlow : decide (128 ≤ (UInt8.ofNat (word % 128)).toNat) = false := by
        rw [lastDigit_toNat (by omega)]
        exact decide_eq_false (by omega)
      simp only [varintDigits, if_neg hw, List.cons_append, List.nil_append, fieldSize, List.takeWhile_cons, hlow,
        Bool.false_eq_true, if_false, List.length_cons, List.length_nil]

theorem fieldSize_writeValue {k : Kind} {v : Value k} (h : FitsValue k v) (s : Bytes) :
    fieldSize k ((writeValue k v).1 ++ s) = (writeValue k v).1.length := by
  cases k with
  | byte => rfl
  | int16 => rfl
  | int32 => rfl
  | varint =>
    have hv : UInt32.toNat v < 268435456 := h
    rw [writeValue_varint hv]
    exact fieldSize_varintDigits (by omega) (by omega) s
  | binary =>
    show prefixedSize (writeBinary v ++ s) = (writeBinary v).length
    exact (prefixedSize_writeBinary h s).trans (length_writeBinary v).symm
  | string => exact prefixedSize_writeString h.1 s
  | pair => exact fieldSize_pair h.1.1 h.2.1 s

/-- A property at the front of whole ones: it ends inside, and the rest is whole. -/
theorem whole_write_iff {p : MosquittoProperty} (h : p.Fits) (n : Nat) (hn : 0 < n) (s : Bytes) :
    Whole n ((propertyWrite p).1 ++ s) ↔ getLength p ≤ n ∧ Whole (n - getLength p) s := by
  have hsize := fieldSize_writeValue h s
  have hlen := length_propertyWrite h
  rw [propertyWrite_of_fits h, List.length_cons] at hlen
  rw [propertyWrite_of_fits h]
  have hdrop : ((writeValue p.identifier.kind p.value).1 ++ s).drop
      (fieldSize p.identifier.kind ((writeValue p.identifier.kind p.value).1 ++ s)) = s := by
    rw [hsize, List.drop_left]
  constructor
  · intro hw
    generalize hb : UInt8.ofNat p.identifier.code :: (writeValue p.identifier.kind p.value).1 ++ s = b at hw
    cases hw with
    | done => omega
    | next i t m ht =>
      rw [List.cons_append, List.cons.injEq] at hb
      obtain ⟨hcode, rfl⟩ := hb
      have hi : p.identifier = i := by
        have h1 := code_lt p.identifier
        have h2 := code_lt i
        have := congrArg UInt8.toNat hcode
        rw [ofNat_toNat8 (by omega), ofNat_toNat8 (by omega)] at this
        exact PropId.code_inj.mp this
      subst hi
      rw [hdrop] at ht
      rw [hsize]
      have he : 1 + (writeValue p.identifier.kind p.value).1.length + m - getLength p = m := by omega
      exact ⟨by omega, by rwa [he]⟩
  · intro hx
    obtain ⟨hle, hw⟩ := hx
    have hnext := Whole.next p.identifier ((writeValue p.identifier.kind p.value).1 ++ s) (n - getLength p)
      (by rwa [hdrop])
    rw [hsize] at hnext
    have he : 1 + (writeValue p.identifier.kind p.value).1.length + (n - getLength p) = n := by omega
    rwa [he] at hnext

/-! ## The decoder -/

/-- The properties that the loop takes for so many declared bytes: one more as long as there are some left. -/
def Reached : Nat → List MosquittoProperty → Prop
  | n, [] => n = 0
  | n, p :: l => 0 < n ∧ Reached (n - getLength p) l

theorem reached_zero {l : List MosquittoProperty} : Reached 0 l ↔ l = [] := by
  cases l with
  | nil => simp [Reached]
  | cons p l => simp [Reached]

/-- Properties that are as long as declared are reached. -/
theorem reached_length {l : List MosquittoProperty} (h : ∀ p ∈ l, p.Fits) : Reached (getLengthAll l) l := by
  induction l with
  | nil => rfl
  | cons p l ih =>
    have hsum : getLengthAll (p :: l) = getLength p + getLengthAll l := rfl
    have hpos := getLength_pos (h p (List.mem_cons_self ..))
    refine ⟨by omega, ?_⟩
    rw [hsum, Nat.add_sub_cancel_left]
    exact ih (fun q hq => h q (List.mem_cons_of_mem _ hq))

theorem Reached.le {n : Nat} {l : List MosquittoProperty} (h : Reached n l) : n ≤ getLengthAll l := by
  induction l generalizing n with
  | nil => exact Nat.le_of_eq h
  | cons p l ih =>
    have hrest := ih h.2
    show n ≤ getLength p + getLengthAll l
    omega

theorem propertyReadFrom_stop {fuel : Nat} {left : Int} {acc : List MosquittoProperty} {s : Bytes}
    (h : ¬ left > 0) :
    propertyReadFrom fuel left acc s = .ok (acc, s) := by
  cases fuel with
  | zero => rw [propertyReadFrom, if_neg h]
  | succ fuel => rw [propertyReadFrom, if_neg h]

/-- Nothing is left when more has been taken than was declared. -/
theorem propertyReadFrom_sub (fuel n k : Nat) (acc : List MosquittoProperty) (s : Bytes) :
    propertyReadFrom fuel ((n : Int) - (k : Int)) acc s = propertyReadFrom fuel (n - k : Nat) acc s := by
  by_cases hle : k ≤ n
  · rw [Int.ofNat_sub hle]
  · rw [show n - k = 0 by omega, propertyReadFrom_stop (by omega), propertyReadFrom_stop (by simp)]

/-- The loop takes the properties that are reached off the front, and nothing else. -/
theorem propertyReadFrom_iff {fuel n : Nat} {acc r : List MosquittoProperty} {s rest : Bytes}
    (hfuel : s.length ≤ fuel) :
    propertyReadFrom fuel n acc s = .ok (r, rest) ↔
      ∃ l, r = acc ++ l ∧ (∀ p ∈ l, p.Fits) ∧ s = spelled l ++ rest ∧ Reached n l := by
  induction fuel generalizing n acc s with
  | zero =>
    obtain rfl : s = [] := List.eq_nil_of_length_eq_zero (by omega)
    constructor
    · intro h
      simp only [propertyReadFrom] at h
      split at h
      · cases h
      · cases h
        exact ⟨[], (List.append_nil _).symm, List.forall_mem_nil _, rfl, by simp only [Reached]; omega⟩
    · rintro ⟨l, rfl, hfits, hs, hreach⟩
      obtain ⟨hl, rfl⟩ := List.append_eq_nil_iff.mp hs.symm
      obtain rfl : l = [] := List.eq_nil_of_length_eq_zero (by simpa [hl] using length_le_spelled hfits)
      obtain rfl : n = 0 := hreach
      simp [propertyReadFrom]
  | succ fuel ih =>
    rcases Nat.eq_zero_or_pos n with rfl | hn
    · rw [propertyReadFrom_stop (by simp)]
      constructor
      · intro h
        cases h
        exact ⟨[], (List.append_nil _).symm, List.forall_mem_nil _, rfl, rfl⟩
      · rintro ⟨l, rfl, -, rfl, hreach⟩
        rw [reached_zero.mp hreach]
        simp [spelled]
    have hgo : (n : Int) > 0 := by omega
    -- one turn, after which fewer bytes are declared, or none
    have hturn (p : MosquittoProperty) (s' : Bytes) (hlen : s'.length ≤ fuel) :
        propertyReadFrom fuel ((n : Int) - (getLength p : Int)) (acc ++ [p]) s' = .ok (r, rest) ↔
          ∃ l, r = acc ++ [p] ++ l ∧ (∀ q ∈ l, q.Fits) ∧ s' = spelled l ++ rest ∧
            Reached (n - getLength p) l := by
      rw [← ih hlen, propertyReadFrom_sub]
    constructor
    · intro h
      simp only [propertyReadFrom, if_pos hgo] at h
      cases hr : propertyRead s with
      | error e => simp [hr, bind, Except.bind] at h
      | ok q =>
        obtain ⟨⟨p, taken⟩, s'⟩ := q
        obtain ⟨⟨hp, htaken⟩, rfl⟩ := reads_property.only hr
        obtain rfl : taken = getLength p := htaken
        replace hp : p.Fits := hp
        simp only [hr, bind, Except.bind] at h
        have hlen := length_propertyWrite hp
        have hpos := getLength_pos hp
        rw [List.length_append, hlen] at hfuel
        obtain ⟨l, rfl, hfits, rfl, hreach⟩ := (hturn p s' (by omega)).mp h
        refine ⟨p :: l, by simp, List.forall_mem_cons.mpr ⟨hp, hfits⟩, by simp [spelled], hn, hreach⟩
    · rintro ⟨l, rfl, hfits, rfl, hreach⟩
      cases l with
      | nil =>
        obtain rfl : n = 0 := hreach
        omega
      | cons p l =>
        obtain ⟨hp, hrest⟩ := List.forall_mem_cons.mp hfits
        have hs : spelled (p :: l) ++ rest = (propertyWrite p).1 ++ (spelled l ++ rest) := by simp [spelled]
        have hread : propertyRead (spelled (p :: l) ++ rest) = .ok ((p, getLength p), spelled l ++ rest) := by
          rw [hs]
          exact reads_property.round (a := (p, getLength p)) (spelled l ++ rest) ⟨hp, rfl⟩
        have hlen := length_propertyWrite hp
        have hpos := getLength_pos hp
        rw [hs, List.length_append, hlen] at hfuel
        simp only [propertyReadFrom, if_pos hgo, hread, bind, Except.bind]
        exact (hturn p _ (by omega)).mpr ⟨l, by simp, hrest, rfl, hreach.2⟩

/-- They are as long as what was declared when that is whole properties. -/
theorem reached_whole {n : Nat} {l : List MosquittoProperty} (h : ∀ p ∈ l, p.Fits) (hr : Reached n l)
    (rest : Bytes) :
    getLengthAll l = n ↔ Whole n (spelled l ++ rest) := by
  induction l generalizing n with
  | nil =>
    obtain rfl : n = 0 := hr
    exact iff_of_true rfl (.done _)
  | cons p l ih =>
    obtain ⟨hp, hl⟩ := List.forall_mem_cons.mp h
    obtain ⟨hn, hrest⟩ := hr
    have hs : spelled (p :: l) ++ rest = (propertyWrite p).1 ++ (spelled l ++ rest) := by simp [spelled]
    rw [hs, whole_write_iff hp n hn, ← ih hl hrest]
    show getLength p + getLengthAll l = n ↔ _
    omega

/-- A list that was decoded fits, and it is written back to the bytes after the length. -/
theorem readAll_only {command : Cmd} {s rest : Bytes} {l : List MosquittoProperty}
    (h : readAll command s = .ok (l, rest)) {proplen bytes : Nat} {body : Bytes}
    (hp : readVarint s = .ok ((proplen, bytes), body)) :
    (∀ p ∈ l, p.Fits) ∧ body = spelled l ++ rest ∧ (getLengthAll l = proplen ↔ Whole proplen body) := by
  cases hl : propertyReadFrom body.length proplen [] body with
  | error e => simp [readAll, hp, hl, bind, Except.bind] at h
  | ok r =>
    obtain ⟨l', rest'⟩ := r
    simp only [readAll, hp, hl, bind, Except.bind] at h
    split at h
    · simp only [Except.ok.injEq, Prod.mk.injEq] at h
      obtain ⟨rfl, rfl⟩ := h
      obtain ⟨read, rfl, hfits, hbody, hreach⟩ := (propertyReadFrom_iff (Nat.le_refl _)).mp hl
      exact ⟨hfits, hbody, hbody ▸ reached_whole hfits hreach rest'⟩
    · cases h

/-- What the decoder accepts: a length, and properties of the packet that are reached. -/
theorem readAll_iff {command : Cmd} {s rest : Bytes} {l : List MosquittoProperty} :
    readAll command s = .ok (l, rest) ↔ ∃ n, n < 268435456 ∧ s = varintDigits 5 n ++ (spelled l ++ rest) ∧
      (∀ p ∈ l, p.Fits) ∧ Reached n l ∧ checkAll command l = .success := by
  constructor
  · intro h
    unfold readAll at h
    cases hv : readVarint s with
    | error e => simp [hv, bind, Except.bind] at h
    | ok q =>
      obtain ⟨⟨n, bytes⟩, body⟩ := q
      cases hp : propertyReadFrom body.length n [] body with
      | error e => simp [hv, hp, bind, Except.bind] at h
      | ok q =>
        obtain ⟨l', rest'⟩ := q
        simp only [hv, hp, bind, Except.bind] at h
        split at h
        · rename_i hc
          simp only [Except.ok.injEq, Prod.mk.injEq] at h
          obtain ⟨rfl, rfl⟩ := h
          obtain ⟨read, rfl, hfits, rfl, hreach⟩ := (propertyReadFrom_iff (Nat.le_refl _)).mp hp
          obtain ⟨⟨hlt, -⟩, rfl⟩ := reads_varint.only hv
          exact ⟨n, hlt, rfl, hfits, hreach, hc⟩
        · cases h
  · rintro ⟨n, hlt, rfl, hfits, hreach, hc⟩
    have hprefix := reads_varint.round (a := (n, varintBytes n)) (spelled l ++ rest) ⟨hlt, rfl⟩
    have hloop : propertyReadFrom (spelled l ++ rest).length n [] (spelled l ++ rest) = .ok (l, rest) :=
      (propertyReadFrom_iff (Nat.le_refl _)).mpr ⟨l, rfl, hfits, rfl, hreach⟩
    simp only [readAll, hprefix, bind, Except.bind, hloop, hc]

/-- The decoder takes the length and the declared bytes, and the list is written back to them, exactly when
    the declared bytes are whole properties. -/
theorem readAll_consumed_iff {command : Cmd} {s rest : Bytes} {l : List MosquittoProperty}
    (h : readAll command s = .ok (l, rest)) {proplen bytes : Nat} {body : Bytes}
    (hp : readVarint s = .ok ((proplen, bytes), body)) :
    (∃ consumed, s = consumed ++ rest ∧ consumed.length = bytes + proplen ∧
    writeAll l true = (consumed, .success)) ↔
      Whole proplen body := by
  obtain ⟨hfits, hbody, hwhole⟩ := readAll_only h hp
  obtain ⟨⟨hlt, hbytes⟩, rfl⟩ := reads_varint.only hp
  replace hlt : proplen < 268435456 := hlt
  replace hbytes : bytes = varintBytes proplen := hbytes
  have hdigits : (varintDigits 5 (proplen, bytes).1).length = bytes := (length_varintDigits hlt).trans hbytes.symm
  rw [← hwhole]
  constructor
  · intro hx
    obtain ⟨consumed, hs, hlen, -⟩ := hx
    have := congrArg List.length hs
    rw [hbody, List.length_append, List.length_append, List.length_append, length_spelled hfits, hlen] at this
    omega
  · intro hx
    obtain rfl := hx
    refine ⟨varintDigits 5 (getLengthAll l) ++ spelled l, ?_, ?_, writeAll_of_fits hfits hlt⟩
    · rw [hbody, List.append_assoc]
    · rw [List.length_append, length_spelled hfits]
      exact congrArg (· + _) hdigits

/-- A payload format indicator in a section of one byte: the payload's first byte is taken for its value. -/
theorem straddling_property :
    readAll .publish [1, 1, 0, 65] = .ok ([⟨.payloadFormatIndicator, (0 : UInt8)⟩], [65]) ∧
      readVarint [1, 1, 0, 65] = .ok ((1, 1), [1, 0, 65]) ∧
      ¬ ∃ consumed, [1, 1, 0, 65] = consumed ++ [(65 : UInt8)] ∧ consumed.length = 1 + 1 ∧
        writeAll [⟨.payloadFormatIndicator, (0 : UInt8)⟩] true = (consumed, .success) := by
  refine ⟨by decide, by decide, ?_⟩
  intro hx
  obtain ⟨consumed, hs, hlen, -⟩ := hx
  have := congrArg List.length hs
  rw [List.length_append, hlen] at this
  exact absurd this (by decide)

/-- With its value inside, the section is whole. -/
theorem readAll_consumed_whole :
    (∃ consumed, [2, 1, 0, 65] = consumed ++ [(65 : UInt8)] ∧ consumed.length = 1 + 2 ∧
        writeAll [⟨.payloadFormatIndicator, (0 : UInt8)⟩] true = (consumed, .success)) ↔ Whole 2 [1, 0, 65] :=
  readAll_consumed_iff (show readAll .publish [2, 1, 0, 65] = _ by decide) (by decide)

/-! ## Where the process ends -/

/-- An error is a refusal: neither `MOSQ_ERR_SUCCESS` nor the end of the process. -/
def Refusing {α : Type} (x : Except Rc α) : Prop := ∀ e, x = .error e → e ≠ .success ∧ e ≠ .aborted

section Refusals

variable (s : Bytes)

theorem refusing_ok {α : Type} (a : α) : Refusing (.ok a) := fun _ h => by cases h

theorem refusing_error {α : Type} {rc : Rc} (h : rc ≠ .success ∧ rc ≠ .aborted) : Refusing
    (.error rc : Except Rc α) :=
  fun _ e => Except.error.inj e ▸ h

theorem refusing_bind {α β : Type} {x : Except Rc α} {f : α → Except Rc β} (hx : Refusing x)
    (hf : ∀ a, Refusing (f a)) :
    Refusing (x >>= f) := by
  cases x with
  | error e =>
    intro e' h
    exact hx e' (congrArg Except.error (Except.error.inj h))
  | ok a => exact hf a

theorem refusing_readVarint : Refusing (readVarint s) := by
  have hfrom (n lword mult lbytes : Nat) (s : Bytes) : Refusing (readVarintFrom n lword mult lbytes s) := by
    induction n generalizing lword mult lbytes s with
    | zero => exact refusing_error (by decide)
    | succ n ih =>
      cases s with
      | nil => exact refusing_error (by decide)
      | cons b s =>
        simp only [readVarintFrom]
        split
        · split
          · exact refusing_error (by decide)
          · exact refusing_ok _
        · exact ih _ _ _ _
  exact hfrom _ _ _ _ _

theorem refusing_readByte : Refusing (readByte s) := by
  cases s with
  | nil => exact refusing_error (by decide)
  | cons b s => exact refusing_ok _

theorem refusing_readUint16 : Refusing (readUint16 s) := by
  unfold readUint16
  split
  · exact refusing_ok _
  · exact refusing_error (by decide)

theorem refusing_readUint32 : Refusing (readUint32 s) := by
  unfold readUint32
  split
  · exact refusing_ok _
  · exact refusing_error (by decide)

theorem refusing_readBinary : Refusing (readBinary s) := by
  refine refusing_bind (refusing_readUint16 s) (fun r => ?_)
  dsimp only
  split
  · exact refusing_error (by decide)
  · exact refusing_ok _

theorem refusing_readString : Refusing (readString s) := by
  refine refusing_bind (refusing_readBinary s) (fun r => ?_)
  dsimp only
  split
  · exact refusing_ok _
  · exact refusing_error (by decide)

theorem refusing_readValue (k : Kind) : Refusing (readValue k s) := by
  cases k with
  | byte => exact refusing_bind (refusing_readByte s) (fun _ => refusing_ok _)
  | int16 => exact refusing_bind (refusing_readUint16 s) (fun _ => refusing_ok _)
  | int32 => exact refusing_bind (refusing_readUint32 s) (fun _ => refusing_ok _)
  | varint => exact refusing_bind (refusing_readVarint s) (fun _ => refusing_ok _)
  | binary => exact refusing_bind (refusing_readBinary s) (fun _ => refusing_ok _)
  | string => exact refusing_bind (refusing_readString s) (fun _ => refusing_ok _)
  | pair =>
    exact refusing_bind (refusing_readString s) fun _ => refusing_bind (refusing_readString _) fun _ =>
      refusing_ok _

end Refusals

/-- An identifier that there is not stands where a property is read. -/
def Unidentified (s : Bytes) : Prop :=
  ∃ code rest, s = varintDigits 5 code ++ rest ∧ code < 268435456 ∧ PropId.ofCode code = none

theorem propertyRead_aborted {s : Bytes} : propertyRead s = .error .aborted ↔ Unidentified s := by
  constructor
  · intro h
    cases hv : readVarint s with
    | error e =>
      simp only [propertyRead, hv, bind, Except.bind, Except.error.injEq] at h
      exact absurd h (refusing_readVarint s e hv).2
    | ok q =>
      obtain ⟨⟨code, bytes⟩, s'⟩ := q
      obtain ⟨⟨hlt, -⟩, rfl⟩ := reads_varint.only hv
      cases hi : PropId.ofCode code with
      | none => exact ⟨code, s', rfl, hlt, hi⟩
      | some i =>
        cases hr : readValue i.kind s' with
        | error e =>
          simp only [propertyRead, hv, hi, hr, bind, Except.bind, Except.error.injEq] at h
          exact absurd h (refusing_readValue s' i.kind e hr).2
        | ok q =>
          simp only [propertyRead, hv, hi, hr, bind, Except.bind] at h
          cases h
  · rintro ⟨code, rest, rfl, hlt, hi⟩
    have hv := reads_varint.round (a := (code, varintBytes code)) rest ⟨hlt, rfl⟩
    simp only [propertyRead, hv, hi, bind, Except.bind]

/-- The loop comes to one within the declared bytes, after properties that it takes. -/
def ComesToUnidentified (n : Nat) (s : Bytes) : Prop :=
  ∃ l rest, s = spelled l ++ rest ∧ (∀ p ∈ l, p.Fits) ∧ getLengthAll l < n ∧ Unidentified rest

theorem propertyReadFrom_aborted {fuel n : Nat} {acc : List MosquittoProperty} {s : Bytes}
    (hfuel : s.length ≤ fuel) :
    propertyReadFrom fuel n acc s = .error .aborted ↔ ComesToUnidentified n s := by
  induction fuel generalizing n acc s with
  | zero =>
    obtain rfl : s = [] := List.eq_nil_of_length_eq_zero (by omega)
    refine iff_of_false ?_ ?_
    · simp only [propertyReadFrom]
      split <;> simp
    · rintro ⟨l, rest, hs, -, -, code, rest', rfl, -, -⟩
      have hnil := (List.append_eq_nil_iff.mp (List.append_eq_nil_iff.mp hs.symm).2).1
      rw [varintDigits] at hnil
      split at hnil <;> simp at hnil
  | succ fuel ih =>
    rcases Nat.eq_zero_or_pos n with rfl | hn
    · rw [propertyReadFrom_stop (by simp)]
      refine iff_of_false (by simp) ?_
      rintro ⟨l, rest, -, -, hlt, -⟩
      exact absurd hlt (Nat.not_lt_zero _)
    have hgo : (n : Int) > 0 := by omega
    cases hr : propertyRead s with
    | error e =>
      simp only [propertyReadFrom, if_pos hgo, hr, bind, Except.bind, Except.error.injEq]
      constructor
      · rintro rfl
        exact ⟨[], s, rfl, List.forall_mem_nil _, hn, propertyRead_aborted.mp hr⟩
      · rintro ⟨l, rest, rfl, hfits, -, hrest⟩
        cases l with
        | nil =>
          have ha := propertyRead_aborted.mpr hrest
          rw [show spelled [] ++ rest = rest from rfl] at hr
          exact Except.error.inj (hr.symm.trans ha)
        | cons p l =>
          -- the first property would have been read
          obtain ⟨hp, -⟩ := List.forall_mem_cons.mp hfits
          have hs : spelled (p :: l) ++ rest = (propertyWrite p).1 ++ (spelled l ++ rest) := by simp [spelled]
          rw [hs, reads_property.round (a := (p, getLength p)) (spelled l ++ rest) ⟨hp, rfl⟩] at hr
          cases hr
    | ok q =>
      obtain ⟨⟨p, taken⟩, s'⟩ := q
      obtain ⟨⟨hp, htaken⟩, rfl⟩ := reads_property.only hr
      obtain rfl : taken = getLength p := htaken
      replace hp : p.Fits := hp
      have hlen := length_propertyWrite hp
      have hpos := getLength_pos hp
      rw [List.length_append, hlen] at hfuel
      simp only [propertyReadFrom, if_pos hgo, hr, bind, Except.bind]
      rw [propertyReadFrom_sub, ih (by omega)]
      constructor
      · rintro ⟨l, rest, rfl, hfits, hlt, hrest⟩
        refine ⟨p :: l, rest, by simp [spelled], List.forall_mem_cons.mpr ⟨hp, hfits⟩, ?_, hrest⟩
        show getLength p + getLengthAll l < n
        omega
      · rintro ⟨l, rest, hs, hfits, hlt, hrest⟩
        cases l with
        | nil =>
          rw [show spelled [] ++ rest = rest from rfl] at hs
          rw [← hs] at hrest
          rw [propertyRead_aborted.mpr hrest] at hr
          cases hr
        | cons p' l =>
          obtain ⟨hp', hl⟩ := List.forall_mem_cons.mp hfits
          have hs' : spelled (p' :: l) ++ rest = (propertyWrite p').1 ++ (spelled l ++ rest) := by simp [spelled]
          rw [hs, hs', reads_property.round (a := (p', getLength p')) (spelled l ++ rest) ⟨hp', rfl⟩] at hr
          cases hr
          have hsum : getLengthAll (p :: l) = getLength p + getLengthAll l := rfl
          rw [hs'] at hs
          exact ⟨l, rest, List.append_cancel_left hs, hl, by omega, hrest⟩

/-- The decoder ends the process exactly there. -/
theorem readAll_aborted {command : Cmd} {s : Bytes} : readAll command s = .error .aborted ↔
    ∃ n body, n < 268435456 ∧ s = varintDigits 5 n ++ body ∧ ComesToUnidentified n body := by
  constructor
  · intro h
    unfold readAll at h
    cases hv : readVarint s with
    | error e =>
      simp only [hv, bind, Except.bind, Except.error.injEq] at h
      exact absurd h (refusing_readVarint s e hv).2
    | ok q =>
      obtain ⟨⟨n, bytes⟩, body⟩ := q
      obtain ⟨⟨hlt, -⟩, rfl⟩ := reads_varint.only hv
      cases hp : propertyReadFrom body.length n [] body with
      | error e =>
        simp only [hv, hp, bind, Except.bind, Except.error.injEq] at h
        exact ⟨n, body, hlt, rfl, (propertyReadFrom_aborted (Nat.le_refl _)).mp (h ▸ hp)⟩
      | ok q =>
        simp only [hv, hp, bind, Except.bind] at h
        rcases checkAll_rc command q.1 with hc | hc | hc <;> simp [hc] at h
  · rintro ⟨n, body, hlt, rfl, hbody⟩
    have hv := reads_varint.round (a := (n, varintBytes n)) body ⟨hlt, rfl⟩
    have hp : propertyReadFrom body.length n [] body = .error .aborted :=
      (propertyReadFrom_aborted (Nat.le_refl _)).mpr hbody
    simp only [readAll, hv, hp, bind, Except.bind]

/-! ## The lists that an application has -/

/-- The lists that an application may have, with the mark of the first property: none, one that came in a
    packet, a copy (`mosquitto_property_copy_all`, which only gets through where no string is empty), and any of
    these with properties that the application adds. -/
inductive Obtained : List MosquittoProperty → Bool → Prop where
  | none (clientGenerated : Bool) : Obtained [] clientGenerated
  | read (command : Cmd) (s rest : Bytes) (l : List MosquittoProperty) : readAll command s = .ok (l, rest) →
      Obtained l false
  | copy (l : List MosquittoProperty) (clientGenerated : Bool) : Obtained l clientGenerated →
      (∀ p ∈ l, p.Filled) →
      Obtained l false
  | add (l l' : List MosquittoProperty) (clientGenerated : Bool) (c : AddCall) (identifier : Nat) :
      Obtained l clientGenerated → c.run l identifier = .ok l' → Obtained l' (l.isEmpty || clientGenerated)

theorem Built.obtained {l : List MosquittoProperty} (h : Built l) : Obtained l true := by
  induction h with
  | nil => exact .none true
  | add l l' c identifier _ hadd ih =>
    have hnext := Obtained.add l l' true c identifier ih hadd
    rwa [Bool.or_true] at hnext

theorem fits_added {k : Kind} {v : Value k} (h : FitsValue k v) : AddedValue k v := by
  cases k with
  | string => exact h.2
  | pair => exact ⟨h.1.2, h.2.2⟩
  | varint => exact h
  | binary => exact h
  | byte => trivial
  | int16 => trivial
  | int32 => trivial

theorem obtained_added {l : List MosquittoProperty} {generated : Bool} (h : Obtained l generated) :
    ∀ p ∈ l, AddedValue p.identifier.kind p.value := by
  induction h with
  | none => exact List.forall_mem_nil _
  | read command s rest l hread =>
    obtain ⟨-, -, -, hfits, -⟩ := readAll_iff.mp hread
    exact fun p hp => fits_added (hfits p hp)
  | copy l generated _ _ ih => exact ih
  | add l l' generated c identifier _ hadd ih =>
    obtain ⟨p, rfl, -, hp⟩ := addCall_entry hadd
    exact List.forall_mem_append.mpr ⟨ih, List.forall_mem_singleton.mpr hp⟩

/-- Such a list fits its encoding when its strings are short enough. -/
theorem obtained_fits {l : List MosquittoProperty} {generated : Bool} (h : Obtained l generated)
    (hs : ∀ p ∈ l, p.Short) :
    ∀ p ∈ l, p.Fits :=
  fun p hp => (fitsValue_iff (obtained_added h p hp)).mpr (hs p hp)

end Artemisia.Property
