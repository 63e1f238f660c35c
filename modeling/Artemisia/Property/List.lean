/-
  Artemisia.Property.List — MQTT 5 property lists (`property_mosq.c`).

  A list is the linked list in its order, the empty one the NULL pointer. A property's value has the type
  that its identifier selects, so the union is never read through the wrong member.

  Proved:
  - `getProperty_first` / `getProperty_second`: the search finds the first entry with the identifier, and with
                       `skip_first` the second one, never a later one.
  - `addValue_ok`:     the add functions append one entry of the identifier's own kind, or change nothing.
  - `checkAll_of_count`: a list passes the packet check if each entry does and none is there twice.
  - `checkAll_count`:  a list that passes the packet check has at most one entry of each identifier but the
                       user property, so a decoded list has (`readAll_count`).
-/
import Artemisia.Property.Datatypes

namespace Artemisia.Property

/-- Identifiers (`enum mqtt5_property`). -/
inductive PropId where
  | payloadFormatIndicator | messageExpiryInterval | contentType | responseTopic | correlationData
  | subscriptionIdentifier | sessionExpiryInterval | assignedClientIdentifier | serverKeepAlive
  | authenticationMethod | authenticationData | requestProblemInformation | willDelayInterval
  | requestResponseInformation | responseInformation | serverReference | reasonString | receiveMaximum
  | topicAliasMaximum | topicAlias | maximumQos | retainAvailable | userProperty | maximumPacketSize
  | wildcardSubAvailable | subscriptionIdAvailable | sharedSubAvailable
  deriving DecidableEq, Repr

/-- The families of identifiers that share a type of value. -/
inductive Kind where
  | byte | int16 | int32 | varint | binary | string | pair
  deriving DecidableEq, Repr

/-- What a packet is, for the properties it may carry (`CMD_CONNECT` and so on). -/
inductive Cmd where
  | connect | connack | publish | puback | pubrec | pubrel | pubcomp | subscribe | suback | unsubscribe
  | unsuback | pingreq | pingresp | disconnect | auth | will
  deriving DecidableEq, Repr

def PropId.code : PropId → Nat
  | .payloadFormatIndicator => 1
  | .messageExpiryInterval => 2
  | .contentType => 3
  | .responseTopic => 8
  | .correlationData => 9
  | .subscriptionIdentifier => 11
  | .sessionExpiryInterval => 17
  | .assignedClientIdentifier => 18
  | .serverKeepAlive => 19
  | .authenticationMethod => 21
  | .authenticationData => 22
  | .requestProblemInformation => 23
  | .willDelayInterval => 24
  | .requestResponseInformation => 25
  | .responseInformation => 26
  | .serverReference => 28
  | .reasonString => 31
  | .receiveMaximum => 33
  | .topicAliasMaximum => 34
  | .topicAlias => 35
  | .maximumQos => 36
  | .retainAvailable => 37
  | .userProperty => 38
  | .maximumPacketSize => 39
  | .wildcardSubAvailable => 40
  | .subscriptionIdAvailable => 41
  | .sharedSubAvailable => 42

def PropId.all : List PropId :=
  [.payloadFormatIndicator, .messageExpiryInterval, .contentType, .responseTopic, .correlationData,
   .subscriptionIdentifier, .sessionExpiryInterval, .assignedClientIdentifier, .serverKeepAlive,
   .authenticationMethod, .authenticationData, .requestProblemInformation, .willDelayInterval,
   .requestResponseInformation, .responseInformation, .serverReference, .reasonString, .receiveMaximum,
   .topicAliasMaximum, .topicAlias, .maximumQos, .retainAvailable, .userProperty, .maximumPacketSize,
   .wildcardSubAvailable, .subscriptionIdAvailable, .sharedSubAvailable]

/-- The identifier with a code, for the codes that have one. -/
def PropId.ofCode (code : Nat) : Option PropId := PropId.all.find? (fun i => i.code = code)

/-- The cases of the identifier switches of `property_mosq.c`. -/
def PropId.kind : PropId → Kind
  | .payloadFormatIndicator | .requestProblemInformation | .requestResponseInformation | .maximumQos
  | .retainAvailable | .wildcardSubAvailable | .subscriptionIdAvailable | .sharedSubAvailable => .byte
  | .serverKeepAlive | .receiveMaximum | .topicAliasMaximum | .topicAlias => .int16
  | .messageExpiryInterval | .sessionExpiryInterval | .willDelayInterval | .maximumPacketSize => .int32
  | .subscriptionIdentifier => .varint
  | .contentType | .responseTopic | .assignedClientIdentifier | .authenticationMethod | .responseInformation
  | .serverReference | .reasonString => .string
  | .authenticationData | .correlationData => .binary
  | .userProperty => .pair

theorem PropId.ofCode_code (i : PropId) : PropId.ofCode i.code = some i := by cases i <;> decide

theorem PropId.code_of_ofCode {n : Nat} {i : PropId} (h : PropId.ofCode n = some i) : i.code = n := by
  have := List.find?_some h
  simpa using this

theorem PropId.code_inj {i j : PropId} : i.code = j.code ↔ i = j :=
  ⟨fun h => by simpa [PropId.ofCode_code] using congrArg PropId.ofCode h, fun h => h ▸ rfl⟩

/-- The value a property of the kind holds: a pair is the `name` and the `value.s` of the structure. -/
def Value : Kind → Type
  | .byte => UInt8
  | .int16 => UInt16
  | .int32 => UInt32
  | .varint => UInt32
  | .binary => Bytes
  | .string => CString
  | .pair => CString × CString

instance : (k : Kind) → DecidableEq (Value k)
  | .byte => inferInstanceAs (DecidableEq UInt8)
  | .int16 => inferInstanceAs (DecidableEq UInt16)
  | .int32 => inferInstanceAs (DecidableEq UInt32)
  | .varint => inferInstanceAs (DecidableEq UInt32)
  | .binary => inferInstanceAs (DecidableEq Bytes)
  | .string => inferInstanceAs (DecidableEq CString)
  | .pair => inferInstanceAs (DecidableEq (CString × CString))

structure MosquittoProperty where
  identifier : PropId
  value : Value identifier.kind
  deriving DecidableEq

/-- The property's value as one of the kind, if it is one. -/
def MosquittoProperty.valueAs (k : Kind) (p : MosquittoProperty) : Option (Value k) :=
  if h : p.identifier.kind = k then some (h ▸ p.value) else none

theorem MosquittoProperty.valueAs_isSome {k : Kind} {p : MosquittoProperty} :
    (p.valueAs k).isSome ↔ p.identifier.kind = k := by
  unfold MosquittoProperty.valueAs
  split <;> simp [*]

/-- No string of the value is empty. -/
def FilledValue : (k : Kind) → Value k → Prop
  | .string, v => CString.bytes v ≠ []
  | .pair, v => CString.bytes v.1 ≠ [] ∧ CString.bytes v.2 ≠ []
  | .byte, _ | .int16, _ | .int32, _ | .varint, _ | .binary, _ => True

instance : (k : Kind) → DecidablePred (FilledValue k)
  | .string => fun v => inferInstanceAs (Decidable (CString.bytes v ≠ []))
  | .pair => fun v => inferInstanceAs (Decidable (CString.bytes v.1 ≠ [] ∧ CString.bytes v.2 ≠ []))
  | .byte | .int16 | .int32 | .varint | .binary => fun _ => isTrue trivial

/-- No string of the property is empty. -/
def MosquittoProperty.Filled (p : MosquittoProperty) : Prop := FilledValue p.identifier.kind p.value

instance : DecidablePred MosquittoProperty.Filled := fun p => inferInstanceAs (Decidable (FilledValue _ p.value))

/-! ## Decoding -/

/-- The value that `property__read` takes for an identifier of the kind, and the `*len` it takes off. -/
def readValue : (k : Kind) → Bytes → Except Rc ((Value k × Nat) × Bytes)
  | .byte, s => do
    let (v, s) ← readByte s
    .ok ((v, 1), s)
  | .int16, s => do
    let (v, s) ← readUint16 s
    .ok ((v, 2), s)
  | .int32, s => do
    let (v, s) ← readUint32 s
    .ok ((v, 4), s)
  | .varint, s => do
    let ((v, byteCount), s) ← readVarint s
    .ok ((UInt32.ofNat v, byteCount), s)
  | .string, s => do
    let (v, s) ← readString s
    .ok ((v, 2 + v.bytes.length), s)
  | .binary, s => do
    let (v, s) ← readBinary s
    .ok ((v, 2 + v.length), s)
  | .pair, s => do
    let (name, s) ← readString s
    let (v, s) ← readString s
    .ok (((name, v), 2 + name.bytes.length + 2 + v.bytes.length), s)

/-- `property__read`: the identifier counts for one byte of `*len`. -/
def propertyRead (s : Bytes) : Except Rc ((MosquittoProperty × Nat) × Bytes) := do
  let ((identifier, _), s) ← readVarint s
  match PropId.ofCode identifier with
  -- `log__printf` is called with no client, which it asserts that there is
  | none => .error .aborted
  | some i =>
    let ((v, taken), s) ← readValue i.kind s
    .ok ((⟨i, v⟩, 1 + taken), s)

/-- The loop of `property__read_all`. A turn takes a byte or more, and with no byte left it is the
    identifier that cannot be read. -/
def propertyReadFrom : Nat → Int → List MosquittoProperty → Bytes → Except Rc (List MosquittoProperty × Bytes)
  | 0, proplen, properties, s => if proplen > 0 then .error .protocol else .ok (properties, s)
  | fuel + 1, proplen, properties, s =>
    if proplen > 0 then do
      let ((p, taken), s) ← propertyRead s
      propertyReadFrom fuel (proplen - taken) (properties ++ [p]) s
    else .ok (properties, s)

def checkCommand (command : Cmd) : PropId → Rc
  | .payloadFormatIndicator | .messageExpiryInterval | .contentType | .responseTopic | .correlationData =>
    if command ≠ .publish ∧ command ≠ .will then .protocol else .success
  | .subscriptionIdentifier => if command ≠ .publish ∧ command ≠ .subscribe then .protocol else .success
  | .sessionExpiryInterval =>
    if command ≠ .connect ∧ command ≠ .connack ∧ command ≠ .disconnect then .protocol else .success
  | .authenticationMethod | .authenticationData =>
    if command ≠ .connect ∧ command ≠ .connack ∧ command ≠ .auth then .protocol else .success
  | .assignedClientIdentifier | .serverKeepAlive | .responseInformation | .maximumQos | .retainAvailable
  | .wildcardSubAvailable | .subscriptionIdAvailable | .sharedSubAvailable =>
    if command ≠ .connack then .protocol else .success
  | .willDelayInterval => if command ≠ .will then .protocol else .success
  | .requestProblemInformation | .requestResponseInformation =>
    if command ≠ .connect then .protocol else .success
  | .serverReference => if command ≠ .connack ∧ command ≠ .disconnect then .protocol else .success
  | .reasonString =>
    if command = .connect ∨ command = .publish ∨ command = .subscribe ∨ command = .unsubscribe then .protocol
    else .success
  | .receiveMaximum | .topicAliasMaximum | .maximumPacketSize =>
    if command ≠ .connect ∧ command ≠ .connack then .protocol else .success
  | .topicAlias => if command ≠ .publish then .protocol else .success
  | .userProperty => .success

/-- The values a packet may not carry: flags above 1, and a zero for the bounds that must be positive. -/
def valueRefused : MosquittoProperty → Bool
  | ⟨.requestProblemInformation, v⟩ | ⟨.requestResponseInformation, v⟩ | ⟨.maximumQos, v⟩
  | ⟨.retainAvailable, v⟩ | ⟨.wildcardSubAvailable, v⟩ | ⟨.subscriptionIdAvailable, v⟩
  | ⟨.sharedSubAvailable, v⟩ => decide (UInt8.toNat v > 1)
  | ⟨.maximumPacketSize, v⟩ => decide (UInt32.toNat v = 0)
  | ⟨.receiveMaximum, v⟩ | ⟨.topicAlias, v⟩ => decide (UInt16.toNat v = 0)
  | _ => false

def checkAll (command : Cmd) : List MosquittoProperty → Rc
  | [] => .success
  | p :: tail =>
    if valueRefused p then .protocol
    else match checkCommand command p.identifier with
      | .success =>
        if tail.any (fun t => p.identifier = t.identifier ∧ p.identifier ≠ .userProperty) then .duplicateProperty
        else checkAll command tail
      | rc => rc

def readAll (command : Cmd) (s : Bytes) : Except Rc (List MosquittoProperty × Bytes) := do
  let ((proplen, _), s) ← readVarint s
  let (properties, s) ← propertyReadFrom s.length proplen [] s
  match checkAll command properties with
  | .success => .ok (properties, s)
  | rc => .error rc

/-! ## Building -/

/-- `property__add` after the identifier check of the add functions: an identifier of another family,
    or of none, is `MOSQ_ERR_INVAL`. -/
def addValue (k : Kind) (proplist : List MosquittoProperty) (identifier : Nat) (value : Value k) :
    Except Rc (List MosquittoProperty) :=
  match PropId.ofCode identifier with
  | none => .error .inval
  | some i => if h : i.kind = k then .ok (proplist ++ [⟨i, h ▸ value⟩]) else .error .inval

def addByte (proplist : List MosquittoProperty) (identifier : Nat) (value : UInt8) :=
  addValue .byte proplist identifier value

def addInt16 (proplist : List MosquittoProperty) (identifier : Nat) (value : UInt16) :=
  addValue .int16 proplist identifier value

def addInt32 (proplist : List MosquittoProperty) (identifier : Nat) (value : UInt32) :=
  addValue .int32 proplist identifier value

def addVarint (proplist : List MosquittoProperty) (identifier : Nat) (value : UInt32) :
    Except Rc (List MosquittoProperty) :=
  if value > 268435455 then .error .inval else addValue .varint proplist identifier value

/-- `mosquitto_property_add_binary`: the length is a `uint16_t`. -/
def addBinary (proplist : List MosquittoProperty) (identifier : Nat) (value : Bytes) (len : UInt16) :=
  addValue .binary proplist identifier (value.take len.toNat)

/-- `mosquitto_property_add_string`: the string is checked before the identifier, and NULL is empty. -/
def addString (proplist : List MosquittoProperty) (identifier : Nat) (value : Option CString) :
    Except Rc (List MosquittoProperty) :=
  match value with
  | none => addValue .string proplist identifier CString.empty
  | some v => if validateUtf8 v.bytes ≠ .success then .error .malformedUtf8
      else addValue .string proplist identifier v

/-- `mosquitto_property_add_string_pair`: here the identifier is checked first. -/
def addStringPair (proplist : List MosquittoProperty) (identifier : Nat) (name value : Option CString) :
    Except Rc (List MosquittoProperty) :=
  if identifier ≠ PropId.userProperty.code then .error .inval
  else if name.any (fun n => validateUtf8 n.bytes ≠ .success) then .error .malformedUtf8
  else if value.any (fun v => validateUtf8 v.bytes ≠ .success) then .error .malformedUtf8
  else addValue .pair proplist identifier (name.getD CString.empty, value.getD CString.empty)

/-! ## Searching -/

/-- The loop of `property__get_property`, with `is_first`. -/
def getPropertyFrom (identifier : Nat) (skipFirst : Bool) : Bool → List MosquittoProperty →
    Option MosquittoProperty
  | _, [] => none
  | isFirst, p :: rest =>
    if p.identifier.code = identifier then
      if !isFirst || !skipFirst then some p else getPropertyFrom identifier skipFirst false rest
    else getPropertyFrom identifier skipFirst isFirst rest

def getProperty (proplist : List MosquittoProperty) (identifier : Nat) (skipFirst : Bool) :
    Option MosquittoProperty :=
  getPropertyFrom identifier skipFirst true proplist

/-- The body of the read functions: the value of the entry found, if it is of the function's family. The
    entry itself is only compared with NULL. -/
def readProperty (k : Kind) (proplist : List MosquittoProperty) (identifier : Nat) (skipFirst : Bool) :
    Option (Value k) :=
  (getProperty proplist identifier skipFirst).bind (·.valueAs k)

def readPropertyByte (l : List MosquittoProperty) (identifier : Nat) (skipFirst : Bool) : Option UInt8 :=
  readProperty .byte l identifier skipFirst

def readPropertyInt16 (l : List MosquittoProperty) (identifier : Nat) (skipFirst : Bool) : Option UInt16 :=
  readProperty .int16 l identifier skipFirst

def readPropertyInt32 (l : List MosquittoProperty) (identifier : Nat) (skipFirst : Bool) : Option UInt32 :=
  readProperty .int32 l identifier skipFirst

def readPropertyVarint (l : List MosquittoProperty) (identifier : Nat) (skipFirst : Bool) : Option UInt32 :=
  readProperty .varint l identifier skipFirst

def readPropertyBinary (l : List MosquittoProperty) (identifier : Nat) (skipFirst : Bool) : Option Bytes :=
  readProperty .binary l identifier skipFirst

/-- `mosquitto_property_read_string`: the string is copied into zeroed memory, so a NUL ends it. -/
def readPropertyString (l : List MosquittoProperty) (identifier : Nat) (skipFirst : Bool) : Option CString :=
  readProperty .string l identifier skipFirst

def readPropertyStringPair (l : List MosquittoProperty) (identifier : Nat) (skipFirst : Bool) :
    Option (CString × CString) :=
  readProperty .pair l identifier skipFirst

def entries (proplist : List MosquittoProperty) (identifier : Nat) : List MosquittoProperty :=
  proplist.filter (fun p => p.identifier.code = identifier)

theorem getPropertyFrom_skipped (identifier : Nat) (l : List MosquittoProperty) (skipFirst : Bool) :
    getPropertyFrom identifier skipFirst false l = (entries l identifier).head? := by
  induction l with
  | nil => rfl
  | cons p l ih =>
    by_cases h : p.identifier.code = identifier
    · simp [getPropertyFrom, entries, h]
    · simpa [getPropertyFrom, entries, h] using ih

/-- Without `skip_first` the search finds the first entry with the identifier. -/
theorem getProperty_first (l : List MosquittoProperty) (identifier : Nat) :
    getProperty l identifier false = (entries l identifier).head? := by
  unfold getProperty
  induction l with
  | nil => rfl
  | cons p l ih =>
    by_cases h : p.identifier.code = identifier
    · simp [getPropertyFrom, entries, h]
    · simpa [getPropertyFrom, entries, h] using ih

/-- With `skip_first` it finds the second one, however often it is called. -/
theorem getProperty_second (l : List MosquittoProperty) (identifier : Nat) :
    getProperty l identifier true = (entries l identifier).tail.head? := by
  unfold getProperty
  induction l with
  | nil => rfl
  | cons p l ih =>
    by_cases h : p.identifier.code = identifier
    · simpa [getPropertyFrom, entries, h] using getPropertyFrom_skipped identifier l true
    · simpa [getPropertyFrom, entries, h] using ih

/-! ## What a list may hold -/

/-- An add that succeeds appends one entry, with the identifier asked for. -/
theorem addValue_ok {k : Kind} {l l' : List MosquittoProperty} {identifier : Nat} {v : Value k}
    (h : addValue k l identifier v = .ok l') :
    ∃ p, l' = l ++ [p] ∧ p.identifier.code = identifier ∧ p.valueAs k = some v := by
  unfold addValue at h
  split at h
  · cases h
  · rename_i i hi
    split at h
    · rename_i hk
      subst hk
      simp only [Except.ok.injEq] at h
      exact ⟨_, h.symm, PropId.code_of_ofCode hi, by simp [MosquittoProperty.valueAs]⟩
    · cases h

/-- A list that passes the check of a packet has at most one entry of each identifier but the user property. -/
theorem checkAll_count {command : Cmd} {l : List MosquittoProperty} (h : checkAll command l = .success)
    {i : PropId} (hi : i ≠ .userProperty) : (entries l i.code).length ≤ 1 := by
  induction l with
  | nil => simp [entries]
  | cons p l ih =>
    simp only [checkAll] at h
    split at h
    · cases h
    · split at h
      · split at h
        · cases h
        · rename_i hdup
          have hrest := ih h
          by_cases hp : p.identifier = i
          · have hnone : entries l i.code = [] := by
              refine List.filter_eq_nil_iff.mpr (fun q hq hc => hdup ?_)
              have hqi : q.identifier = i := PropId.code_inj.mp (by simpa using hc)
              exact List.any_eq_true.mpr ⟨q, hq, by simp [hp, hqi, hi]⟩
            have : entries (p :: l) i.code = p :: entries l i.code := by simp [entries, hp]
            simp [this, hnone]
          · have : entries (p :: l) i.code = entries l i.code := by simp [entries, PropId.code_inj, hp]
            simpa [this] using hrest
      · rename_i hne
        exact absurd h hne

theorem checkCommand_rc (command : Cmd) (i : PropId) :
    checkCommand command i = .success ∨ checkCommand command i = .protocol := by
  unfold checkCommand
  split <;> first | exact .inl rfl | (split <;> simp)

theorem checkAll_rc (command : Cmd) (l : List MosquittoProperty) :
    checkAll command l = .success ∨ checkAll command l = .protocol ∨ checkAll command l = .duplicateProperty := by
  induction l with
  | nil => exact .inl rfl
  | cons p l ih =>
    unfold checkAll
    split
    · simp
    rcases checkCommand_rc command p.identifier with h | h
    · rw [h]
      dsimp only
      split
      · simp
      · exact ih
    · simp [h]

/-- Each entry of a list that passes has an allowed value and belongs into the packet. -/
theorem checkAll_each {command : Cmd} {l : List MosquittoProperty} (h : checkAll command l = .success) :
    ∀ p ∈ l, valueRefused p = false ∧ checkCommand command p.identifier = .success := by
  induction l with
  | nil => exact fun p hp => (List.not_mem_nil hp).elim
  | cons p l ih =>
    simp only [checkAll] at h
    split at h
    · cases h
    · rename_i hv
      split at h
      · rename_i hc
        split at h
        · cases h
        · intro q hq
          rcases List.mem_cons.mp hq with rfl | hq
          · exact ⟨by simpa using hv, hc⟩
          · exact ih h q hq
      · rename_i hne
        exact absurd h hne

/-- A list passes if each entry does and none but the user property occurs twice. -/
theorem checkAll_of_count {command : Cmd} {l : List MosquittoProperty}
    (heach : ∀ p ∈ l, valueRefused p = false ∧ checkCommand command p.identifier = .success)
    (hcount : ∀ i : PropId, i ≠ .userProperty → (entries l i.code).length ≤ 1) :
    checkAll command l = .success := by
  induction l with
  | nil => rfl
  | cons p l ih =>
    obtain ⟨hv, hc⟩ := heach p (List.mem_cons_self ..)
    have hrest : checkAll command l = .success := by
      refine ih (fun q hq => heach q (List.mem_cons_of_mem _ hq)) (fun i hi => ?_)
      have hsub : (entries l i.code).Sublist (entries (p :: l) i.code) := (List.sublist_cons_self p l).filter _
      exact le_trans hsub.length_le (hcount i hi)
    have hdup : l.any (fun t => p.identifier = t.identifier ∧ p.identifier ≠ .userProperty) = false := by
      refine List.any_eq_false.mpr (fun t ht => ?_)
      rw [decide_eq_true_iff]
      intro hx
      obtain ⟨he, hu⟩ := hx
      have htwo : entries (p :: l) p.identifier.code = p :: entries l p.identifier.code := by simp [entries]
      have hmem : t ∈ entries l p.identifier.code := List.mem_filter.mpr ⟨ht, by simp [he]⟩
      have := hcount _ hu
      rw [htwo, List.length_cons] at this
      have := List.length_pos_of_mem hmem
      omega
    simp only [checkAll, hv, hc, hdup, Bool.false_eq_true, if_false, hrest]

/-- So does a list decoded from a packet. -/
theorem readAll_count {command : Cmd} {s rest : Bytes} {l : List MosquittoProperty}
    (h : readAll command s = .ok (l, rest)) {i : PropId} (hi : i ≠ .userProperty) :
    (entries l i.code).length ≤ 1 := by
  unfold readAll at h
  cases hv : readVarint s with
  | error e => simp [hv, bind, Except.bind] at h
  | ok r =>
    cases hp : propertyReadFrom r.2.length r.1.1 [] r.2 with
    | error e => simp [hv, hp, bind, Except.bind] at h
    | ok q =>
      simp only [hv, hp, bind, Except.bind] at h
      split at h
      · rename_i hc
        simp only [Except.ok.injEq, Prod.mk.injEq] at h
        exact checkAll_count (h.1 ▸ hc) hi
      · cases h

/-! ## Lengths -/

def getLength : MosquittoProperty → Nat
  | ⟨i, v⟩ =>
    match i.kind, v with
    | .byte, _ => 2
    | .int16, _ => 3
    | .int32, _ => 5
    | .varint, v =>
      let n := UInt32.toNat v
      if n < 128 then 2 else if n < 16384 then 3 else if n < 2097152 then 4 else if n < 268435456 then 5 else 0
    | .binary, v => 3 + List.length (α := UInt8) v
    | .string, v => 3 + (CString.bytes v).length
    | .pair, v => 5 + (CString.bytes v.2).length + (CString.bytes v.1).length

def getLengthAll (l : List MosquittoProperty) : Nat := (l.map getLength).sum

end Artemisia.Property
