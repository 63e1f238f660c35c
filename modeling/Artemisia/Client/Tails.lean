/-
  Artemisia.Client.Tails — the bodies of PUBACK, PUBCOMP, PUBREC, PUBREL, DISCONNECT and AUTH, byte by byte
  (`handle_pubackcomp.c`, `handle_pubrec.c`, `handle_pubrel.c`, `handle_disconnect.c`, `handle_auth.c`).

  In version 5 a reason code and properties may follow the packet id, or make up the body. Each handler
  compares the remaining length with numbers of its own to see what is there. What follows the properties is not
  looked at, and a declared length that ends inside a property lets that property be read to its end.

  Proved:
  - `handlePacket_inPacket`: the handlers of `Client.Handlers` do what is read here.
  - `readAll_section`:       a section that is accepted is a valid one up to the end, or is declared too short.
  - `readBody_aborted`:      on which the process ends.
  - `tails_iff`:             which bodies are accepted, and acted on, as MQTT 5 has it.
-/
import Artemisia.Client.Handlers
import Artemisia.Property.Section

namespace Artemisia.Client

open Artemisia.Property

inductive Tailed where
  | puback | pubcomp | pubrec | pubrel | disconnect | auth
  deriving DecidableEq

/-- What a handler goes on to do when it has read a packet. -/
inductive Action where
  /-- The message is deleted, and on_publish gets the reason code and the properties. -/
  | acked (type : Ack) (mid : UInt16) (reasonCode : UInt8) (properties : List MosquittoProperty)
  | received (mid : UInt16)
  /-- The message is deleted, and on_publish gets the reason code. -/
  | refused (mid : UInt16) (reasonCode : UInt8)
  | released (mid : UInt16)
  /-- `do_client_disconnect` gets the reason code. -/
  | disconnected (reasonCode : UInt8)
  | nothing

/-! ## What the handlers read -/

/-- What follows the packet id. -/
def readAckTail (m : Mosq) (command : Cmd) (remainingLength : Nat) (s : Bytes) :
    Except Rc (UInt8 × List MosquittoProperty) :=
  if m.protocol = .mqtt5 ∧ remainingLength > 2 then do
    let (reasonCode, s) ← readByte s
    if remainingLength > 3 then do
      let (properties, _) ← readAll command s
      .ok (reasonCode, properties)
    else .ok (reasonCode, [])
  else .ok (0, [])

/-- The part that four handlers have in common. -/
def readAckBody (m : Mosq) (command : Cmd) (body : Bytes) :
    Except Rc (UInt16 × UInt8 × List MosquittoProperty) := do
  let (mid, s) ← readUint16 body
  if mid = 0 then .error .protocol
  else do
    let (reasonCode, properties) ← readAckTail m command body.length s
    .ok (mid, reasonCode, properties)

/-- `handle__pubackcomp`, which has the properties checked as those of a PUBACK. -/
def pubackcompBody (m : Mosq) (type : Ack) (body : Bytes) : Except Rc Action :=
  if m.state ≠ .active then .error .protocol
  else do
    let (mid, reasonCode, properties) ← readAckBody m .puback body
    .ok (.acked type mid reasonCode properties)

/-- `handle__pubrec`. -/
def pubrecBody (m : Mosq) (body : Bytes) : Except Rc Action :=
  if m.state ≠ .active then .error .protocol
  else do
    let (mid, reasonCode, _) ← readAckBody m .pubrec body
    .ok (if reasonCode < 0x80 ∨ m.protocol ≠ .mqtt5 then .received mid else .refused mid reasonCode)

/-- `handle__pubrel`, which has no use for the reason code. -/
def pubrelBody (m : Mosq) (flags : UInt8) (body : Bytes) : Except Rc Action :=
  if m.state ≠ .active then .error .protocol
  else if m.protocol ≠ .mqtt31 ∧ flags &&& 0x0F ≠ 0x02 then .error .protocol
  else do
    let (mid, _, _) ← readAckBody m .pubrel body
    .ok (.released mid)

/-- What follows the reason code of a DISCONNECT. -/
def readDisconnectTail (remainingLength : Nat) (s : Bytes) : Except Rc Unit :=
  if remainingLength > 2 then do
    let _ ← readAll .disconnect s
    .ok ()
  else .ok ()

/-- `handle__disconnect`. -/
def disconnectBody (m : Mosq) (body : Bytes) : Except Rc Action :=
  if m.protocol ≠ .mqtt5 then .error .protocol
  else do
    let (reasonCode, s) ← readByte body
    let _ ← readDisconnectTail body.length s
    .ok (.disconnected reasonCode)

/-- What `handle__auth` reads: without a reason code it returns 1. -/
def readAuth (body : Bytes) : Except Rc Unit :=
  match readByte body with
  | .error _ => .error .nomem
  | .ok (_, s) => do
    let _ ← readAll .auth s
    .ok ()

/-- `handle__auth`. -/
def authBody (m : Mosq) (body : Bytes) : Except Rc Action :=
  if m.protocol ≠ .mqtt5 then .error .protocol
  else do
    let _ ← readAuth body
    .ok .nothing

/-- The handler of a packet. The flags are those of its first byte. -/
def readBody (m : Mosq) (flags : UInt8) : Tailed → Bytes → Except Rc Action
  | .puback, body => pubackcompBody m .puback body
  | .pubcomp, body => pubackcompBody m .pubcomp body
  | .pubrec, body => pubrecBody m body
  | .pubrel, body => pubrelBody m flags body
  | .disconnect, body => disconnectBody m body
  | .auth, body => authBody m body

/-! ## The handlers of `Client.Handlers` -/

def rcOf {α : Type} : Except Rc α → Rc
  | .ok _ => .success
  | .error rc => rc

/-- The packet, each field as its reader gives it. -/
def inPacket (m : Mosq) (flags : UInt8) (t : Tailed) (body : Bytes) : InPacket :=
  let mid := (readUint16 body).map Prod.fst
  let tail (command : Cmd) := (readAckTail m command body.length (body.drop 2)).map Prod.fst
  match t with
  | .puback => .pubackcomp .puback mid (tail .puback)
  | .pubcomp => .pubackcomp .pubcomp mid (tail .puback)
  | .pubrec => .pubrec mid (tail .pubrec)
  | .pubrel => .pubrel flags mid (tail .pubrel)
  | .disconnect => .disconnect ((readByte body).map Prod.fst)
      (rcOf (readDisconnectTail body.length (body.drop 1)))
  | .auth => .auth (rcOf (readAuth body))

def Action.run (alloc : Alloc) (m : Mosq) : Action → Mosq × Handled
  | .acked type mid _ _ => let r := acknowledge alloc (incrementSendQuota m) mid type.qos; (r.1, .done r.2)
  | .received mid => let r := receiveMessage alloc m mid; (r.1, .done r.2)
  | .refused mid _ => let r := refuseMessage alloc m mid; (r.1, .done r.2)
  | .released mid => let r := releaseMessage alloc m mid; (r.1, .done r.2)
  | .disconnected _ => (doClientDisconnect m, .disconnect)
  | .nothing => (m, .done .success)

/-- The client when a packet is not accepted: for a PUBACK or PUBCOMP the quota has gone up. -/
def notAccepted (m : Mosq) (t : Tailed) : Mosq :=
  if m.state = .active ∧ (t = .puback ∨ t = .pubcomp) then incrementSendQuota m else m

section Connection

variable (m : Mosq)

theorem readAck_body (command : Cmd) (body : Bytes) :
    readAck m ((readUint16 body).map Prod.fst) ((readAckTail m command body.length (body.drop 2)).map Prod.fst) =
      (readAckBody m command body).map fun r => (r.1, r.2.1) := by
  unfold readAckBody
  match body with
  | [] => rfl
  | [_] => rfl
  | hi :: lo :: s =>
    obtain ⟨mid, hread⟩ : ∃ mid, readUint16 (hi :: lo :: s) = .ok (mid, s) := ⟨_, rfl⟩
    have hdrop : (hi :: lo :: s).drop 2 = s := rfl
    rw [hread, hdrop]
    generalize (hi :: lo :: s).length = n
    unfold readAck
    by_cases hmid : mid = 0
    · simp [hmid, Except.map, bind, Except.bind]
    by_cases h5 : m.protocol = .mqtt5
    · cases htail : readAckTail m command n s <;> simp [Except.map, bind, Except.bind, hmid, h5, htail]
    · have htail : readAckTail m command n s = .ok (0, []) := if_neg (fun h => h5 h.1)
      simp [Except.map, bind, Except.bind, hmid, h5, htail]

def Failing {α : Type} (x : Except Rc α) : Prop := x ≠ .error .success

theorem failing_bind {α β : Type} {x : Except Rc α} {f : α → Except Rc β} (hx : Failing x)
    (hf : ∀ a, Failing (f a)) :
    Failing (x >>= f) := by
  cases x with
  | error e => exact fun h => hx (by cases h; rfl)
  | ok a => exact hf a

theorem failing_ok {α : Type} (a : α) : Failing (.ok a) := by simp [Failing]

theorem failing_of_refusing {α : Type} {x : Except Rc α} (h : Refusing x) : Failing x := fun e => (h _ e).1 rfl

theorem failing_propertyRead (s : Bytes) : Failing (propertyRead s) := by
  refine failing_bind (failing_of_refusing (refusing_readVarint s)) (fun r => ?_)
  dsimp only
  split
  · simp [Failing]
  · exact failing_bind (failing_of_refusing (refusing_readValue _ _)) (fun _ => failing_ok _)

theorem failing_propertyReadFrom (fuel : Nat) (left : Int) (acc : List MosquittoProperty) (s : Bytes) :
    Failing (propertyReadFrom fuel left acc s) := by
  induction fuel generalizing left acc s with
  | zero =>
    unfold propertyReadFrom
    split <;> simp [Failing]
  | succ fuel ih =>
    unfold propertyReadFrom
    split
    · exact failing_bind (failing_propertyRead s) (fun _ => ih _ _ _)
    · exact failing_ok _

theorem failing_readAll (command : Cmd) (s : Bytes) : Failing (readAll command s) := by
  refine failing_bind (failing_of_refusing (refusing_readVarint s)) fun _ =>
    failing_bind (failing_propertyReadFrom _ _ _ _) fun r => ?_
  dsimp only
  split
  · exact failing_ok _
  · rename_i hne
    simpa [Failing] using hne

theorem failing_readDisconnectTail (n : Nat) (s : Bytes) : Failing (readDisconnectTail n s) := by
  unfold readDisconnectTail
  split
  · exact failing_bind (failing_readAll _ _) (fun _ => failing_ok _)
  · exact failing_ok _

theorem handlePubackcomp_body (alloc : Alloc) (type : Ack) {t : Tailed} (ht : t = .puback ∨ t = .pubcomp)
    (body : Bytes) :
    (let r := handlePubackcomp alloc m type ((readUint16 body).map Prod.fst)
      ((readAckTail m .puback body.length (body.drop 2)).map Prod.fst)
     (r.1, Handled.done r.2)) =
      match pubackcompBody m type body with
      | .ok a => a.run alloc m
      | .error rc => (notAccepted m t, .done rc) := by
  unfold handlePubackcomp pubackcompBody notAccepted
  rw [readAck_body]
  by_cases hs : m.state = .active
  · cases readAckBody m .puback body <;> simp [hs, ht, Except.map, bind, Except.bind, Action.run]
  · simp [hs]

theorem handlePubrec_body (alloc : Alloc) (flags : UInt8) (body : Bytes) :
    handlePacket alloc m (inPacket m flags .pubrec body) =
      match pubrecBody m body with
      | .ok a => a.run alloc m
      | .error rc => (notAccepted m .pubrec, .done rc) := by
  simp only [inPacket, handlePacket, handlePubrec, pubrecBody, notAccepted, readAck_body]
  by_cases hs : m.state = .active
  · cases readAckBody m .pubrec body with
    | error rc => simp [hs, Except.map, bind, Except.bind]
    | ok r =>
      by_cases hr : r.2.1 < 0x80 ∨ m.protocol ≠ .mqtt5
      · simp [hs, hr, Except.map, bind, Except.bind, Action.run]
      · simp [hs, hr, Except.map, bind, Except.bind, Action.run]
  · simp [hs]

theorem handlePubrel_body (alloc : Alloc) (flags : UInt8) (body : Bytes) :
    handlePacket alloc m (inPacket m flags .pubrel body) =
      match pubrelBody m flags body with
      | .ok a => a.run alloc m
      | .error rc => (notAccepted m .pubrel, .done rc) := by
  simp only [inPacket, handlePacket, handlePubrel, readPubrel, pubrelBody, notAccepted, readAck_body]
  by_cases hs : m.state = .active
  · by_cases hf : m.protocol ≠ .mqtt31 ∧ flags &&& 0x0F ≠ 0x02
    · simp [hs, hf]
    · cases readAckBody m .pubrel body <;> simp [hs, hf, Except.map, bind, Except.bind, Action.run]
  · simp [hs]

theorem handleDisconnect_body (alloc : Alloc) (flags : UInt8) (body : Bytes) :
    handlePacket alloc m (inPacket m flags .disconnect body) =
      match disconnectBody m body with
      | .ok a => a.run alloc m
      | .error rc => (notAccepted m .disconnect, .done rc) := by
  simp only [inPacket, handlePacket, handleDisconnect, disconnectBody, notAccepted]
  by_cases h5 : m.protocol = .mqtt5
  · cases body with
    | nil => simp [h5, readByte, Except.map, bind, Except.bind]
    | cons r s =>
      have hread : readByte (r :: s) = .ok (r, s) := rfl
      have hdrop : (r :: s).drop 1 = s := rfl
      have htail := failing_readDisconnectTail (r :: s).length s
      rw [hread, hdrop]
      dsimp only [bind, Except.bind, Except.map]
      generalize readDisconnectTail (r :: s).length s = x at htail
      cases x with
      | error rc =>
        have hrc : rc ≠ .success := fun h => htail (by rw [h])
        simp [h5, rcOf, hrc]
      | ok u => simp [h5, rcOf, Action.run]
  · simp [h5]

theorem handleAuth_body (alloc : Alloc) (flags : UInt8) (body : Bytes) :
    handlePacket alloc m (inPacket m flags .auth body) =
      match authBody m body with
      | .ok a => a.run alloc m
      | .error rc => (notAccepted m .auth, .done rc) := by
  simp only [inPacket, handlePacket, authBody, notAccepted]
  by_cases h5 : m.protocol = .mqtt5
  · cases readAuth body <;> simp [h5, bind, Except.bind, rcOf, Action.run]
  · simp [h5]

/-- The handlers do what is read here. -/
theorem handlePacket_inPacket (alloc : Alloc) (flags : UInt8) (t : Tailed) (body : Bytes) :
    handlePacket alloc m (inPacket m flags t body) =
      match readBody m flags t body with
      | .ok a => a.run alloc m
      | .error rc => (notAccepted m t, .done rc) := by
  cases t with
  | puback => exact handlePubackcomp_body m alloc .puback (.inl rfl) body
  | pubcomp => exact handlePubackcomp_body m alloc .pubcomp (.inr rfl) body
  | pubrec => exact handlePubrec_body m alloc flags body
  | pubrel => exact handlePubrel_body m alloc flags body
  | disconnect => exact handleDisconnect_body m alloc flags body
  | auth => exact handleAuth_body m alloc flags body

end Connection

/-! ## MQTT 5 -/

namespace Tailed

/-- The command that the handler has the properties checked for. -/
def cmd : Tailed → Cmd
  | puback | pubcomp => .puback
  | pubrec => .pubrec
  | pubrel => .pubrel
  | disconnect => .disconnect
  | auth => .auth

def allowed : Tailed → List PropId
  | disconnect => [.sessionExpiryInterval, .serverReference, .reasonString, .userProperty]
  | auth => [.authenticationMethod, .authenticationData, .reasonString, .userProperty]
  | _ => [.reasonString, .userProperty]

/-- Properties of the packet, of which only user properties may be there more than once. -/
structure Valid (t : Tailed) (l : List MosquittoProperty) : Prop where
  each : ∀ p ∈ l, p.identifier ∈ t.allowed
  once : ∀ i : PropId, i ≠ .userProperty → (entries l i.code).length ≤ 1

end Tailed

/-- A property section: the length, and so many bytes of properties. -/
structure SectionOf (t : Tailed) (s : Bytes) (l : List MosquittoProperty) : Prop where
  spelled : s = varintDigits 5 (getLengthAll l) ++ spelled l
  length : getLengthAll l < 268435456
  fits : ∀ p ∈ l, p.Fits
  valid : t.Valid l

/-- Nothing, or a reason code, or a reason code and properties. -/
def TailOf (t : Tailed) (s : Bytes) (reasonCode : UInt8) (l : List MosquittoProperty) : Prop :=
  (s = [] ∧ reasonCode = 0 ∧ l = []) ∨ (s = [reasonCode] ∧ l = []) ∨ ∃ s', s = reasonCode :: s' ∧ SectionOf t s' l

/-- The bodies of the packet. A DISCONNECT and an AUTH have no packet id. -/
def WellFormed (t : Tailed) (body : Bytes) (mid : UInt16) (reasonCode : UInt8) (l : List MosquittoProperty) :
    Prop :=
  match t with
  | .disconnect | .auth => TailOf t body reasonCode l
  | _ => mid ≠ 0 ∧ ∃ s, body = writeUint16 mid ++ s ∧ TailOf t s reasonCode l

/-- What is to be done for a packet that says this. -/
def act (t : Tailed) (mid : UInt16) (reasonCode : UInt8) (l : List MosquittoProperty) : Action :=
  match t with
  | .puback => .acked .puback mid reasonCode l
  | .pubcomp => .acked .pubcomp mid reasonCode l
  | .pubrec => if reasonCode < 0x80 then .received mid else .refused mid reasonCode
  | .pubrel => .released mid
  | .disconnect => .disconnected reasonCode
  | .auth => .nothing

/-- Exactly the well-formed bodies are accepted, and the client acts as they say. -/
def ActsOn (m : Mosq) (flags : UInt8) (t : Tailed) (body : Bytes) : Prop :=
  ∀ a, readBody m flags t body = .ok a ↔ ∃ mid reasonCode l, WellFormed t body mid reasonCode l ∧
    a = act t mid reasonCode l

/-! ## Sections that are declared too short -/

/-- More bytes follow the length than it declares, and those that it declares are valid properties, but
    for the last that may go past them. -/
def OverlongWith (t : Tailed) (s : Bytes) (l : List MosquittoProperty) (rest : Bytes) : Prop :=
  ∃ n, n < 268435456 ∧ s = varintDigits 5 n ++ (spelled l ++ rest) ∧ (∀ p ∈ l, p.Fits) ∧ Reached n l ∧ t.Valid l ∧
    n < (spelled l ++ rest).length

def Overlong (t : Tailed) (s : Bytes) : Prop := ∃ l rest, OverlongWith t s l rest

/-- The bodies for which a handler does not do what it should: after the reason code, a section that is
    declared too short. A DISCONNECT without a reason code, and an AUTH without properties, are refused; the one
    byte after the reason code of a DISCONNECT is not looked at. -/
def Slips : Tailed → Bytes → Prop
  | .disconnect, body => body = [] ∨ (∃ r x, x ≠ 0 ∧ body = [r, x]) ∨ ∃ r s, body = r :: s ∧
      Overlong .disconnect s
  | .auth, body => body = [] ∨ (∃ r, body = [r]) ∨ ∃ r s, body = r :: s ∧ Overlong .auth s
  | t, body => ∃ mid r s, mid ≠ 0 ∧ body = writeUint16 mid ++ r :: s ∧ Overlong t s

/-- The bodies on which the process ends: after the reason code, a section in which the decoder comes to an
    identifier that it does not know. -/
def Unknown (s : Bytes) : Prop := ∃ n body, n < 268435456 ∧ s = varintDigits 5 n ++ body ∧
  ComesToUnidentified n body

def Ends : Tailed → Bytes → Prop
  | .disconnect, body | .auth, body => ∃ r s, body = r :: s ∧ Unknown s
  | _, body => ∃ mid r s, mid ≠ 0 ∧ body = writeUint16 mid ++ r :: s ∧ Unknown s

/-- The handler returns, and acts as it should. -/
structure Meets (m : Mosq) (flags : UInt8) (t : Tailed) (body : Bytes) : Prop where
  returns : readBody m flags t body ≠ .error .aborted
  acts : ActsOn m flags t body

section Sections

variable {t : Tailed} {s rest : Bytes} {l l' : List MosquittoProperty}

theorem checkAll_valid : checkAll t.cmd l = .success ↔ t.Valid l := by
  have heach (i : PropId) : checkCommand t.cmd i = .success ↔ i ∈ t.allowed := by
    cases t <;> cases i <;> decide
  constructor
  · intro h
    exact ⟨fun p hp => (heach _).mp (checkAll_each h p hp).2, fun i hi => checkAll_count h hi⟩
  · intro h
    refine checkAll_of_count (fun p hp => ⟨?_, (heach _).mpr (h.each p hp)⟩) h.once
    -- none of the properties has values that are refused
    obtain ⟨i, v⟩ := p
    have hmem : i ∈ t.allowed := h.each _ hp
    cases t <;> cases i <;> first | rfl | exact absurd hmem (by decide)

theorem varintDigits_ne_nil (n : Nat) : varintDigits 5 n ≠ [] := by
  rw [varintDigits]
  split <;> simp

theorem not_sectionOf_nil : ¬ SectionOf t [] l := fun h =>
  varintDigits_ne_nil _ (List.append_eq_nil_iff.mp h.spelled.symm).1

theorem not_overlongWith_nil : ¬ OverlongWith t [] l rest := fun ⟨_, _, hs, _⟩ =>
  varintDigits_ne_nil _ (List.append_eq_nil_iff.mp hs.symm).1

theorem OverlongWith.not_section (h : OverlongWith t s l rest) : ¬ SectionOf t s l' := by
  obtain ⟨n, hn, hs, -, -, -, hlt⟩ := h
  rintro ⟨hs', hn', hfits, -⟩
  have h1 := reads_varint.round (a := (n, varintBytes n)) (spelled l ++ rest) ⟨hn, rfl⟩
  have h2 := reads_varint.round (a := (getLengthAll l', varintBytes (getLengthAll l'))) (spelled l') ⟨hn', rfl⟩
  have heq : varintDigits 5 n ++ (spelled l ++ rest) = varintDigits 5 (getLengthAll l') ++ spelled l' :=
    hs.symm.trans hs'
  rw [heq, h2] at h1
  simp only [Except.ok.injEq, Prod.mk.injEq] at h1
  obtain ⟨⟨hlen, -⟩, hbody⟩ := h1
  rw [← hbody, length_spelled hfits] at hlt
  omega

/-- What the decoder accepts is a section up to the end, or one that is declared too short. -/
theorem readAll_section : (∃ rest, readAll t.cmd s = .ok (l, rest)) ↔ SectionOf t s l ∨
    ∃ rest, OverlongWith t s l rest := by
  constructor
  · rintro ⟨rest, h⟩
    obtain ⟨n, hn, hs, hfits, hreach, hc⟩ := readAll_iff.mp h
    by_cases hlt : n < (spelled l ++ rest).length
    · exact .inr ⟨rest, n, hn, hs, hfits, hreach, checkAll_valid.mp hc, hlt⟩
    · have hle := hreach.le
      rw [List.length_append, length_spelled hfits] at hlt
      obtain rfl : rest = [] := List.eq_nil_of_length_eq_zero (by omega)
      obtain rfl : n = getLengthAll l := by omega
      rw [List.append_nil] at hs
      exact .inl ⟨hs, hn, hfits, checkAll_valid.mp hc⟩
  · rintro (⟨hs, hn, hfits, hv⟩ | ⟨rest, n, hn, hs, hfits, hreach, hv, -⟩)
    · exact ⟨[], readAll_iff.mpr ⟨_, hn, by rw [List.append_nil]; exact hs, hfits, reached_length hfits,
        checkAll_valid.mpr hv⟩⟩
    · exact ⟨rest, readAll_iff.mpr ⟨n, hn, hs, hfits, hreach, checkAll_valid.mpr hv⟩⟩

end Sections

/-! ## The acknowledgements -/

section Acks

variable {m : Mosq} {t : Tailed} {s : Bytes} {reasonCode : UInt8} {l : List MosquittoProperty}

/-- What is read after a packet id: a tail, or one whose section is declared too short. -/
theorem readAckTail_iff (h5 : m.protocol = .mqtt5) : readAckTail m t.cmd (2 + s.length) s = .ok (reasonCode, l) ↔
    TailOf t s reasonCode l ∨ ∃ s' rest, s = reasonCode :: s' ∧ OverlongWith t s' l rest := by
  unfold readAckTail TailOf
  match s with
  | [] =>
    rw [if_neg (by simp)]
    simp [eq_comm]
  | [r] =>
    have hnone : (¬ ∃ s', [r] = reasonCode :: s' ∧ SectionOf t s' l) ∧
        ¬ ∃ s' rest, [r] = reasonCode :: s' ∧ OverlongWith t s' l rest := by
      constructor
      · rintro ⟨s', hs, h⟩
        obtain ⟨-, rfl⟩ := List.cons.inj hs
        exact not_sectionOf_nil h
      · rintro ⟨s', rest, hs, h⟩
        obtain ⟨-, rfl⟩ := List.cons.inj hs
        exact not_overlongWith_nil h
    rw [if_pos ⟨h5, by simp⟩, or_iff_left hnone.2, or_iff_left hnone.1]
    simp [readByte, bind, Except.bind, eq_comm]
  | r :: b :: s =>
    rw [if_pos ⟨h5, by simp⟩]
    have hlong : 2 + (r :: b :: s).length > 3 := by simp; omega
    have hread : (do let (properties, _) ← readAll t.cmd (b :: s); Except.ok (r, properties)) =
        .ok (reasonCode, l) ↔
        r = reasonCode ∧ ∃ rest, readAll t.cmd (b :: s) = .ok (l, rest) := by
      cases readAll t.cmd (b :: s) with
      | error rc => simp [bind, Except.bind]
      | ok q => simp [bind, Except.bind, Prod.ext_iff]
    simp only [readByte, bind, Except.bind, if_pos hlong]
    refine hread.trans ?_
    rw [readAll_section]
    constructor
    · rintro ⟨rfl, h | ⟨rest, h⟩⟩
      · exact .inl (.inr (.inr ⟨b :: s, rfl, h⟩))
      · exact .inr ⟨b :: s, rest, rfl, h⟩
    · rintro ((⟨h, -⟩ | ⟨h, -⟩ | ⟨s', h, hsec⟩) | ⟨s', rest, h, hlong⟩)
      · cases h
      · cases h
      · obtain ⟨rfl, rfl⟩ := List.cons.inj h
        exact ⟨rfl, .inl hsec⟩
      · obtain ⟨rfl, rfl⟩ := List.cons.inj h
        exact ⟨rfl, .inr ⟨rest, hlong⟩⟩

/-- A tail is no longer one when its section is declared too short. -/
theorem OverlongWith.not_tail {rest : Bytes} {r : UInt8} {l' : List MosquittoProperty}
    (h : OverlongWith t s l rest) :
    ¬ TailOf t (reasonCode :: s) r l' := by
  rintro (⟨hs, -⟩ | ⟨hs, -⟩ | ⟨s', hs, hsec⟩)
  · cases hs
  · obtain ⟨-, rfl⟩ := List.cons.inj hs
    exact not_overlongWith_nil h
  · obtain ⟨-, rfl⟩ := List.cons.inj hs
    exact h.not_section hsec

theorem readAckBody_iff (h5 : m.protocol = .mqtt5) {mid : UInt16} {body : Bytes} :
    readAckBody m t.cmd body = .ok (mid, reasonCode, l) ↔ mid ≠ 0 ∧ ∃ s, body = writeUint16 mid ++ s ∧
      (TailOf t s reasonCode l ∨ ∃ s' rest, s = reasonCode :: s' ∧ OverlongWith t s' l rest) := by
  constructor
  · intro h
    unfold readAckBody at h
    cases hr : readUint16 body with
    | error rc => simp [hr, bind, Except.bind] at h
    | ok q =>
      obtain ⟨mid', s⟩ := q
      obtain ⟨-, rfl⟩ := reads_uint16.only hr
      have hlen : (writeUint16 mid' ++ s).length = 2 + s.length := by simp
      by_cases hmid : mid' = 0
      · simp only [hr, bind, Except.bind, if_pos hmid] at h
        cases h
      · rw [hlen] at h
        cases ht : readAckTail m t.cmd (2 + s.length) s with
        | error rc => simp [hr, hmid, ht, bind, Except.bind] at h
        | ok q =>
          simp only [hr, hmid, ht, bind, Except.bind, if_false, Except.ok.injEq, Prod.mk.injEq] at h
          obtain ⟨rfl, rfl, rfl⟩ := h
          exact ⟨hmid, s, rfl, (readAckTail_iff h5).mp ht⟩
  · rintro ⟨hmid, s, rfl, htail⟩
    have hr := reads_uint16.round (a := mid) s trivial
    have hlen : (writeUint16 mid ++ s).length = 2 + s.length := by simp
    have ht := (readAckTail_iff h5).mpr htail
    unfold readAckBody
    rw [hlen, hr]
    simp [bind, Except.bind, hmid, ht]

/-- The bodies of the acknowledgements, for a handler that reads and acts as they all do. -/
theorem acks_iff (h5 : m.protocol = .mqtt5) {flags : UInt8} {body : Bytes}
    (hread : ∀ a, readBody m flags t body = .ok a ↔
      ∃ mid reasonCode l, readAckBody m t.cmd body = .ok (mid, reasonCode, l) ∧ a = act t mid reasonCode l)
    (hwell : ∀ mid reasonCode l, WellFormed t body mid reasonCode l ↔
      mid ≠ 0 ∧ ∃ s, body = writeUint16 mid ++ s ∧ TailOf t s reasonCode l) :
    ActsOn m flags t body ↔ ¬ ∃ mid r s, mid ≠ 0 ∧ body = writeUint16 mid ++ r :: s ∧ Overlong t s := by
  constructor
  · rintro h ⟨mid, r, s, hmid, hbody, l, rest, hlong⟩
    have hgot : readAckBody m t.cmd body = .ok (mid, r, l) :=
      (readAckBody_iff h5).mpr ⟨hmid, r :: s, hbody, .inr ⟨s, rest, rfl, hlong⟩⟩
    obtain ⟨mid', r', l', hw, -⟩ := (h _).mp ((hread _).mpr ⟨mid, r, l, hgot, rfl⟩)
    obtain ⟨-, s', hbody', htail⟩ := (hwell _ _ _).mp hw
    obtain ⟨-, rfl⟩ : mid = mid' ∧ r :: s = s' := by
      have h1 := reads_uint16.round (a := mid) (r :: s) trivial
      have h2 := reads_uint16.round (a := mid') s' trivial
      rw [← hbody, hbody', h2] at h1
      simpa [eq_comm] using h1
    exact hlong.not_tail htail
  · intro hno a
    rw [hread]
    constructor
    · rintro ⟨mid, r, l, hgot, rfl⟩
      obtain ⟨hmid, s, hbody, htail | ⟨s', rest, rfl, hlong⟩⟩ := (readAckBody_iff h5).mp hgot
      · exact ⟨mid, r, l, (hwell _ _ _).mpr ⟨hmid, s, hbody, htail⟩, rfl⟩
      · exact absurd ⟨mid, r, s', hmid, hbody, l, rest, hlong⟩ hno
    · rintro ⟨mid, r, l, hw, rfl⟩
      obtain ⟨hmid, s, hbody, htail⟩ := (hwell _ _ _).mp hw
      exact ⟨mid, r, l, (readAckBody_iff h5).mpr ⟨hmid, s, hbody, .inl htail⟩, rfl⟩

end Acks

/-! ## DISCONNECT and AUTH -/

section Others

variable {m : Mosq} {flags : UInt8} {t : Tailed} {s : Bytes} {r : UInt8}

/-- A section is accepted as it should be, unless it is declared too short. -/
theorem accepted_iff : ((∃ l rest, readAll t.cmd s = .ok (l, rest)) ↔ ∃ l, SectionOf t s l) ↔ ¬ Overlong t s := by
  constructor
  · rintro h ⟨l, rest, hlong⟩
    obtain ⟨l', hsec⟩ := h.mp ⟨l, readAll_section.mpr (.inr ⟨rest, hlong⟩)⟩
    exact hlong.not_section hsec
  · intro hno
    constructor
    · rintro ⟨l, h⟩
      rcases readAll_section.mp h with hsec | hlong
      · exact ⟨l, hsec⟩
      · exact absurd ⟨l, hlong⟩ hno
    · rintro ⟨l, hsec⟩
      exact ⟨l, readAll_section.mpr (.inl hsec)⟩

/-- The one digit of a length that nothing follows. -/
theorem digits_one {n : Nat} {x : UInt8} {after : Bytes} (h : [x] = varintDigits 5 n ++ after) :
    varintDigits 5 n = [x] ∧ after = [] := by
  cases hd : varintDigits 5 n with
  | nil => exact absurd hd (varintDigits_ne_nil n)
  | cons d ds =>
    rw [hd, List.cons_append] at h
    obtain ⟨rfl, hnil⟩ := List.cons.inj h
    obtain ⟨rfl, rfl⟩ := List.append_eq_nil_iff.mp hnil.symm
    exact ⟨rfl, rfl⟩

theorem sectionOf_one {x : UInt8} : (∃ l, SectionOf t [x] l) ↔ x = 0 := by
  constructor
  · rintro ⟨l, hs, -, hfits, -⟩
    obtain ⟨hd, hnil⟩ := digits_one hs
    obtain rfl : l = [] := List.eq_nil_of_length_eq_zero (by simpa [hnil] using length_le_spelled hfits)
    exact (List.cons.inj hd).1.symm
  · rintro rfl
    exact ⟨[], rfl, by decide, List.forall_mem_nil _, List.forall_mem_nil _, fun i _ => Nat.zero_le _⟩

theorem not_overlong_one {x : UInt8} : ¬ Overlong t [x] := by
  rintro ⟨l, rest, n, -, hs, -, -, -, hlt⟩
  rw [(digits_one hs).2] at hlt
  cases hlt

theorem not_overlong_nil : ¬ Overlong t [] := fun ⟨_, _, h⟩ => not_overlongWith_nil h

/-- The grammar of what follows a reason code. -/
theorem tailOf_cons (r' : UInt8) (l : List MosquittoProperty) :
    TailOf t (r :: s) r' l ↔ r' = r ∧ ((s = [] ∧ l = []) ∨ SectionOf t s l) := by
  unfold TailOf
  constructor
  · rintro (⟨h, -⟩ | ⟨h, rfl⟩ | ⟨s', h, hsec⟩)
    · cases h
    · obtain ⟨rfl, rfl⟩ := List.cons.inj h
      exact ⟨rfl, .inl ⟨rfl, rfl⟩⟩
    · obtain ⟨rfl, rfl⟩ := List.cons.inj h
      exact ⟨rfl, .inr hsec⟩
  · rintro ⟨rfl, ⟨rfl, rfl⟩ | hsec⟩
    · exact .inr (.inl ⟨rfl, rfl⟩)
    · exact .inr (.inr ⟨s, rfl, hsec⟩)

/-- A packet without a packet id, of which the handler passes on the reason code alone. -/
theorem actsOn_cons {f : UInt8 → Action} {P : Bytes → Prop}
    (hread : ∀ a, readBody m flags t (r :: s) = .ok a ↔ a = f r ∧ P s)
    (hwell : ∀ body mid reasonCode l, WellFormed t body mid reasonCode l ↔ TailOf t body reasonCode l)
    (hact : ∀ mid reasonCode l, act t mid reasonCode l = f reasonCode) :
    ActsOn m flags t (r :: s) ↔ (P s ↔ (s = [] ∨ ∃ l, SectionOf t s l)) := by
  have hsaid (a : Action) : (∃ mid reasonCode l, WellFormed t (r :: s) mid reasonCode l ∧
      a = act t mid reasonCode l) ↔
      a = f r ∧ (s = [] ∨ ∃ l, SectionOf t s l) := by
    simp only [hwell, hact]
    constructor
    · rintro ⟨mid, r', l, h, rfl⟩
      obtain ⟨rfl, ⟨hs, -⟩ | hsec⟩ := (tailOf_cons r' l).mp h
      · exact ⟨rfl, .inl hs⟩
      · exact ⟨rfl, .inr ⟨l, hsec⟩⟩
    · rintro ⟨rfl, hs | ⟨l, hsec⟩⟩
      · exact ⟨0, r, [], (tailOf_cons r []).mpr ⟨rfl, .inl ⟨hs, rfl⟩⟩, rfl⟩
      · exact ⟨0, r, l, (tailOf_cons r l).mpr ⟨rfl, .inr hsec⟩, rfl⟩
  unfold ActsOn
  simp only [hsaid, hread]
  constructor
  · intro h
    simpa using h (f r)
  · intro h a
    rw [h]

/-- Without a reason code it is one with the reason code 0. -/
theorem not_actsOn_nil (hread : ∀ a, readBody m flags t [] ≠ .ok a)
    (hwell : ∀ body mid reasonCode l, WellFormed t body mid reasonCode l ↔ TailOf t body reasonCode l) :
    ¬ ActsOn m flags t [] := by
  intro h
  have hempty : WellFormed t [] 0 0 [] := (hwell _ _ _ _).mpr (.inl ⟨rfl, rfl, rfl⟩)
  exact hread _ ((h _).mpr ⟨0, 0, [], hempty, rfl⟩)

theorem disconnectBody_cons (h5 : m.protocol = .mqtt5) (a : Action) : disconnectBody m (r :: s) = .ok a ↔
    a = .disconnected r ∧ (s.length ≤ 1 ∨ ∃ l rest, readAll .disconnect s = .ok (l, rest)) := by
  have hread : readByte (r :: s) = .ok (r, s) := rfl
  unfold disconnectBody readDisconnectTail
  rw [if_neg (by simp [h5]), hread]
  dsimp only [bind, Except.bind]
  by_cases hlen : s.length ≤ 1
  · have hshort : ¬ (r :: s).length > 2 := by simp; omega
    rw [if_neg hshort]
    simp [hlen, eq_comm]
  · have hlong : (r :: s).length > 2 := by simp; omega
    rw [if_pos hlong]
    cases readAll .disconnect s with
    | error rc => simp [hlen]
    | ok q => simp [eq_comm, Prod.ext_iff]

theorem disconnect_iff (h5 : m.protocol = .mqtt5) (body : Bytes) :
    ActsOn m flags .disconnect body ↔ ¬ Slips .disconnect body := by
  cases body with
  | nil =>
    have hread (a : Action) : readBody m flags .disconnect [] ≠ .ok a := by
      simp [readBody, disconnectBody, h5, readByte, bind, Except.bind]
    exact iff_of_false (not_actsOn_nil hread (fun _ _ _ _ => Iff.rfl)) (fun h => h (.inl rfl))
  | cons r s =>
    have hslips : Slips .disconnect (r :: s) ↔ (∃ x, x ≠ 0 ∧ s = [x]) ∨ Overlong .disconnect s := by simp [Slips]
    have hacts : ActsOn m flags .disconnect (r :: s) ↔
        ((s.length ≤ 1 ∨ ∃ l rest, readAll .disconnect s = .ok (l, rest)) ↔
          (s = [] ∨ ∃ l, SectionOf .disconnect s l)) :=
      actsOn_cons (f := .disconnected) (P := fun s => s.length ≤ 1 ∨
        ∃ l rest, readAll .disconnect s = .ok (l, rest))
        (disconnectBody_cons h5) (fun _ _ _ _ => Iff.rfl) (fun _ _ _ => rfl)
    rw [hacts, hslips]
    rcases s with _ | ⟨x, _ | ⟨y, s⟩⟩
    · simp [not_overlong_nil]
    · simp [sectionOf_one, not_overlong_one]
    · have hlong : ¬ (x :: y :: s).length ≤ 1 := by simp
      have hone : ¬ ∃ z, z ≠ 0 ∧ x :: y :: s = [z] := by simp
      rw [or_iff_right hlong, or_iff_right hone, or_iff_right (List.cons_ne_nil _ _)]
      exact accepted_iff (t := .disconnect)

theorem authBody_cons (h5 : m.protocol = .mqtt5) (a : Action) : authBody m (r :: s) = .ok a ↔
    a = .nothing ∧ ∃ l rest, readAll .auth s = .ok (l, rest) := by
  have hread : readByte (r :: s) = .ok (r, s) := rfl
  unfold authBody readAuth
  rw [if_neg (by simp [h5]), hread]
  dsimp only [bind, Except.bind]
  cases readAll .auth s with
  | error rc => simp
  | ok q => simp [eq_comm, Prod.ext_iff]

theorem auth_iff (h5 : m.protocol = .mqtt5) (body : Bytes) : ActsOn m flags .auth body ↔ ¬ Slips .auth body := by
  cases body with
  | nil =>
    have hread (a : Action) : readBody m flags .auth [] ≠ .ok a := by
      simp [readBody, authBody, readAuth, h5, readByte, bind, Except.bind]
    exact iff_of_false (not_actsOn_nil hread (fun _ _ _ _ => Iff.rfl)) (fun h => h (.inl rfl))
  | cons r s =>
    have hslips : Slips .auth (r :: s) ↔ s = [] ∨ Overlong .auth s := by simp [Slips]
    have hacts : ActsOn m flags .auth (r :: s) ↔
        ((∃ l rest, readAll .auth s = .ok (l, rest)) ↔ (s = [] ∨ ∃ l, SectionOf .auth s l)) :=
      actsOn_cons (f := fun _ => .nothing) (P := fun s => ∃ l rest, readAll .auth s = .ok (l, rest))
        (authBody_cons h5) (fun _ _ _ _ => Iff.rfl) (fun _ _ _ => rfl)
    rw [hacts, hslips]
    cases s with
    | nil =>
      have hnone : ¬ ∃ l rest, readAll .auth [] = .ok (l, rest) := by
        rintro ⟨l, rest, h⟩
        cases h
      simp [hnone]
    | cons x s =>
      rw [or_iff_right (List.cons_ne_nil _ _), or_iff_right (List.cons_ne_nil _ _)]
      exact accepted_iff (t := .auth)

end Others

/-! ## Where the process ends -/

section Ending

variable {m : Mosq} {flags : UInt8} {t : Tailed} {s : Bytes}

theorem Unknown.length (h : Unknown s) : 2 ≤ s.length := by
  have hpos (n : Nat) : 0 < (varintDigits 5 n).length := List.length_pos_iff.mpr (varintDigits_ne_nil n)
  obtain ⟨n, body, -, rfl, l, rest, rfl, -, -, code, rest', rfl, -, -⟩ := h
  have h1 := hpos n
  have h2 := hpos code
  simp only [List.length_append]
  omega

/-- A result is passed on only when there is one. -/
theorem bind_aborted {α β : Type} {x : Except Rc α} {f : α → Except Rc β} (hf : ∀ a, f a ≠ .error .aborted) :
    (x >>= f) = .error .aborted ↔ x = .error .aborted := by
  cases x with
  | error e => simp [bind, Except.bind]
  | ok a => exact iff_of_false (hf a) (by simp)

theorem readAckTail_aborted (h5 : m.protocol = .mqtt5) :
    readAckTail m t.cmd (2 + s.length) s = .error .aborted ↔ ∃ r s', s = r :: s' ∧ Unknown s' := by
  unfold readAckTail
  rcases s with _ | ⟨r, _ | ⟨b, s⟩⟩
  · simp
  · rw [if_pos ⟨h5, by simp⟩]
    refine iff_of_false (by simp [readByte, bind, Except.bind]) ?_
    rintro ⟨r', s', hs, hu⟩
    obtain ⟨-, rfl⟩ := List.cons.inj hs
    exact absurd hu.length (by simp)
  · have hlong : 2 + (r :: b :: s).length > 3 := by simp; omega
    rw [if_pos ⟨h5, by simp⟩]
    have hread : (do let (properties, _) ← readAll t.cmd (b :: s); Except.ok (r, properties)) =
        (.error .aborted : Except Rc (UInt8 × List MosquittoProperty)) ↔ Unknown (b :: s) :=
      (bind_aborted (fun _ => by simp)).trans readAll_aborted
    simp only [readByte, bind, Except.bind, if_pos hlong]
    refine hread.trans ⟨fun h => ⟨r, b :: s, rfl, h⟩, ?_⟩
    rintro ⟨r', s', hs, hu⟩
    obtain ⟨-, rfl⟩ := List.cons.inj hs
    exact hu

theorem readAckBody_aborted (h5 : m.protocol = .mqtt5) {body : Bytes} :
    readAckBody m t.cmd body = .error .aborted ↔
    ∃ mid r s, mid ≠ 0 ∧ body = writeUint16 mid ++ r :: s ∧ Unknown s := by
  have hok (mid : UInt16) (q : UInt8 × List MosquittoProperty) :
      (Except.ok (mid, q.1, q.2) : Except Rc (UInt16 × UInt8 × List MosquittoProperty)) ≠ .error .aborted := by
        simp
  constructor
  · intro h
    cases hr : readUint16 body with
    | error e =>
      simp only [readAckBody, hr, bind, Except.bind, Except.error.injEq] at h
      exact absurd h (refusing_readUint16 body e hr).2
    | ok q =>
      obtain ⟨mid, s⟩ := q
      obtain ⟨-, rfl⟩ := reads_uint16.only hr
      have hlen : (writeUint16 mid ++ s).length = 2 + s.length := by simp
      by_cases hmid : mid = 0
      · simp only [readAckBody, hr, bind, Except.bind, if_pos hmid] at h
        cases h
      · unfold readAckBody at h
        rw [hr, hlen] at h
        simp only [bind, Except.bind, hmid, if_false] at h
        obtain ⟨r, s', rfl, hu⟩ := (readAckTail_aborted h5).mp ((bind_aborted (hok mid)).mp h)
        exact ⟨mid, r, s', hmid, rfl, hu⟩
  · rintro ⟨mid, r, s, hmid, rfl, hu⟩
    have hr := reads_uint16.round (a := mid) (r :: s) trivial
    have hlen : (writeUint16 mid ++ r :: s).length = 2 + (r :: s).length := by simp
    unfold readAckBody
    rw [hr, hlen]
    simp only [bind, Except.bind, hmid, if_false]
    exact (bind_aborted (hok mid)).mpr ((readAckTail_aborted h5).mpr ⟨r, s, rfl, hu⟩)

theorem disconnect_aborted (h5 : m.protocol = .mqtt5) {body : Bytes} :
    disconnectBody m body = .error .aborted ↔ ∃ r s, body = r :: s ∧ Unknown s := by
  unfold disconnectBody
  rw [if_neg (by simp [h5])]
  cases body with
  | nil => simp [readByte, bind, Except.bind]
  | cons r s =>
    have htail : readDisconnectTail (r :: s).length s = .error .aborted ↔ Unknown s := by
      unfold readDisconnectTail
      split
      · exact (bind_aborted (fun _ => by simp)).trans readAll_aborted
      · rename_i hshort
        refine iff_of_false (by simp) (fun hu => hshort ?_)
        have := hu.length
        simp only [List.length_cons]
        omega
    have hread : readByte (r :: s) = .ok (r, s) := rfl
    rw [hread]
    refine ((bind_aborted (fun _ => by simp)).trans htail).trans ⟨fun h => ⟨r, s, rfl, h⟩, ?_⟩
    rintro ⟨r', s', hs, hu⟩
    obtain ⟨-, rfl⟩ := List.cons.inj hs
    exact hu

theorem auth_aborted (h5 : m.protocol = .mqtt5) {body : Bytes} :
    authBody m body = .error .aborted ↔ ∃ r s, body = r :: s ∧ Unknown s := by
  unfold authBody
  rw [if_neg (by simp [h5])]
  refine (bind_aborted (fun _ => by simp)).trans ?_
  cases body with
  | nil => simp [readAuth, readByte]
  | cons r s =>
    refine ((bind_aborted (fun _ => by simp)).trans readAll_aborted).trans ⟨fun h => ⟨r, s, rfl, h⟩, ?_⟩
    rintro ⟨r', s', hs, hu⟩
    obtain ⟨-, rfl⟩ := List.cons.inj hs
    exact hu

/-- A handler does not return exactly on those bodies. -/
theorem readBody_aborted (hactive : m.state = .active) (h5 : m.protocol = .mqtt5)
    (hflags : t = .pubrel → flags &&& 0x0F = 0x02) (body : Bytes) :
    readBody m flags t body = .error .aborted ↔ Ends t body := by
  have hack {f : UInt16 → UInt8 → List MosquittoProperty → Action} :
      (readAckBody m t.cmd body >>= fun q => .ok (f q.1 q.2.1 q.2.2)) = (.error .aborted : Except Rc Action) ↔
        ∃ mid r s, mid ≠ 0 ∧ body = writeUint16 mid ++ r :: s ∧ Unknown s :=
    (bind_aborted (fun _ => by simp)).trans (readAckBody_aborted h5)
  cases t with
  | puback =>
    simp only [readBody, pubackcompBody, hactive]
    exact hack (f := act .puback)
  | pubcomp =>
    simp only [readBody, pubackcompBody, hactive]
    exact hack (f := act .pubcomp)
  | pubrec =>
    simp only [readBody, pubrecBody, hactive, h5, not_true_eq_false, or_false, ne_eq, if_false]
    exact hack (f := act .pubrec)
  | pubrel =>
    simp only [readBody, pubrelBody, hactive, hflags rfl, not_true_eq_false, and_false, ne_eq, if_false]
    exact hack (f := act .pubrel)
  | disconnect => exact disconnect_aborted h5
  | auth => exact auth_aborted h5

end Ending

/-! ## All six -/

theorem actsOn_iff {m : Mosq} {flags : UInt8} {t : Tailed} (hactive : m.state = .active)
    (h5 : m.protocol = .mqtt5)
    (hflags : t = .pubrel → flags &&& 0x0F = 0x02) (body : Bytes) : ActsOn m flags t body ↔ ¬ Slips t body := by
  have hok {x : Except Rc (UInt16 × UInt8 × List MosquittoProperty)}
      (f : UInt16 → UInt8 → List MosquittoProperty → Action)
      (a : Action) : (x >>= fun q => .ok (f q.1 q.2.1 q.2.2)) = .ok a ↔ ∃ mid r l, x = .ok (mid, r, l) ∧
        a = f mid r l := by
    cases x with
    | error rc => simp [bind, Except.bind]
    | ok q => simp [bind, Except.bind, eq_comm, Prod.ext_iff]
  cases t with
  | puback =>
    refine acks_iff h5 (fun a => ?_) (fun _ _ _ => Iff.rfl)
    simp only [readBody, pubackcompBody, hactive]
    exact hok (act .puback) a
  | pubcomp =>
    refine acks_iff h5 (fun a => ?_) (fun _ _ _ => Iff.rfl)
    simp only [readBody, pubackcompBody, hactive]
    exact hok (act .pubcomp) a
  | pubrec =>
    refine acks_iff h5 (fun a => ?_) (fun _ _ _ => Iff.rfl)
    simp only [readBody, pubrecBody, hactive, h5, not_true_eq_false, or_false, ne_eq, if_false]
    exact hok (act .pubrec) a
  | pubrel =>
    refine acks_iff h5 (fun a => ?_) (fun _ _ _ => Iff.rfl)
    simp only [readBody, pubrelBody, hactive, hflags rfl, not_true_eq_false, and_false, ne_eq, if_false]
    exact hok (act .pubrel) a
  | disconnect => exact disconnect_iff h5 body
  | auth => exact auth_iff h5 body

/-- On an active client in version 5 a handler returns, accepts the well-formed bodies, no others, and acts as
    they say, exactly when the body is not one of those for which it slips, nor one on which the process ends. -/
theorem tails_iff {m : Mosq} {flags : UInt8} {t : Tailed} (hactive : m.state = .active) (h5 : m.protocol = .mqtt5)
    (hflags : t = .pubrel → flags &&& 0x0F = 0x02) (body : Bytes) :
    Meets m flags t body ↔ ¬ Slips t body ∧ ¬ Ends t body := by
  have hacts : ActsOn m flags t body ↔ ¬ Slips t body := actsOn_iff hactive h5 hflags body
  have hends : readBody m flags t body = .error .aborted ↔ Ends t body := readBody_aborted hactive h5 hflags body
  exact ⟨fun h => ⟨hacts.mp h.acts, fun he => h.returns (hends.mpr he)⟩,
    fun h => ⟨fun ha => h.2 (hends.mp ha), hacts.mpr h.1⟩⟩

def activeClient : Mosq := { Mosq.new (some []) true with sock := some 0, protocol := .mqtt5, state := .active }

/-- A PUBACK with a packet id alone. -/
theorem tails_iff_puback : Meets activeClient 0 .puback [0, 1] ↔ ¬ Slips .puback [0, 1] ∧ ¬ Ends .puback [0, 1] :=
  tails_iff rfl rfl (fun h => by cases h) [0, 1]

/-- A DISCONNECT without a reason code is refused as an error of the protocol. -/
theorem empty_disconnect_refused : readBody activeClient 0 .disconnect [] = .error .protocol ∧
    ¬ ∀ t body, Meets activeClient 0x02 t body := by
  refine ⟨rfl, fun h => ?_⟩
  have hget := ((h .disconnect []).acts (.disconnected 0)).mpr ⟨0, 0, [], .inl ⟨rfl, rfl, rfl⟩, rfl⟩
  cases hget

end Artemisia.Client
