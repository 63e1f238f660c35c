/-
  Artemisia.Client.Heap — the memory of the messages, of the property lists and of the packets that are to be
  sent, from `malloc` to `free`.

  A message is one block here, with its topic and its payload, and so are a property list and a packet. What
  the tests of a function come to, where they have nothing to do with the memory, is in the action, and so is what
  `malloc` answers. `property__read_all` and `mosquitto_property_copy_all` free what they have when they fail. The
  calls of the Swift object build a property list, and never free it. The strings of the client, such as its id,
  and the packet that is being read are left out.

  Proved:
  - `step_owned`:  what a call takes, it gives back, puts into a message that is stored, or loses as `lost` says.
  - `heap_owned`:  in every run each block is in a message, or it has been lost, and none is freed twice.
-/
import Artemisia.Client.Types
import Artemisia.Lib.Handles
import Artemisia.Lib.Machine

namespace Artemisia.Heap

open Artemisia.Property Handles

/-- A `struct mosquitto_message_all`. -/
structure Stored where
  mid : UInt16
  qos : Nat
  block : Nat
  properties : Option Nat
  deriving DecidableEq

structure Client where
  msgsIn : List Stored
  msgsOut : List Stored
  will : Option Stored
  currentOutPacket : Option Nat
  outPacket : List Nat

def Client.new : Client := ⟨[], [], none, none, []⟩

def Stored.blocks (m : Stored) : List Nat := m.properties.toList ++ [m.block]

def Client.all (c : Client) : List Stored := c.msgsIn ++ (c.msgsOut ++ c.will.toList)

def Client.packets (c : Client) : List Nat := c.currentOutPacket.toList ++ c.outPacket

def Client.blocks (c : Client) : List Nat := c.all.flatMap Stored.blocks ++ c.packets

/-! ## `messages_mosq.c`, `property_mosq.c` -/

def propertyFreeAll (t : Table Nat) (p : Option Nat) : Table Nat := t.closeAll p.toList

def messageCleanup (t : Table Nat) (m : Stored) : Table Nat := (propertyFreeAll t m.properties).close m.block

def cleanupAll (t : Table Nat) (l : List Stored) : Table Nat := l.foldl messageCleanup t

def messageRemove (l : List Stored) (mid : UInt16) (qos : Nat) : Except Rc (Stored × List Stored) :=
  match l.find? fun m => m.mid = mid with
  | none => .error .notFound
  | some m => if m.qos ≠ qos then .error .protocol else .ok (m, l.erase m)

/-- What `property__read_all` or `mosquitto_property_copy_all` comes to; without a property it is NULL. -/
inductive Props where
  | absent | fails
  | list (p : Nat)
  deriving DecidableEq

/-- A list of properties is made: the list, `none` where that fails. -/
def makeProps (t : Table Nat) : Props → Option (Table Nat × Option (Option Nat))
  | .absent => some (t, some none)
  | .fails => some (t, none)
  | .list p => (t.opens p).map fun t => (t, some (some p))

/-! ## `handle_*.c` -/

/-- A PUBLISH: the memory for the message, whether all is well up to the properties and with the payload. -/
structure PublishIn where
  message : Option Nat
  header : Bool
  properties : Props
  payload : Bool
  qos : Nat
  mid : UInt16

def handlePublish (t : Table Nat) (c : Client) (a : PublishIn) : Option (Table Nat × Client) :=
  match a.message with
  | none => some (t, c)
  | some block => do
    let t ← t.opens block
    if !a.header then some (messageCleanup t ⟨a.mid, a.qos, block, none⟩, c)
    else match ← makeProps t a.properties with
      | (t, none) => some (t, c)
      | (t, some p) =>
        if !a.payload ∨ a.qos ≠ 2 then
          some (propertyFreeAll (messageCleanup t ⟨a.mid, a.qos, block, none⟩) p, c)
        else some (t, { c with msgsIn := c.msgsIn ++ [⟨a.mid, a.qos, block, p⟩] })

/-- An acknowledgement: whether all is well up to the properties, and with what is sent or allocated then. -/
structure AckIn where
  header : Bool
  properties : Props
  mid : UInt16
  goesOn : Bool

/-- `handle__pubrel`; it goes on if the PUBCOMP is sent. -/
def handlePubrel (t : Table Nat) (c : Client) (a : AckIn) : Option (Table Nat × Client) :=
  if !a.header then some (t, c)
  else do
    match ← makeProps t a.properties with
    | (t, none) => some (t, c)
    | (t, some p) =>
      match messageRemove c.msgsIn a.mid 2 with
      | .error _ => some (t, c)
      | .ok (m, l) =>
        if !a.goesOn then some (t, { c with msgsIn := l })
        else some (messageCleanup (propertyFreeAll t p) m, { c with msgsIn := l })

def handlePubackcomp (t : Table Nat) (c : Client) (qos : Nat) (a : AckIn) : Option (Table Nat × Client) :=
  if !a.header then some (t, c)
  else do
    match ← makeProps t a.properties with
    | (t, none) => some (t, c)
    | (t, some p) =>
      match messageRemove c.msgsOut a.mid qos with
      | .error _ => some (t, c)
      | .ok (m, l) => some (propertyFreeAll (messageCleanup t m) p, { c with msgsOut := l })

/-- `handle__pubrec`; it goes on with the message if the reason code is no error. -/
def handlePubrec (t : Table Nat) (c : Client) (a : AckIn) : Option (Table Nat × Client) :=
  if !a.header then some (t, c)
  else do
    match ← makeProps t a.properties with
    | (t, none) => some (t, c)
    | (t, some p) =>
      let t := propertyFreeAll t p
      if a.goesOn then some (t, c)
      else match messageRemove c.msgsOut a.mid 2 with
        | .error _ => some (t, c)
        | .ok (m, l) => some (messageCleanup t m, { c with msgsOut := l })

/-- `handle__suback`; it goes on if there is memory for the QoS levels. -/
def handleSuback (t : Table Nat) (c : Client) (a : AckIn) : Option (Table Nat × Client) :=
  if !a.header then some (t, c)
  else do
    match ← makeProps t a.properties with
    | (t, none) => some (t, c)
    | (t, some p) => if !a.goesOn then some (t, c) else some (propertyFreeAll t p, c)

/-- `handle__connack`, `handle__unsuback` and `handle__auth`: every way out frees the properties. -/
def handleOther (t : Table Nat) (c : Client) (a : AckIn) : Option (Table Nat × Client) :=
  if !a.header then some (t, c)
  else do
    match ← makeProps t a.properties with
    | (t, none) => some (t, c)
    | (t, some p) => some (propertyFreeAll t p, c)

/-! ## `packet_mosq.c`, `send_*.c` and `handle_disconnect.c` -/

def nextPacket (c : Client) : Client :=
  { c with currentOutPacket := c.outPacket.head?, outPacket := c.outPacket.tail }

/-- `packet__write` before its loop. -/
def takeNext (c : Client) : Client := if c.currentOutPacket.isNone then nextPacket c else c

/-- The loop of `packet__write`, in which so many packets are written whole, perhaps with a DISCONNECT as
    the last. -/
def packetWriteLoop (t : Table Nat) (c : Client) : Nat → Table Nat × Client
  | 0 => (t, c)
  | n + 1 => match c.currentOutPacket with
    | none => (t, c)
    | some p => packetWriteLoop (t.close p) (nextPacket c) n

def packetCleanupAll (t : Table Nat) (c : Client) : Table Nat × Client :=
  (t.closeAll c.packets, { c with currentOutPacket := none, outPacket := [] })

/-- `handle__disconnect`, with `do_client_disconnect`: whatever is being written, the next packet becomes the
    current one. -/
def handleDisconnect (t : Table Nat) (c : Client) (a : AckIn) : Option (Table Nat × Client) :=
  if !a.header then some (t, c)
  else do
    match ← makeProps t a.properties with
    | (t, none) => some (t, c)
    | (t, some p) => some (propertyFreeAll t p, nextPacket c)

/-- `packet__alloc` and `packet__queue`, with the memory for the packet and whether there is some for its
    payload. -/
def queuePacket (t : Table Nat) (c : Client) (packet : Option Nat) (allocated : Bool) :
    Option (Table Nat × Client) :=
  match packet with
  | none => some (t, c)
  | some p => do
    let t ← t.opens p
    if !allocated then some (t.close p, c) else some (t, { c with outPacket := c.outPacket ++ [p] })

/-- `send__connect`: the list with the Receive Maximum, before version 5 whether there is a password and no
    username, and what `malloc` answers for the packet and its payload. -/
structure ConnectOut where
  localProps : Props
  packet : Option Nat
  passwordOnly : Bool
  allocated : Bool

def sendConnect (t : Table Nat) (c : Client) (a : ConnectOut) : Option (Table Nat × Client) := do
  match ← makeProps t a.localProps with
  | (t, none) => some (t, c)
  | (t, some p) =>
    match a.packet with
    | none => some (t, c)
    | some packet => do
      let t ← t.opens packet
      if a.passwordOnly then some (t, c)
      else if !a.allocated then some (t.close packet, c)
      else some (propertyFreeAll t p, { c with outPacket := c.outPacket ++ [packet] })

/-! ## `messages_mosq.c`, `will_mosq.c` and `actions.c` -/

def messageReconnectReset (t : Table Nat) (c : Client) : Table Nat × Client :=
  (cleanupAll t (c.msgsIn.filter (·.qos ≠ 2)), { c with msgsIn := c.msgsIn.filter (·.qos = 2) })

/-- `mosquitto_will_set_v5`, with the list that the caller has built. -/
structure WillSet where
  built : Props
  checks : Bool
  will : Option Nat
  copied : Bool

def willSet (t : Table Nat) (c : Client) (a : WillSet) : Option (Table Nat × Client) := do
  let (t, p) ← makeProps t a.built
  let p := p.getD none
  if !a.checks then some (t, c)
  else
    let t := cleanupAll t c.will.toList
    match a.will with
    | none => some (t, { c with will := none })
    | some block => do
      let t ← t.opens block
      if !a.copied then some (t.close block, { c with will := none })
      else some (t, { c with will := some ⟨0, 0, block, p⟩ })

def willClear (t : Table Nat) (c : Client) : Table Nat × Client :=
  (cleanupAll t c.will.toList, { c with will := none })

/-- `mosquitto_publish_v5`, with the list that the caller has built. -/
structure PublishOut where
  built : Props
  checks : Bool
  qos : Nat
  mid : UInt16
  copy : Props
  message : Option Nat
  copied : Bool

def mosquittoPublishV5 (t : Table Nat) (c : Client) (a : PublishOut) : Option (Table Nat × Client) := do
  let (t, _) ← makeProps t a.built
  if !a.checks ∨ a.qos = 0 then some (t, c)
  else match ← makeProps t a.copy with
    | (t, none) => some (t, c)
    | (t, some p) =>
      match a.message with
      | none => some (propertyFreeAll t p, c)
      | some block => do
        let t ← t.opens block
        if !a.copied then some (propertyFreeAll (messageCleanup t ⟨a.mid, a.qos, block, none⟩) p, c)
        else some (t, { c with msgsOut := c.msgsOut ++ [⟨a.mid, a.qos, block, p⟩] })

def destroy (t : Table Nat) (c : Client) : Table Nat × Client :=
  packetCleanupAll (cleanupAll t c.all) { c with msgsIn := [], msgsOut := [], will := none }

/-! ## The client -/

structure State where
  table : Table Nat
  client : Client

inductive Act where
  | publish (a : PublishIn)
  | pubrel (a : AckIn)
  | pubackcomp (qos : Nat) (a : AckIn)
  | pubrec (a : AckIn)
  | suback (a : AckIn)
  | other (a : AckIn)
  | disconnect (a : AckIn)
  /-- The end of a send function. -/
  | queue (packet : Option Nat) (allocated : Bool)
  | sendConnect (a : ConnectOut)
  /-- `packet__write`. -/
  | write (n : Nat)
  | cleanup
  | reset
  | setWill (a : WillSet)
  | clearWill
  | publishOut (a : PublishOut)
  /-- `connect`, `subscribe`, `unsubscribe` and `disconnect`, with the list that they build. -/
  | call (built : Props)
  | destroy
  /-- Somebody else takes and frees memory. -/
  | others (l : List Nat)

def step (s : State) : Act → Option State
  | .publish a => (handlePublish s.table s.client a).map fun x => ⟨x.1, x.2⟩
  | .pubrel a => (handlePubrel s.table s.client a).map fun x => ⟨x.1, x.2⟩
  | .pubackcomp qos a => (handlePubackcomp s.table s.client qos a).map fun x => ⟨x.1, x.2⟩
  | .pubrec a => (handlePubrec s.table s.client a).map fun x => ⟨x.1, x.2⟩
  | .suback a => (handleSuback s.table s.client a).map fun x => ⟨x.1, x.2⟩
  | .other a => (handleOther s.table s.client a).map fun x => ⟨x.1, x.2⟩
  | .disconnect a => (handleDisconnect s.table s.client a).map fun x => ⟨x.1, x.2⟩
  | .queue packet allocated => (queuePacket s.table s.client packet allocated).map fun x => ⟨x.1, x.2⟩
  | .sendConnect a => (sendConnect s.table s.client a).map fun x => ⟨x.1, x.2⟩
  | .write n =>
    let x := packetWriteLoop s.table (takeNext s.client) n
    some ⟨x.1, x.2⟩
  | .cleanup => some ⟨(packetCleanupAll s.table s.client).1, (packetCleanupAll s.table s.client).2⟩
  | .reset => some ⟨(messageReconnectReset s.table s.client).1, (messageReconnectReset s.table s.client).2⟩
  | .setWill a => (willSet s.table s.client a).map fun x => ⟨x.1, x.2⟩
  | .clearWill => some ⟨(willClear s.table s.client).1, (willClear s.table s.client).2⟩
  | .publishOut a => (mosquittoPublishV5 s.table s.client a).map fun x => ⟨x.1, x.2⟩
  | .call built => (makeProps s.table built).map fun x => { s with table := x.1 }
  | .destroy => some ⟨(destroy s.table s.client).1, (destroy s.table s.client).2⟩
  | .others l => if s.table.held.all (· ∉ l) then some { s with table := { s.table with others := l } } else none

/-! ## What is lost -/

def Props.blocks : Props → List Nat
  | .list p => [p]
  | .absent | .fails => []

/-- The blocks that nobody has after the call. -/
def lost (c : Client) : Act → List Nat
  -- the message, when its properties are not accepted
  | .publish a => if a.header ∧ a.properties = .fails then a.message.toList else []
  -- the properties, when there is no message; both, when the PUBCOMP cannot be sent
  | .pubrel a =>
    if !a.header ∨ a.properties = .fails then [] else match messageRemove c.msgsIn a.mid 2 with
      | .error _ => a.properties.blocks
      | .ok (m, _) => if a.goesOn then [] else m.blocks ++ a.properties.blocks
  -- the properties, when there is no message
  | .pubackcomp qos a =>
    if !a.header then [] else match messageRemove c.msgsOut a.mid qos with
      | .error _ => a.properties.blocks
      | .ok _ => []
  | .suback a => if a.header ∧ !a.goesOn then a.properties.blocks else []
  -- the packet that is being written
  | .disconnect a => if a.header ∧ a.properties ≠ .fails then c.currentOutPacket.toList else []
  -- the Receive Maximum, unless the packet is sent; the packet too, when there is a password and no username
  | .sendConnect a =>
    if a.localProps = .fails then [] else match a.packet with
      | none => a.localProps.blocks
      | some p => if a.passwordOnly then p :: a.localProps.blocks else if a.allocated then []
          else a.localProps.blocks
  -- the list of the caller
  | .setWill a => if a.checks ∧ a.will ≠ none ∧ a.copied then [] else a.built.blocks
  | .publishOut a => a.built.blocks
  | .call built => built.blocks
  | .pubrec _ | .other _ | .queue .. | .write _ | .cleanup | .reset | .clearWill | .destroy | .others _ => []

/-! ## What the parts do to the memory -/

section Parts

variable {t t' : Table Nat} {rest : List Nat} {c : Client} {m : Stored} {l l' : List Stored}

theorem owns_messageCleanup (h : Owns t (m.blocks ++ rest)) : Owns (messageCleanup t m) rest := by
  have hparts : Owns t (m.properties.toList ++ (m.block :: rest)) := by
    simpa [Stored.blocks] using h
  exact hparts.closeAll.close

theorem owns_cleanupAll (h : Owns t (l.flatMap Stored.blocks ++ rest)) : Owns (cleanupAll t l) rest := by
  induction l generalizing t with
  | nil => exact h
  | cons m l ih =>
    rw [List.flatMap_cons, List.append_assoc] at h
    exact ih (owns_messageCleanup h)

/-- The properties that are made are owned, and those that fail leave nothing. -/
inductive Made (rest : List Nat) : Props → Table Nat → Option (Option Nat) → Prop where
  | fails {t : Table Nat} : Owns t rest → Made rest .fails t none
  | made {t : Table Nat} {x : Props} {p : Option Nat} :
      x ≠ .fails → p.toList = x.blocks → Owns t (x.blocks ++ rest) → Made rest x t (some p)

theorem makeProps_made {x : Props} {p : Option (Option Nat)} (h : Owns t rest)
    (hm : makeProps t x = some (t', p)) :
    Made rest x t' p := by
  cases x with
  | absent =>
    cases hm
    exact .made Props.noConfusion rfl h
  | fails =>
    cases hm
    exact .fails h
  | list q =>
    obtain ⟨t1, ho, heq⟩ := Option.map_eq_some_iff.mp hm
    cases heq
    exact .made Props.noConfusion rfl (h.opens ho)

/-- What a list of properties has, whatever is made of it. -/
theorem Made.owns {x : Props} {p : Option (Option Nat)} (h : Made rest x t p) : Owns t (x.blocks ++ rest) := by
  cases h with
  | fails h => exact h
  | made _ _ h => exact h

theorem Made.getD {x : Props} {p : Option (Option Nat)} (h : Made rest x t p) :
    (p.getD none).toList = x.blocks := by
  cases h with
  | fails _ => rfl
  | made _ hp _ => exact hp

theorem messageRemove_perm {mid : UInt16} {qos : Nat} (h : messageRemove l mid qos = .ok (m, l')) :
    l.Perm (m :: l') := by
  unfold messageRemove at h
  split at h
  · cases h
  · rename_i x hx
    split at h
    · cases h
    · cases h
      exact List.perm_cons_erase (List.mem_of_find?_eq_some hx)

/-- A message more is its blocks more. -/
theorem blocks_perm {c' : Client} (h : c.all.Perm (m :: c'.all)) (hp : c'.packets = c.packets) :
    c.blocks.Perm (m.blocks ++ c'.blocks) := by
  have hblocks := (h.flatMap_right Stored.blocks).append_right c.packets
  rw [List.flatMap_cons, List.append_assoc] at hblocks
  rwa [Client.blocks, Client.blocks, hp]

theorem blocks_in_perm (h : l.Perm (m :: l')) :
    ({ c with msgsIn := l } : Client).blocks.Perm (m.blocks ++ ({ c with msgsIn := l' } : Client).blocks) :=
  blocks_perm (h.append_right (c.msgsOut ++ c.will.toList)) rfl

theorem blocks_out_perm (h : l.Perm (m :: l')) :
    ({ c with msgsOut := l } : Client).blocks.Perm (m.blocks ++ ({ c with msgsOut := l' } : Client).blocks) := by
  have hmiddle : (c.msgsIn ++ (l ++ c.will.toList)).Perm (m :: (c.msgsIn ++ (l' ++ c.will.toList))) := by
    refine ((h.append_right c.will.toList).append_left c.msgsIn).trans ?_
    exact List.perm_middle
  exact blocks_perm hmiddle rfl

/-- A message is put at the end of a list. -/
theorem append_perm : (l ++ [m]).Perm (m :: l) := List.perm_append_comm

theorem owns_removedIn {mid : UInt16} {qos : Nat} (hr : messageRemove c.msgsIn mid qos = .ok (m, l))
    (h : Owns t (c.blocks ++ rest)) :
    Owns t (m.blocks ++ (({ c with msgsIn := l } : Client).blocks ++ rest)) := by
  refine h.perm ?_
  rw [← List.append_assoc]
  exact (blocks_in_perm (messageRemove_perm hr)).symm.append_right rest

theorem owns_removedOut {mid : UInt16} {qos : Nat} (hr : messageRemove c.msgsOut mid qos = .ok (m, l))
    (h : Owns t (c.blocks ++ rest)) :
    Owns t (m.blocks ++ (({ c with msgsOut := l } : Client).blocks ++ rest)) := by
  refine h.perm ?_
  rw [← List.append_assoc]
  exact (blocks_out_perm (messageRemove_perm hr)).symm.append_right rest

/-- The will is the last of the messages. -/
theorem blocks_will_perm (w : Option Stored) :
    ({ c with will := w } : Client).blocks.Perm
      (w.toList.flatMap Stored.blocks ++ ({ c with will := none } : Client).blocks) := by
  have hlast : (c.msgsIn ++ (c.msgsOut ++ w.toList)).Perm (w.toList ++ (c.msgsIn ++ (c.msgsOut ++ []))) := by
    rw [List.append_nil, ← List.append_assoc]
    exact List.perm_append_comm
  have hblocks := (hlast.flatMap_right Stored.blocks).append_right c.packets
  have hsplit : (w.toList ++ (c.msgsIn ++ (c.msgsOut ++ []))).flatMap Stored.blocks ++ c.packets
      = w.toList.flatMap Stored.blocks ++ ({ c with will := none } : Client).blocks := by
    rw [List.flatMap_append, List.append_assoc]
    rfl
  exact hblocks.trans (.of_eq hsplit)

theorem owns_withoutWill (h : Owns t (c.blocks ++ rest)) :
    Owns (cleanupAll t c.will.toList) (({ c with will := none } : Client).blocks ++ rest) := by
  refine owns_cleanupAll (h.perm ?_)
  rw [← List.append_assoc]
  exact (blocks_will_perm c.will).symm.append_right rest

end Parts

/-! ## What a call does to the memory -/

section Calls

variable {t t' : Table Nat} {rest : List Nat} {c c' : Client}

theorem owns_handlePublish {a : PublishIn} (h : Owns t (c.blocks ++ rest))
    (hp : handlePublish t c a = some (t', c')) :
    Owns t' (c'.blocks ++ (lost c (.publish a) ++ rest)) := by
  unfold handlePublish at hp
  cases hmsg : a.message with
  | none =>
    rw [hmsg] at hp
    cases hp
    have hlost : lost c (.publish a) = [] := by simp [lost, hmsg]
    rw [hlost]
    exact h
  | some block =>
    simp only [hmsg, Option.bind_eq_bind, Option.bind_eq_some_iff] at hp
    obtain ⟨t1, ho, hp⟩ := hp
    have hopen : Owns t1 ([block] ++ (c.blocks ++ rest)) := h.opens ho
    split at hp
    · rename_i hheader
      cases hp
      have hlost : lost c (.publish a) = [] := by
        rw [lost, if_neg]
        intro hx
        rw [hx.1] at hheader
        cases hheader
      rw [hlost]
      exact owns_messageCleanup hopen
    · rename_i hheader
      have hheader : a.header = true := by simpa using hheader
      rw [Option.bind_eq_some_iff] at hp
      obtain ⟨⟨t2, p⟩, hm, hp⟩ := hp
      have hmade := makeProps_made hopen hm
      generalize hx : a.properties = x at hmade
      cases hmade with
      | fails hmade =>
        cases hp
        have hlost : lost c (.publish a) = [block] := by
          rw [lost, if_pos ⟨hheader, hx⟩, hmsg]
          rfl
        rw [hlost]
        exact hmade.swap
      | @made _ _ q hne hq hmade =>
        have hlost : lost c (.publish a) = [] := by
          rw [lost, if_neg]
          intro hy
          exact hne (hx ▸ hy.2)
        rw [hlost]
        rw [← hq] at hmade
        dsimp only at hp
        split at hp
        · cases hp
          exact (owns_messageCleanup hmade.swap).closeAll
        · cases hp
          refine hmade.perm ?_
          refine ((blocks_in_perm append_perm).append_right rest).trans (.of_eq ?_)
          simp [Stored.blocks]

/-- How far an acknowledgement comes with its properties. -/
inductive Acked (rest : List Nat) (t : Table Nat) (c : Client) (a : AckIn)
    (f : Table Nat → Option Nat → Option (Table Nat × Client)) : Table Nat → Client → Prop where
  | early : a.header = false → Acked rest t c a f t c
  | fails (t' : Table Nat) : a.header = true → a.properties = .fails → Owns t' rest → Acked rest t c a f t' c
  | made (t1 t' : Table Nat) (c' : Client) (p : Option Nat) : a.header = true → a.properties ≠ .fails →
      p.toList = a.properties.blocks → Owns t1 (p.toList ++ rest) → f t1 p = some (t', c') →
      Acked rest t c a f t' c'

/-- The handlers of acknowledgements begin alike. -/
theorem acked {a : AckIn} {f : Table Nat → Option Nat → Option (Table Nat × Client)} (h : Owns t rest)
    (hp : (if !a.header then some (t, c)
      else do
        match ← makeProps t a.properties with
        | (t, none) => some (t, c)
        | (t, some p) => f t p) = some (t', c')) : Acked rest t c a f t' c' := by
  split at hp
  · rename_i hheader
    cases hp
    exact .early (by simpa using hheader)
  · rename_i hheader
    have hheader : a.header = true := by simpa using hheader
    simp only [Option.bind_eq_bind, Option.bind_eq_some_iff] at hp
    obtain ⟨⟨t1, p⟩, hm, hp⟩ := hp
    have hmade := makeProps_made h hm
    generalize hx : a.properties = x at hmade
    cases hmade with
    | fails hmade =>
      cases hp
      exact .fails t' hheader hx hmade
    | @made _ _ p hne hq hmade =>
      rw [← hx] at hne hq hmade
      exact .made t1 t' c' p hheader hne hq (hq ▸ hmade) hp

theorem owns_handlePubrel {a : AckIn} (h : Owns t (c.blocks ++ rest)) (hp : handlePubrel t c a = some (t', c')) :
    Owns t' (c'.blocks ++ (lost c (.pubrel a) ++ rest)) := by
  unfold handlePubrel at hp
  cases acked h hp with
  | early hheader =>
    rw [lost, if_pos (.inl (by simp [hheader]))]
    exact h
  | fails _ hheader hx howns =>
    rw [lost, if_pos (.inr hx)]
    exact howns
  | made t1 _ _ p hheader hne hq howns hp =>
    rw [lost, if_neg (by simp [hheader, hne])]
    cases hr : messageRemove c.msgsIn a.mid 2 with
    | error e =>
      simp only [hr] at hp
      cases hp
      exact (hq ▸ howns).swap
    | ok y =>
      obtain ⟨m, l⟩ := y
      simp only [hr] at hp
      cases hs : a.goesOn with
      | false =>
        simp only [hs] at hp
        cases hp
        show Owns t' (_ ++ ((m.blocks ++ a.properties.blocks) ++ rest))
        rw [List.append_assoc]
        exact (owns_removedIn hr (hq ▸ howns).swap).swap
      | true =>
        simp only [hs] at hp
        cases hp
        exact owns_messageCleanup (owns_removedIn hr howns.closeAll)

theorem owns_handlePubackcomp {qos : Nat} {a : AckIn} (h : Owns t (c.blocks ++ rest))
    (hp : handlePubackcomp t c qos a = some (t', c')) :
    Owns t' (c'.blocks ++ (lost c (.pubackcomp qos a) ++ rest)) := by
  unfold handlePubackcomp at hp
  rw [lost]
  cases acked h hp with
  | early hheader =>
    rw [if_pos (by simp [hheader])]
    exact h
  | fails _ hheader hx howns =>
    rw [if_neg (by simp [hheader]), hx]
    split <;> exact howns
  | made t1 _ _ p hheader hne hq howns hp =>
    rw [if_neg (by simp [hheader])]
    cases hr : messageRemove c.msgsOut a.mid qos with
    | error e =>
      simp only [hr] at hp
      cases hp
      exact (hq ▸ howns).swap
    | ok y =>
      obtain ⟨m, l⟩ := y
      simp only [hr] at hp
      cases hp
      have hfree := owns_messageCleanup (owns_removedOut hr howns.swap)
      exact hfree.swap.closeAll

theorem owns_handlePubrec {a : AckIn} (h : Owns t (c.blocks ++ rest)) (hp : handlePubrec t c a = some (t', c')) :
    Owns t' (c'.blocks ++ rest) := by
  unfold handlePubrec at hp
  cases acked h hp with
  | early => exact h
  | fails _ _ _ howns => exact howns
  | made t1 _ _ p hheader hne hq howns hp =>
    have hfree : Owns (propertyFreeAll t1 p) (c.blocks ++ rest) := howns.closeAll
    dsimp only at hp
    split at hp
    · cases hp
      exact hfree
    · cases hr : messageRemove c.msgsOut a.mid 2 with
      | error e =>
        simp only [hr] at hp
        cases hp
        exact hfree
      | ok y =>
        obtain ⟨m, l⟩ := y
        simp only [hr] at hp
        cases hp
        exact owns_messageCleanup (owns_removedOut hr hfree)

theorem owns_handleSuback {a : AckIn} (h : Owns t (c.blocks ++ rest)) (hp : handleSuback t c a = some (t', c')) :
    Owns t' (c'.blocks ++ (lost c (.suback a) ++ rest)) := by
  unfold handleSuback at hp
  rw [lost]
  cases acked h hp with
  | early hheader =>
    rw [if_neg (by simp [hheader])]
    exact h
  | fails _ hheader hx howns =>
    rw [hx]
    split <;> exact howns
  | made t1 _ _ p hheader hne hq howns hp =>
    split at hp
    · rename_i hstops
      cases hp
      rw [if_pos ⟨hheader, hstops⟩]
      exact (hq ▸ howns).swap
    · rename_i hgoes
      cases hp
      rw [if_neg (fun hx => hgoes hx.2)]
      exact howns.closeAll

theorem owns_handleOther {a : AckIn} (h : Owns t (c.blocks ++ rest)) (hp : handleOther t c a = some (t', c')) :
    Owns t' (c'.blocks ++ rest) := by
  unfold handleOther at hp
  cases acked h hp with
  | early => exact h
  | fails _ _ _ howns => exact howns
  | made t1 _ _ p hheader hne hq howns hp =>
    cases hp
    exact howns.closeAll

theorem owns_messageReconnectReset (h : Owns t (c.blocks ++ rest)) :
    Owns (messageReconnectReset t c).1 ((messageReconnectReset t c).2.blocks ++ rest) := by
  have hparts : c.all.Perm (c.msgsIn.filter (·.qos ≠ 2) ++ (messageReconnectReset t c).2.all) := by
    have hin : (c.msgsIn.filter (·.qos ≠ 2) ++ c.msgsIn.filter (·.qos = 2)).Perm c.msgsIn := by
      refine List.perm_append_comm.trans ?_
      have := List.filter_append_perm (fun m : Stored => decide (m.qos = 2)) c.msgsIn
      simpa using this
    have := hin.symm.append_right (c.msgsOut ++ c.will.toList)
    rwa [List.append_assoc] at this
  refine owns_cleanupAll (h.perm ?_)
  rw [← List.append_assoc]
  refine List.Perm.append_right rest ?_
  have hblocks := (hparts.flatMap_right Stored.blocks).append_right c.packets
  rw [List.flatMap_append, List.append_assoc] at hblocks
  exact hblocks.symm

theorem owns_willSet {a : WillSet} (h : Owns t (c.blocks ++ rest)) (hw : willSet t c a = some (t', c')) :
    Owns t' (c'.blocks ++ (lost c (.setWill a) ++ rest)) := by
  simp only [willSet, Option.bind_eq_bind, Option.bind_eq_some_iff] at hw
  obtain ⟨⟨t1, p⟩, hm, hw⟩ := hw
  have hmade := makeProps_made h hm
  have hbuilt : Owns t1 (c.blocks ++ (a.built.blocks ++ rest)) := hmade.owns.swap
  split at hw
  · rename_i hchecks
    cases hw
    rw [lost, if_neg (fun hx => by simp [hx.1] at hchecks)]
    exact hbuilt
  · rename_i hchecks
    have hchecks : a.checks = true := by simpa using hchecks
    have hfree := owns_withoutWill hbuilt
    cases hmem : a.will with
    | none =>
      simp only [hmem] at hw
      cases hw
      rw [lost, if_neg (fun hx => hx.2.1 hmem)]
      exact hfree
    | some block =>
      simp only [hmem, Option.bind_eq_some_iff] at hw
      obtain ⟨t2, ho, hw⟩ := hw
      have hopen := hfree.opens ho
      split at hw
      · rename_i hcopied
        cases hw
        rw [lost, if_neg (fun hx => by simp [hx.2.2] at hcopied)]
        exact hopen.close
      · rename_i hcopied
        cases hw
        rw [lost, if_pos ⟨hchecks, by simp [hmem], by simpa using hcopied⟩]
        -- the list belongs to the will now
        refine hopen.perm ?_
        refine ((blocks_will_perm _).append_right rest).trans ?_
        simp only [Option.toList_some, List.flatMap_cons, List.flatMap_nil, Stored.blocks, List.append_nil,
          List.append_assoc,
          hmade.getD]
        exact (List.perm_append_comm_assoc a.built.blocks [block] _).trans
          (.cons block (List.perm_append_comm_assoc a.built.blocks _ rest))

theorem owns_mosquittoPublishV5 {a : PublishOut} (h : Owns t (c.blocks ++ rest))
    (hp : mosquittoPublishV5 t c a = some (t', c')) :
    Owns t' (c'.blocks ++ (lost c (.publishOut a) ++ rest)) := by
  simp only [mosquittoPublishV5, Option.bind_eq_bind, Option.bind_eq_some_iff] at hp
  obtain ⟨⟨t1, p⟩, hm, hp⟩ := hp
  have hbuilt : Owns t1 (c.blocks ++ (a.built.blocks ++ rest)) := (makeProps_made h hm).owns.swap
  rw [lost]
  split at hp
  · cases hp
    exact hbuilt
  · rw [Option.bind_eq_some_iff] at hp
    obtain ⟨⟨t2, p⟩, hc, hp⟩ := hp
    have hmade := makeProps_made hbuilt hc
    generalize a.copy = x at hmade
    cases hmade with
    | fails hmade =>
      cases hp
      exact hmade
    | @made _ _ q _ hq hmade =>
      rw [← hq] at hmade
      cases hmem : a.message with
      | none =>
        simp only [hmem] at hp
        cases hp
        exact hmade.closeAll
      | some block =>
        simp only [hmem, Option.bind_eq_some_iff] at hp
        obtain ⟨t3, ho, hp⟩ := hp
        have hopen := hmade.opens ho
        split at hp
        · cases hp
          exact (owns_messageCleanup (m := ⟨a.mid, a.qos, block, none⟩) hopen).closeAll
        · cases hp
          refine hopen.perm ?_
          refine ((blocks_out_perm append_perm).append_right _).trans ?_
          simp only [Stored.blocks, List.append_assoc]
          exact List.perm_append_comm_assoc q.toList [block] _

theorem owns_packetCleanupAll (h : Owns t (c.blocks ++ rest)) :
    Owns (packetCleanupAll t c).1 ((packetCleanupAll t c).2.blocks ++ rest) := by
  have hparts : Owns t (c.packets ++ (c.all.flatMap Stored.blocks ++ rest)) := by
    rw [Client.blocks, List.append_assoc] at h
    exact h.swap
  have hempty : (packetCleanupAll t c).2.blocks = c.all.flatMap Stored.blocks := List.append_nil _
  rw [hempty]
  exact hparts.closeAll

theorem owns_destroy (h : Owns t (c.blocks ++ rest)) : Owns (destroy t c).1 ((destroy t c).2.blocks ++ rest) := by
  refine owns_packetCleanupAll (owns_cleanupAll (l := c.all) ?_)
  rwa [Client.blocks, List.append_assoc] at h

/-- Moving on takes the current packet out of the client. -/
theorem packets_nextPacket : c.packets = c.currentOutPacket.toList ++ (nextPacket c).packets := by
  cases h : c.outPacket <;> simp [Client.packets, nextPacket, h]

theorem owns_nextPacket (h : Owns t (c.blocks ++ rest)) :
    Owns t (c.currentOutPacket.toList ++ ((nextPacket c).blocks ++ rest)) := by
  rw [Client.blocks, packets_nextPacket, List.append_assoc, List.append_assoc] at h
  have hswap := h.swap
  rw [← List.append_assoc (c.all.flatMap Stored.blocks)] at hswap
  exact hswap

theorem owns_packetWriteLoop (n : Nat) (h : Owns t (c.blocks ++ rest)) :
    Owns (packetWriteLoop t c n).1 ((packetWriteLoop t c n).2.blocks ++ rest) := by
  induction n generalizing t c with
  | zero => exact h
  | succ n ih =>
    unfold packetWriteLoop
    split
    · exact h
    · rename_i p hp
      have hnext := owns_nextPacket h
      rw [hp] at hnext
      exact ih hnext.close

theorem owns_takeNext (h : Owns t (c.blocks ++ rest)) : Owns t ((takeNext c).blocks ++ rest) := by
  unfold takeNext
  split
  · rename_i hnone
    have hnext := owns_nextPacket h
    rwa [Option.isNone_iff_eq_none.mp hnone] at hnext
  · exact h

/-- A packet goes to the end of the queue. -/
theorem owns_queued {p : Nat} (h : Owns t (p :: (c.blocks ++ rest))) :
    Owns t (({ c with outPacket := c.outPacket ++ [p] } : Client).blocks ++ rest) := by
  refine h.perm ?_
  have hblocks : ({ c with outPacket := c.outPacket ++ [p] } : Client).blocks = c.blocks ++ [p] := by
    simp [Client.blocks, Client.packets, Client.all]
  rw [hblocks, List.append_assoc]
  exact List.perm_middle

theorem owns_queuePacket {packet : Option Nat} {allocated : Bool} (h : Owns t (c.blocks ++ rest))
    (hp : queuePacket t c packet allocated = some (t', c')) : Owns t' (c'.blocks ++ rest) := by
  unfold queuePacket at hp
  split at hp
  · cases hp
    exact h
  · rename_i p
    simp only [Option.bind_eq_bind, Option.bind_eq_some_iff] at hp
    obtain ⟨t1, ho, hp⟩ := hp
    have hopen := h.opens ho
    split at hp
    · cases hp
      exact hopen.close
    · cases hp
      exact owns_queued hopen

theorem owns_handleDisconnect {a : AckIn} (h : Owns t (c.blocks ++ rest))
    (hp : handleDisconnect t c a = some (t', c')) : Owns t' (c'.blocks ++ (lost c (.disconnect a) ++ rest)) := by
  unfold handleDisconnect at hp
  rw [lost]
  cases acked h hp with
  | early hheader =>
    rw [if_neg (by simp [hheader])]
    exact h
  | fails _ hheader hx howns =>
    rw [if_neg (fun hy => hy.2 hx)]
    exact howns
  | made t1 _ _ p hheader hne hq howns hp =>
    cases hp
    rw [if_pos ⟨hheader, hne⟩]
    exact (owns_nextPacket howns.closeAll).swap

theorem owns_sendConnect {a : ConnectOut} (h : Owns t (c.blocks ++ rest))
    (hp : sendConnect t c a = some (t', c')) :
    Owns t' (c'.blocks ++ (lost c (.sendConnect a) ++ rest)) := by
  simp only [sendConnect, Option.bind_eq_bind, Option.bind_eq_some_iff] at hp
  obtain ⟨⟨t1, p⟩, hm, hp⟩ := hp
  have hmade := makeProps_made h hm
  rw [lost]
  generalize a.localProps = x at hmade
  cases hmade with
  | fails hmade =>
    cases hp
    rw [if_pos rfl]
    exact hmade
  | @made _ _ q hne hq hmade =>
    rw [if_neg hne]
    cases hpacket : a.packet with
    | none =>
      simp only [hpacket] at hp
      cases hp
      exact hmade.swap
    | some packet =>
      simp only [hpacket, Option.bind_eq_some_iff] at hp
      obtain ⟨t2, ho, hp⟩ := hp
      have hopen := hmade.opens ho
      dsimp only
      cases hpassword : a.passwordOnly with
      | true =>
        rw [if_pos hpassword] at hp
        cases hp
        exact (show Owns t' ((packet :: x.blocks) ++ (c.blocks ++ rest)) from hopen).swap
      | false =>
        rw [if_neg (by simp [hpassword])] at hp
        cases halloc : a.allocated with
        | false =>
          rw [if_pos (by simp [halloc])] at hp
          cases hp
          exact hopen.close.swap
        | true =>
          rw [if_neg (by simp [halloc])] at hp
          cases hp
          rw [← hq] at hopen
          have hfree : Owns (propertyFreeAll t2 q) (packet :: (c.blocks ++ rest)) := by
            have hswap : Owns t2 (q.toList ++ ([packet] ++ (c.blocks ++ rest))) := Owns.swap (l := [packet]) hopen
            exact hswap.closeAll
          exact owns_queued hfree

end Calls

/-! ## Runs -/

variable {s s' : State} {a : Act} {rest : List Nat}

/-- A call that may fail for want of memory. -/
theorem owns_map {x : Option (Table Nat × Client)} {l : List Nat} (hs : (x.map fun x => ⟨x.1, x.2⟩) = some s')
    (h : ∀ t c, x = some (t, c) → Owns t (c.blocks ++ l)) : Owns s'.table (s'.client.blocks ++ l) := by
  obtain ⟨⟨t, c⟩, hx, rfl⟩ := Option.map_eq_some_iff.mp hs
  exact h t c hx

/-- What a call takes is given back, or a message has it, or it is lost as `lost` says. -/
theorem step_owned (h : Owns s.table (s.client.blocks ++ rest)) (hs : step s a = some s') :
    Owns s'.table (s'.client.blocks ++ (lost s.client a ++ rest)) := by
  cases a with
  | publish a => exact owns_map hs fun _ _ => owns_handlePublish h
  | pubrel a => exact owns_map hs fun _ _ => owns_handlePubrel h
  | pubackcomp qos a => exact owns_map hs fun _ _ => owns_handlePubackcomp h
  | pubrec a => exact owns_map hs fun _ _ => owns_handlePubrec h
  | suback a => exact owns_map hs fun _ _ => owns_handleSuback h
  | other a => exact owns_map hs fun _ _ => owns_handleOther h
  | disconnect a => exact owns_map hs fun _ _ => owns_handleDisconnect h
  | queue packet allocated => exact owns_map hs fun _ _ => owns_queuePacket h
  | sendConnect a => exact owns_map hs fun _ _ => owns_sendConnect h
  | write n =>
    cases hs
    exact owns_packetWriteLoop n (owns_takeNext h)
  | cleanup =>
    cases hs
    exact owns_packetCleanupAll h
  | reset =>
    cases hs
    exact owns_messageReconnectReset h
  | setWill a => exact owns_map hs fun _ _ => owns_willSet h
  | clearWill =>
    cases hs
    exact owns_withoutWill h
  | publishOut a => exact owns_map hs fun _ _ => owns_mosquittoPublishV5 h
  | call built =>
    obtain ⟨⟨t, p⟩, hm, rfl⟩ := Option.map_eq_some_iff.mp hs
    exact (makeProps_made h hm).owns.swap
  | destroy =>
    cases hs
    exact owns_destroy h
  | others l =>
    simp only [step] at hs
    split at hs
    · rename_i hall
      cases hs
      refine ⟨h.exact, h.once, ?_, h.clean⟩
      intro b hb
      have := List.all_eq_true.mp hall b (h.exact.mem_iff.mp hb)
      simpa using this
    · cases hs

/-- What has been lost up to now. -/
def note (s : State) (a : Act) (_ : State) (l : List Nat) : List Nat := lost s.client a ++ l

def State.init (others : List Nat) : State := ⟨⟨[], others, false⟩, .new⟩

/-- In every run: each block that the client has taken and not given back is in one of its messages or packets,
    and there once, or it is one of those that have been lost; none is freed that the client does not have. -/
theorem heap_owned (others : List Nat) (as : List Act) :
    Machine.Along (Machine.recorded step note) (fun x => Owns x.1.table (x.1.client.blocks ++ x.2))
      (State.init others, []) as := by
  have hstep (x : State × List Nat) (a : Act) (y : State × List Nat) (_ : True)
      (h : Owns x.1.table (x.1.client.blocks ++ x.2)) (hst : Machine.recorded step note x a = some y) :
      Owns y.1.table (y.1.client.blocks ++ y.2) ↔ Machine.anyAct x a := by
    obtain ⟨hs, hl⟩ := Machine.recorded_some.mp hst
    refine ⟨fun _ => trivial, fun _ => ?_⟩
    rw [hl]
    exact step_owned h hs
  have h0 : Owns (State.init others).table ((State.init others).client.blocks ++ []) :=
    ⟨List.Perm.refl _, List.nodup_nil, fun _ hb => (List.not_mem_nil hb).elim, rfl⟩
  exact (Machine.along_iff_meets (J := fun _ => True) (fun _ _ _ _ _ => trivial) hstep as trivial h0).mpr
    (Machine.meets_any _ as)

/-- A PUBREL for no message: its properties are lost. -/
example : (Machine.run (Machine.recorded step note) (State.init [], []) [.pubrel ⟨true, .list 7, 1, true⟩]).map
    (fun x => (x.1.table.held, x.2)) = some ([7], [7]) := by decide

end Artemisia.Heap
