/-
  Artemisia.Wire.Writer — the packets of a connection on their way to the socket: `packet__queue` and
  `packet__write`.

  Threads call `packet__queue` and `packet__write` as they like. The first holds `out_packet_mutex` while it
  links the packet in. The second finds a socket, waits for `current_out_packet_mutex`, and holds it until it
  returns; it takes `out_packet_mutex` only to get the next packet. So a step is one packet linked in, one answer
  of `net__write` with the callback of the last byte, or one change of the current packet. `queued`, `accepted`
  and `fired` only record.

  Proved:
  - `step_flow`:        each step keeps the packets in memory as they are queued, with what has been
                        written of them.
  - `written_in_order`: so over a run: no pointer to nowhere is followed, what the socket has is a prefix of the
                        packets in their order, up to a DISCONNECT, and on_publish has fired for those of QoS 0
                        that it has whole.
  - `cleanup_fresh`:    `packet__cleanup_all` leaves nothing for the next connection.
  - `refines_run`:      over a connection the lists of packets that the client has are what is in memory.
-/
import Artemisia.Lib.LinkedQueue
import Artemisia.Lib.Machine
import Artemisia.Client.Connect

namespace Artemisia.Wire

open Artemisia.Property Artemisia.Client LinkedQueue

/-! ## Packets in memory -/

/-- What `struct mosquitto__packet` says; the payload has all of its bytes, the command byte first. -/
structure OutPacket where
  command : UInt8
  mid : UInt16
  payload : Bytes
  nonempty : payload ≠ []

def OutPacket.length (p : OutPacket) : Nat := p.payload.length

/-- A PUBLISH of QoS 0 is complete when it is written. -/
def onPublish (p : OutPacket) : Option UInt16 := if p.command &&& 0xF6 = 0x30 then some p.mid else none

def OutPacket.isDisconnect (p : OutPacket) : Bool := p.command &&& 0xF0 = 0xE0

/-- A packet in memory, with how much of it has been written. -/
structure Buffer where
  packet : OutPacket
  pos : Nat
  toProcess : Nat

/-- Where the thread stands that holds `current_out_packet_mutex`. -/
inductive WriterPc where
  /-- No thread does. -/
  | outside
  /-- It comes to `net__write`. -/
  | writing
  /-- The packet has been written. -/
  | advancing
  /-- So has a DISCONNECT: `do_client_disconnect` has closed the socket. -/
  | disconnecting
  deriving DecidableEq, Repr

structure Writer where
  heap : Heap Buffer
  /-- `out_packet` and `out_packet_last`. -/
  out : LinkedQueue.Ends
  current : Option Nat
  /-- The socket is there. -/
  sock : Bool
  /-- The threads that have found it and wait for the mutex. -/
  admitted : Nat
  pc : WriterPc
  /-- A pointer to no packet has been followed. -/
  crashed : Bool
  queued : List OutPacket
  accepted : Bytes
  fired : List UInt16

/-! ## Steps -/

inductive NetWrite where
  | accepted (n : Nat)
  | blocked
  | lost
  | failed
  deriving DecidableEq, Repr

inductive WriterEv where
  /-- `packet__queue`, with the address that the packet was allocated at. -/
  | queue (a : Nat) (p : OutPacket)
  /-- `packet__write` is called, and there is a socket. -/
  | arrive
  /-- It has the mutex; the connection is pending or not. -/
  | enter (pending : Bool)
  | write (r : NetWrite)
  | advance
  /-- The socket is closed, by whatever other code. -/
  | close

def Writer.crash (w : Writer) : Writer := { w with crashed := true }

def Writer.packetQueue (w : Writer) (a : Nat) (p : OutPacket) : Writer :=
  match push (Function.update w.heap a (some ⟨⟨p, 0, p.length⟩, none⟩)) w.out a with
  | some (heap, out) => { w with heap := heap, out := out, queued := w.queued ++ [p] }
  | none => w.crash

def Writer.next (w : Writer) : Writer :=
  match pop w.heap w.out with
  | some (current, out) => { w with current := current, out := out }
  | none => w.crash

def Writer.loop (w : Writer) : Writer := { w with pc := if w.current.isSome then .writing else .outside }

/-- `packet__write`, up to its loop. -/
def Writer.enter (pending : Bool) (w : Writer) : Writer :=
  let w := if w.current.isNone then w.next else w
  if pending then w else w.loop

/-- `n` bytes of the packet at `a` have been taken. -/
def Writer.taken (w : Writer) (a : Nat) (c : Cell Buffer) (n : Nat) : Writer :=
  let b := { c.value with pos := c.value.pos + n, toProcess := c.value.toProcess - n }
  let w := { w with
    heap := Function.update w.heap a (some { c with value := b })
    accepted := w.accepted ++ (c.value.packet.payload.drop c.value.pos).take n }
  if b.toProcess > 0 then w
  else match onPublish b.packet with
  | some mid => { w with fired := w.fired ++ [mid], pc := .advancing }
  | none => if b.packet.isDisconnect then { w with sock := false, pc := .disconnecting }
      else { w with pc := .advancing }

/-- One turn of the loop over the bytes. -/
def Writer.netWrite (w : Writer) (r : NetWrite) : Option Writer :=
  match w.current with
  | none => none
  | some a => match w.heap a with
    | none => some w.crash
    | some c => match r with
      | .accepted n => if w.sock ∧ 0 < n ∧ n ≤ c.value.toProcess then some (w.taken a c n) else none
      | _ => some { w with pc := .outside }

/-- The packet is done with: the next one becomes current, and it is freed. After a DISCONNECT `packet__write`
    returns. -/
def Writer.advance (w : Writer) : Option Writer :=
  match w.current with
  | none => none
  | some a =>
    let t := w.next
    let t := { t with heap := Function.update t.heap a none }
    match w.pc with
    | .advancing => some t.loop
    | .disconnecting => some { t with pc := .outside }
    | _ => none

def Writer.step (w : Writer) : WriterEv → Option Writer
  | .queue a p => if (w.heap a).isNone then some (w.packetQueue a p) else none
  | .arrive => if w.sock then some { w with admitted := w.admitted + 1 } else none
  | .enter pending =>
    if w.pc = .outside ∧ w.admitted > 0 then some { w.enter pending with admitted := w.admitted - 1 } else none
  | .write r => if w.pc = .writing then w.netWrite r else none
  | .advance => w.advance
  | .close => some { w with sock := false }

/-- The next packet becomes the current one in `packet__cleanup_all`, which leaves `out_packet_last` as it is. -/
def Writer.shift (w : Writer) : Writer :=
  match w.out.first with
  | none => { w with current := none }
  | some b => match w.heap b with
    | some c => { w with current := some b, out := ⟨c.next, w.out.last⟩ }
    | none => w.crash

/-- The loop of `packet__cleanup_all`, for at most `n` packets. -/
def cleanupLoop : Nat → Writer → Writer
  | 0, w => w
  | n + 1, w => match w.current with
    | none => w
    | some a => cleanupLoop n { w.shift with heap := Function.update w.shift.heap a none }

def Writer.packetCleanupAll (n : Nat) (w : Writer) : Writer :=
  cleanupLoop n (if w.out.first.isSome ∧ w.current = none then w.shift else w)

/-- A connection begins: nothing is queued, as `packet__cleanup_all` leaves it. -/
structure Fresh (w : Writer) : Prop where
  heap : ∀ a, w.heap a = none
  first : w.out.first = none
  current : w.current = none
  pc : w.pc = .outside
  sound : w.crashed = false
  records : w.queued = [] ∧ w.accepted = [] ∧ w.fired = []

/-! ## What is to be written -/

/-- The bytes of the packets, one after the other. -/
def wire (l : List OutPacket) : Bytes := l.flatMap OutPacket.payload

/-- The packets up to a DISCONNECT. -/
def throughDisconnect : List OutPacket → List OutPacket
  | [] => []
  | p :: l => if p.isDisconnect then [p] else p :: throughDisconnect l

def whole : Nat → List OutPacket → List OutPacket
  | _, [] => []
  | n, p :: l => if p.length ≤ n then p :: whole (n - p.length) l else []

/-- The last of the packets is a DISCONNECT, and the only one. -/
def Ended (l : List OutPacket) : Prop := ∃ d p, l = d ++ [p] ∧ p.isDisconnect = true ∧
  ∀ q ∈ d, q.isDisconnect = false

theorem wire_append (l l' : List OutPacket) : wire (l ++ l') = wire l ++ wire l' := List.flatMap_append

theorem wire_cons (p : OutPacket) (l : List OutPacket) : wire (p :: l) = p.payload ++ wire l := rfl

theorem throughDisconnect_append {l l' : List OutPacket} (h : ∀ p ∈ l, p.isDisconnect = false) :
    throughDisconnect (l ++ l') = l ++ throughDisconnect l' := by
  induction l with
  | nil => rfl
  | cons p l ih =>
    obtain ⟨hp, hl⟩ := List.forall_mem_cons.mp h
    rw [List.cons_append, throughDisconnect, hp, ih hl]
    rfl

theorem throughDisconnect_comesFirst (l : List OutPacket) : throughDisconnect l <+: l := by
  induction l with
  | nil => exact List.prefix_rfl
  | cons p l ih =>
    rw [throughDisconnect]
    split
    · exact List.prefix_append [p] l
    · exact (List.prefix_append_right_inj [p]).mpr ih

theorem wire_mono {l l' : List OutPacket} (h : l <+: l') : wire l <+: wire l' := by
  obtain ⟨t, rfl⟩ := h
  rw [wire_append]
  exact List.prefix_append ..

theorem OutPacket.length_pos (p : OutPacket) : 0 < p.length := List.length_pos_iff.mpr p.nonempty

theorem whole_nil (l : List OutPacket) : whole 0 l = [] := by
  cases l with
  | nil => rfl
  | cons p l => rw [whole, if_neg (Nat.not_le.mpr p.length_pos)]

theorem whole_append (k : Nat) (l l' : List OutPacket) : whole ((wire l).length + k) (l ++ l') = l ++
    whole k l' := by
  induction l with
  | nil => simp [wire]
  | cons p l ih =>
    have hlen : (wire (p :: l)).length + k = p.length + ((wire l).length + k) := by
      rw [wire_cons, List.length_append, OutPacket.length]
      omega
    rw [List.cons_append, hlen, whole, if_pos (Nat.le_add_right ..), Nat.add_sub_cancel_left, ih]
    rfl

/-! ## The packets in memory -/

/-- No DISCONNECT has been written, or it was the last and the socket is closed. -/
def Closing (w : Writer) (done : List OutPacket) (pos : Nat) : Prop :=
  (∀ p ∈ done, p.isDisconnect = false) ∨ (w.sock = false ∧ Ended done ∧ pos = 0)

/-- The packet that is being written, after those that are done and before the rest. -/
inductive AtWork (w : Writer) (done : List OutPacket) (l : List Nat) (rest : List OutPacket) :
    Option OutPacket → Prop where
  | between : w.current = none → w.pc = .outside → w.queued = done ++ rest → w.accepted = wire done →
      w.fired = done.filterMap onPublish → Closing w done 0 → AtWork w done l rest none
  | within (a : Nat) (p : OutPacket) (pos : Nat) (next : Option Nat) : w.current = some a → a ∉ l →
      w.heap a = some ⟨⟨p, pos, p.length - pos⟩, next⟩ → pos < p.length → (w.pc = .outside ∨ w.pc = .writing) →
      w.queued = done ++ p :: rest → w.accepted = wire done ++ p.payload.take pos →
      w.fired = done.filterMap onPublish → Closing w done pos → AtWork w done l rest (some p)
  | complete (a : Nat) (p : OutPacket) (next : Option Nat) : w.current = some a → a ∉ l →
      w.heap a = some ⟨⟨p, p.length, 0⟩, next⟩ →
      ((w.pc = .advancing ∧ p.isDisconnect = false) ∨ (w.pc = .disconnecting ∧ p.isDisconnect = true ∧
        w.sock = false)) →
      w.queued = done ++ p :: rest → w.accepted = wire (done ++ [p]) →
        w.fired = (done ++ [p]).filterMap onPublish →
      (∀ q ∈ done, q.isDisconnect = false) → AtWork w done l rest (some p)

/-- What is in memory: the packets of the queue, untouched, and the current one. -/
structure Holding (w : Writer) (done : List OutPacket) (cur : Option OutPacket) (l : List Nat)
    (rest : List OutPacket) :
    Prop where
  sound : w.crashed = false
  queue : LinkedQueue.Holds w.heap w.out l
  cells : l.map (fun a => (w.heap a).map Cell.value) = rest.map fun p => some ⟨p, 0, p.length⟩
  owned : ∀ a, w.heap a ≠ none → a ∈ l ∨ w.current = some a
  atWork : AtWork w done l rest cur

/-- There is a current packet or none, and these come after it. -/
def Flows (w : Writer) (cur : Option OutPacket) (rest : List OutPacket) : Prop :=
  ∃ done l, Holding w done cur l rest

def Flow (w : Writer) : Prop := ∃ cur rest, Flows w cur rest

section Steps

variable {w : Writer} {done rest : List OutPacket} {cur : Option OutPacket} {l : List Nat}

theorem Closing.of_sock {w' : Writer} {pos : Nat} (h : Closing w done pos)
    (hs : w.sock = false → w'.sock = false) :
    Closing w' done pos := h.imp id fun h => ⟨hs h.1, h.2⟩

/-- The current packet is in memory, and not in the queue. -/
theorem AtWork.cell (h : AtWork w done l rest cur) {a : Nat} (hc : w.current = some a) :
    a ∉ l ∧ ∃ p pos n next, w.heap a = some ⟨⟨p, pos, n⟩, next⟩ := by
  cases h with
  | between hn => simp [hn] at hc
  | within b p pos next hb hl hh =>
    obtain rfl : b = a := by simpa [hb] using hc
    exact ⟨hl, p, pos, _, next, hh⟩
  | complete b p next hb hl hh =>
    obtain rfl : b = a := by simpa [hb] using hc
    exact ⟨hl, p, _, _, next, hh⟩

/-- A packet is linked in at the end. -/
theorem queue_flow {a : Nat} {p : OutPacket} (hi : Holding w done cur l rest) (ha : w.heap a = none) :
    Holding (w.packetQueue a p) done cur (l ++ [a]) (rest ++ [p]) := by
  have hal : a ∉ l := fun h => by
    obtain ⟨c, hc⟩ := hi.queue.chain.cell h
    rw [ha] at hc
    cases hc
  have hframe : LinkedQueue.Holds (Function.update w.heap a (some ⟨⟨p, 0, p.length⟩, none⟩)) w.out l :=
    hi.queue.frame fun x hx => Function.update_of_ne (fun e : x = a => hal (e ▸ hx)) ..
  obtain ⟨heap, out, hpush, hq, hsame, hvalue⟩ := hframe.push hal (Function.update_self ..) rfl
  have hw : w.packetQueue a p = { w with heap := heap, out := out, queued := w.queued ++ [p] } := by
    simp only [Writer.packetQueue, hpush]
  -- what is at another address
  have hother (x : Nat) (hx : x ≠ a) : (heap x).map Cell.value = (w.heap x).map Cell.value := by
    rw [hvalue, Function.update_of_ne hx]
  have hfar (x : Nat) (hx : x ∉ l) (hxa : x ≠ a) : heap x = w.heap x := by
    rw [hsame x hx, Function.update_of_ne hxa]
  rw [hw]
  refine ⟨hi.sound, hq, ?_, fun x hx => ?_, ?_⟩
  · rw [List.map_append, List.map_append, ← hi.cells]
    congr 1
    · exact List.map_congr_left fun x hx => hother x fun e => hal (e ▸ hx)
    · simp [hvalue]
  · by_cases hxa : x = a
    · exact .inl (by simp [hxa])
    · have hne : w.heap x ≠ none := by
        intro h
        have := hother x hxa
        rw [h] at this
        exact hx (by simpa using this)
      exact (hi.owned x hne).imp (fun h => List.mem_append_left _ h) id
  · have hne {x : Nat} {c : Cell Buffer} (h : w.heap x = some c) : x ≠ a := fun e => by simp [e, ha] at h
    cases hi.atWork with
    | between hc hpc hqueued hacc hf hcl =>
      exact .between hc hpc (by rw [hqueued, List.append_assoc]) hacc hf hcl
    | within b p' pos next hc hl hh hpos hpc hqueued hacc hf hcl =>
      refine .within b p' pos next hc ?_ ((hfar b hl (hne hh)).trans hh) hpos hpc ?_ hacc hf hcl
      · simp [hl, hne hh]
      · rw [hqueued, List.append_assoc]
        rfl
    | complete b p' next hc hl hh hpc hqueued hacc hf hd =>
      refine .complete b p' next hc ?_ ((hfar b hl (hne hh)).trans hh) hpc ?_ hacc hf hd
      · simp [hl, hne hh]
      · rw [hqueued, List.append_assoc]
        rfl

/-- The next packet becomes the current one, if there is one. -/
theorem next_cases (hq : LinkedQueue.Holds w.heap w.out l)
    (hc : l.map (fun a => (w.heap a).map Cell.value) = rest.map fun p => some ⟨p, 0, p.length⟩) :
    (l = [] ∧ rest = [] ∧ w.next = { w with current := none }) ∨
      ∃ a l' p rest' next out, l = a :: l' ∧ rest = p :: rest' ∧
      w.next = { w with current := some a, out := out } ∧
        LinkedQueue.Holds w.heap out l' ∧ a ∉ l' ∧ w.heap a = some ⟨⟨p, 0, p.length⟩, next⟩ ∧
        l'.map (fun a => (w.heap a).map Cell.value) = rest'.map fun p => some ⟨p, 0, p.length⟩ := by
  cases l with
  | nil =>
    have hrest : rest = [] := by simpa using hc.symm
    exact .inl ⟨rfl, hrest, by simp only [Writer.next, hq.pop_nil]⟩
  | cons a l =>
    right
    obtain ⟨p, rest', rfl⟩ : ∃ p rest', rest = p :: rest' := by
      cases rest with
      | nil => simp at hc
      | cons p rest' => exact ⟨p, rest', rfl⟩
    rw [List.map_cons, List.map_cons, List.cons.injEq] at hc
    obtain ⟨hhead, htail⟩ := hc
    obtain ⟨⟨b, next⟩, hcell, rfl⟩ := Option.map_eq_some_iff.mp hhead
    obtain ⟨out, hpop, hout⟩ := hq.pop
    exact ⟨a, l, p, rest', next, out, rfl, rfl, by simp only [Writer.next, hpop], hout,
      (List.nodup_cons.mp hq.nodup).1, hcell, htail⟩

theorem Holding.admit (hi : Holding w done cur l rest) (k : Nat) :
    Holding { w with admitted := k } done cur l rest := by
  refine ⟨hi.sound, hi.queue, hi.cells, hi.owned, ?_⟩
  cases hi.atWork with
  | between hc hpc hqueued hacc hf hcl => exact .between hc hpc hqueued hacc hf hcl
  | within a p pos next hc hl hh hpos hpc hqueued hacc hf hcl =>
    exact .within a p pos next hc hl hh hpos hpc hqueued hacc hf hcl
  | complete a p next hc hl hh hpc hqueued hacc hf hd => exact .complete a p next hc hl hh hpc hqueued hacc hf hd

theorem close_flow (hi : Holding w done cur l rest) : Holding { w with sock := false } done cur l rest := by
  refine ⟨hi.sound, hi.queue, hi.cells, hi.owned, ?_⟩
  cases hi.atWork with
  | between hc hpc hqueued hacc hf hcl => exact .between hc hpc hqueued hacc hf (hcl.of_sock fun _ => rfl)
  | within a p pos next hc hl hh hpos hpc hqueued hacc hf hcl =>
    exact .within a p pos next hc hl hh hpos hpc hqueued hacc hf (hcl.of_sock fun _ => rfl)
  | complete a p next hc hl hh hpc hqueued hacc hf hd =>
    exact .complete a p next hc hl hh (hpc.imp id fun h => ⟨h.1, h.2.1, rfl⟩) hqueued hacc hf hd

/-- `packet__write` up to its loop takes a packet if there is none at work, and writes nothing. -/
theorem enter_flow (hi : Holding w done cur l rest) (hpc : w.pc = .outside) (pending : Bool) :
    Flows (w.enter pending) (cur.or rest.head?) (if cur = none then rest.tail else rest) := by
  -- the loop looks at the current packet, and then the thread is in it or has returned
  have hloop {t : Writer} {done rest : List OutPacket} {cur : Option OutPacket} {l : List Nat}
      (hi : Holding t done cur l rest) (hpc : t.pc = .outside) :
        Flows (if pending then t else t.loop) cur rest := by
    cases pending with
    | true => exact ⟨done, l, hi⟩
    | false =>
      refine ⟨done, l, hi.sound, hi.queue, hi.cells, hi.owned, ?_⟩
      cases hi.atWork with
      | between hc _ hqueued hacc hf hcl =>
        exact .between hc (by simp [Writer.loop, hc]) hqueued hacc hf hcl
      | within a p pos next hc hl hh hpos _ hqueued hacc hf hcl =>
        exact .within a p pos next hc hl hh hpos (.inr (by simp [Writer.loop, hc])) hqueued hacc hf hcl
      | complete a p next _ _ _ hpc' => simp [hpc] at hpc'
  cases hi.atWork with
  | between hcur _ hqueued hacc hf hcl =>
    have he : w.enter pending = if pending then w.next else w.next.loop := by simp [Writer.enter, hcur]
    rw [he, if_pos rfl]
    rcases next_cases hi.queue hi.cells with ⟨rfl, rfl, hn⟩ | ⟨a, l', p, rest', next, out, rfl, rfl, hn, hq,
        hal, hcell, hcells⟩
    · rw [hn]
      refine hloop ⟨hi.sound, hi.queue, hi.cells, fun a ha => ?_, .between rfl hpc hqueued hacc hf hcl⟩ hpc
      exact (hi.owned a ha).imp id fun h => by simp [hcur] at h
    · rw [hn]
      refine hloop (t := { w with current := some a, out := out })
        ⟨hi.sound, hq, hcells, fun x hx => ?_, .within a p 0 next rfl hal hcell p.length_pos (.inl hpc) hqueued
          ?_ hf hcl⟩ hpc
      · rcases hi.owned x hx with hx | hx
        · exact (List.mem_cons.mp hx).elim (fun h => .inr (by rw [h])) .inl
        · simp [hcur] at hx
      · rw [List.take_zero, List.append_nil]
        exact hacc
  | within a p pos next hcur =>
    have he : w.enter pending = if pending then w else w.loop := by simp [Writer.enter, hcur]
    rw [he]
    show Flows (if pending then w else w.loop) (some p) rest
    exact hloop hi hpc
  | complete a p next _ _ _ hpc' => simp [hpc] at hpc'

theorem onPublish_disconnect {p : OutPacket} {mid : UInt16} (h : onPublish p = some mid) :
    p.isDisconnect = false := by
  unfold onPublish at h
  split at h
  · rename_i hc
    have hmask : p.command &&& 0xF0 = (p.command &&& 0xF6) &&& 0xF0 := by
      rw [UInt8.and_assoc]
      rfl
    rw [OutPacket.isDisconnect, hmask, hc]
    rfl
  · cases h

/-- Some bytes are taken of the current packet, and its callback comes with the last of them. -/
theorem taken_flow (hi : Holding w done cur l rest) (hpc : w.pc = .writing) (hs : w.sock = true) {a n : Nat}
    {c : Cell Buffer}
    (hc : w.current = some a) (hh : w.heap a = some c) (hle : n ≤ c.value.toProcess) :
    Flows (w.taken a c n) cur rest := by
  cases hi.atWork with
  | between hc' => simp [hc] at hc'
  | complete _ _ _ _ _ _ hpc' => simp [hpc] at hpc'
  | within b p pos next hb hl hcell hpos _ hqueued hacc hf hcl =>
    obtain rfl : b = a := by simpa [hb] using hc
    obtain rfl : c = ⟨⟨p, pos, p.length - pos⟩, next⟩ := by
      rw [hh] at hcell
      simpa using hcell
    dsimp only at hle
    have hd : ∀ q ∈ done, q.isDisconnect = false := hcl.resolve_right fun h => by simp [hs] at h
    have hq : LinkedQueue.Holds (Function.update w.heap b (some ⟨⟨p, pos + n, p.length - pos - n⟩, next⟩))
        w.out l :=
      hi.queue.frame fun x hx => Function.update_of_ne (fun e : x = b => hl (e ▸ hx)) ..
    have hcells : l.map (fun x =>
        (Function.update w.heap b (some ⟨⟨p, pos + n, p.length - pos - n⟩, next⟩) x).map Cell.value) =
        rest.map fun p => some ⟨p, 0, p.length⟩ := by
      rw [← hi.cells]
      refine List.map_congr_left fun x hx => ?_
      rw [Function.update_of_ne (fun e : x = b => hl (e ▸ hx))]
    have howned (x : Nat) (hx : Function.update w.heap b (some ⟨⟨p, pos + n, p.length - pos - n⟩, next⟩)
        x ≠ none) :
        x ∈ l ∨ w.current = some x := by
      by_cases hxb : x = b
      · exact .inr (hxb ▸ hb)
      · rw [Function.update_of_ne hxb] at hx
        exact hi.owned x hx
    have hbytes : w.accepted ++ (p.payload.drop pos).take n = wire done ++ p.payload.take (pos + n) := by
      rw [hacc, List.append_assoc, List.take_add]
    refine ⟨done, l, ?_⟩
    unfold Writer.taken
    dsimp only
    by_cases hmore : p.length - pos - n > 0
    · rw [if_pos hmore]
      refine ⟨hi.sound, hq, hcells, howned, .within b p (pos + n) next hb hl ?_ (by omega) (.inr hpc) hqueued
        hbytes hf (.inl hd)⟩
      rw [Nat.sub_sub] at *
      exact Function.update_self ..
    · rw [if_neg hmore]
      have hend : pos + n = p.length := by omega
      have hzero : p.length - pos - n = 0 := by omega
      have hcell' : Function.update w.heap b (some ⟨⟨p, pos + n, p.length - pos - n⟩, next⟩) b =
          some ⟨⟨p, p.length, 0⟩, next⟩ := by
        rw [Function.update_self, hend, hzero]
      have hall : w.accepted ++ (p.payload.drop pos).take n = wire (done ++ [p]) := by
        rw [hbytes, hend, OutPacket.length, List.take_length, wire_append]
        simp [wire]
      split
      · rename_i mid hmid
        refine ⟨hi.sound, hq, hcells, howned,
          .complete b p next hb hl hcell' (.inl ⟨rfl, onPublish_disconnect hmid⟩)
          hqueued hall ?_ hd⟩
        rw [List.filterMap_append, ← hf]
        simp [hmid]
      · rename_i hnone
        have hfired : w.fired = (done ++ [p]).filterMap onPublish := by
          rw [List.filterMap_append, ← hf]
          simp [hnone]
        split
        · rename_i hdisc
          exact ⟨hi.sound, hq, hcells, howned, .complete b p next hb hl hcell' (.inr ⟨rfl, hdisc, rfl⟩) hqueued
            hall hfired hd⟩
        · rename_i hdisc
          exact ⟨hi.sound, hq, hcells, howned, .complete b p next hb hl hcell' (.inl ⟨rfl, by simpa using hdisc⟩)
            hqueued hall hfired hd⟩

/-- The packet that has been written makes room for the next one. -/
theorem advance_flow {w' : Writer} (hi : Holding w done cur l rest) (h : w.advance = some w') :
    Flows w' rest.head? rest.tail := by
  unfold Writer.advance at h
  cases hi.atWork with
  | between hc hpc => simp [hc] at h
  | within a p pos next hc _ _ _ hpc =>
    rcases hpc with hpc | hpc <;> simp [hc, hpc] at h
  | complete a p next hc hl hh hpc hqueued hacc hf hd =>
    have hqueued' : w.queued = (done ++ [p]) ++ rest := by
      rw [hqueued, List.append_assoc]
      rfl
    have hclosing : Closing w (done ++ [p]) 0 := by
      rcases hpc with ⟨-, hp⟩ | ⟨-, hp, hs⟩
      · exact .inl (List.forall_mem_append.mpr ⟨hd, by simpa using hp⟩)
      · exact .inr ⟨hs, ⟨done, p, rfl, hp, hd⟩, rfl⟩
    have hne {x : Nat} (hx : x ∈ l) : x ≠ a := fun e => hl (e ▸ hx)
    have hrest {x : Nat} (hx : Function.update w.heap a none x ≠ none) : x ∈ l := by
      by_cases hxa : x = a
      · rw [hxa, Function.update_self] at hx
        exact absurd rfl hx
      · rw [Function.update_of_ne hxa] at hx
        refine (hi.owned x hx).resolve_right fun hcx => hxa ?_
        rw [hc] at hcx
        exact (Option.some.inj hcx).symm
    have hnext (pc : WriterPc) (hpc' : pc = .outside ∨ pc = .writing ∧ w.next.current ≠ none) :
        Flows { w.next with heap := Function.update w.next.heap a none, pc := pc } rest.head? rest.tail := by
      rcases next_cases hi.queue hi.cells with
        ⟨rfl, rfl, hn⟩ | ⟨b, l', p', rest', next', out, rfl, rfl, hn, hq, hb, hcell, hcells⟩
      · rw [hn] at hpc' ⊢
        have hout : pc = .outside := hpc'.resolve_right fun h => h.2 rfl
        refine ⟨done ++ [p], [], hi.sound, hi.queue.frame (by simp), rfl, fun x hx => .inl (hrest hx), ?_⟩
        exact .between rfl hout hqueued' hacc hf hclosing
      · rw [hn]
        have hba : b ≠ a := hne (List.mem_cons_self ..)
        have hframe {x : Nat} (hx : x ∈ l') : Function.update w.heap a none x = w.heap x :=
          Function.update_of_ne (hne (List.mem_cons_of_mem _ hx)) ..
        refine ⟨done ++ [p], l', hi.sound, hq.frame fun x hx => hframe hx, ?_, fun x hx => ?_, ?_⟩
        · refine Eq.trans ?_ hcells
          exact List.map_congr_left fun x hx => congrArg _ (hframe hx)
        · exact (List.mem_cons.mp (hrest hx)).elim (fun h => .inr (by rw [h])) .inl
        · refine .within b p' 0 next' rfl hb ?_ p'.length_pos (hpc'.imp id fun h => h.1) hqueued' ?_ hf hclosing
          · exact (Function.update_of_ne hba ..).trans hcell
          · rw [List.take_zero, List.append_nil]
            exact hacc
    simp only [hc] at h
    rcases hpc with ⟨hpc, -⟩ | ⟨hpc, -, -⟩
    · simp only [hpc, Option.some.injEq] at h
      rw [← h]
      refine hnext _ ?_
      split
      · rename_i hsome
        exact .inr ⟨rfl, by simpa [Option.isSome_iff_ne_none] using hsome⟩
      · exact .inl rfl
    · simp only [hpc, Option.some.injEq] at h
      rw [← h]
      exact hnext .outside (.inl rfl)

/-- A write that takes nothing leaves everything where it is, and `packet__write` returns. -/
theorem refused_flow (hi : Holding w done cur l rest) (hpc : w.pc = .writing) :
    Flows { w with pc := .outside } cur rest := by
  refine ⟨done, l, hi.sound, hi.queue, hi.cells, hi.owned, ?_⟩
  cases hi.atWork with
  | between hc hpc' => simp [hpc] at hpc'
  | within a p pos next hc hl hh hpos _ hqueued hacc hf hcl =>
    exact .within a p pos next hc hl hh hpos (.inl rfl) hqueued hacc hf hcl
  | complete a p next _ _ _ hpc' => simp [hpc] at hpc'

theorem write_flow {w' : Writer} {r : NetWrite} (hi : Holding w done cur l rest) (hpc : w.pc = .writing)
    (h : w.netWrite r = some w') : Flows w' cur rest := by
  unfold Writer.netWrite at h
  split at h
  · cases h
  · rename_i a hc
    obtain ⟨-, p, pos, n, next, hcell⟩ := hi.atWork.cell hc
    rw [hcell] at h
    dsimp only at h
    cases r with
    | accepted n =>
      simp only at h
      split at h
      · rename_i hok
        cases h
        exact taken_flow hi hpc hok.1 hc hcell hok.2.2
      · cases h
    | _ =>
      cases h
      exact refused_flow hi hpc

theorem step_flow {w' : Writer} {e : WriterEv} (hi : Flow w) (h : w.step e = some w') : Flow w' := by
  obtain ⟨cur, rest, done, l, hi⟩ := hi
  cases e with
  | queue a p =>
    simp only [Writer.step] at h
    split at h
    · rename_i ha
      cases h
      exact ⟨_, _, _, _, queue_flow hi (Option.isNone_iff_eq_none.mp ha)⟩
    · cases h
  | arrive =>
    simp only [Writer.step] at h
    split at h
    · cases h
      exact ⟨cur, rest, done, l, hi.admit _⟩
    · cases h
  | enter pending =>
    simp only [Writer.step] at h
    split at h
    · rename_i hpc
      cases h
      obtain ⟨done', l', hi'⟩ := enter_flow hi hpc.1 pending
      exact ⟨_, _, done', l', hi'.admit _⟩
    · cases h
  | write r =>
    simp only [Writer.step] at h
    split at h
    · rename_i hpc
      exact ⟨_, _, write_flow hi hpc h⟩
    · cases h
  | advance => exact ⟨_, _, advance_flow hi h⟩
  | close =>
    cases h
    exact ⟨cur, rest, done, l, close_flow hi⟩

end Steps

/-! ## Runs -/

/-- The bytes that the socket has taken are those of the packets in their order, up to the first DISCONNECT; and
    on_publish has fired for the packets of QoS 0 that it has taken whole, in their order, and for no others. -/
structure InOrder (w : Writer) : Prop where
  sound : w.crashed = false
  bytes : w.accepted <+: wire w.queued
  ended : w.accepted <+: wire (throughDisconnect w.queued)
  fired : w.fired = (whole w.accepted.length w.queued).filterMap onPublish

theorem Flow.inOrder {w : Writer} (h : Flow w) : InOrder w := by
  obtain ⟨cur, rest, done, l, hi⟩ := h
  have horder (hb : w.accepted <+: wire (throughDisconnect w.queued))
      (hf : w.fired = (whole w.accepted.length w.queued).filterMap onPublish) : InOrder w :=
    ⟨hi.sound, hb.trans (wire_mono (throughDisconnect_comesFirst _)), hb, hf⟩
  have hended {p : OutPacket} {d l' : List OutPacket} (hp : p.isDisconnect = true)
      (hd : ∀ q ∈ d, q.isDisconnect = false) :
      wire (d ++ [p]) <+: wire (throughDisconnect (d ++ [p] ++ l')) := by
    have he : throughDisconnect (d ++ [p] ++ l') = d ++ [p] := by
      rw [List.append_assoc, throughDisconnect_append hd, List.cons_append, throughDisconnect, if_pos hp]
    exact he.symm ▸ List.prefix_rfl
  cases hi.atWork with
  | between hc hpc hqueued hacc hf hcl =>
    refine horder ?_ ?_
    · rw [hqueued, hacc]
      rcases hcl with hd | ⟨-, ⟨d, p, rfl, hp, hd⟩, -⟩
      · rw [throughDisconnect_append hd, wire_append]
        exact List.prefix_append ..
      · exact hended hp hd
    · have hw := whole_append 0 done rest
      rw [Nat.add_zero, whole_nil, List.append_nil] at hw
      rw [hacc, hqueued, hw]
      exact hf
  | within a p pos next hc hl hh hpos hpc hqueued hacc hf hcl =>
    have htake : (p.payload.take pos).length = pos := List.length_take_of_le hpos.le
    refine horder ?_ ?_
    · rw [hqueued, hacc]
      rcases hcl with hd | ⟨-, ⟨d, q, rfl, hq, hd⟩, rfl⟩
      · have hpre : p.payload.take pos <+: wire (throughDisconnect (p :: rest)) := by
          rw [throughDisconnect]
          split
          · exact (List.take_prefix ..).trans (by simp [wire])
          · exact (List.take_prefix ..).trans (List.prefix_append ..)
        rw [throughDisconnect_append hd, wire_append]
        exact (List.prefix_append_right_inj _).mpr hpre
      · rw [List.take_zero, List.append_nil]
        exact hended hq hd
    · have hw := whole_append pos done (p :: rest)
      rw [whole, if_neg (Nat.not_le.mpr hpos), List.append_nil] at hw
      rw [hacc, hqueued, List.length_append, htake, hw]
      exact hf
  | complete a p next hc hl hh hpc hqueued hacc hf hd =>
    have hqueued' : w.queued = (done ++ [p]) ++ rest := by
      rw [hqueued, List.append_assoc]
      rfl
    refine horder ?_ ?_
    · rw [hqueued', hacc]
      by_cases hp : p.isDisconnect = true
      · exact hended hp hd
      · rw [throughDisconnect_append (List.forall_mem_append.mpr ⟨hd, by simpa using hp⟩),
          wire_append (done ++ [p])]
        exact List.prefix_append ..
    · have hw := whole_append 0 (done ++ [p]) rest
      rw [Nat.add_zero, whole_nil, List.append_nil] at hw
      rw [hacc, hqueued', hw]
      exact hf

theorem Fresh.flows {w : Writer} (h : Fresh w) : Flows w none [] := by
  obtain ⟨hq, ha, hf⟩ := h.records
  refine ⟨[], [], h.sound, ⟨h.first, List.nodup_nil, by simp⟩, rfl, fun a hne => absurd (h.heap a) hne, ?_⟩
  exact .between h.current h.pc hq ha hf (.inl (by simp))

theorem fresh_flow {w : Writer} (h : Fresh w) : Flow w := ⟨none, [], h.flows⟩

/-- Whatever the threads do on a connection. -/
theorem written_in_order {w : Writer} (h : Machine.Reach Writer.step Fresh Machine.anyAct w) : InOrder w :=
  (h.inv (fun _ => fresh_flow) (fun _ _ _ hi _ hs => step_flow hi hs)).inOrder

/-- The socket is open, and `out_packet_last` is left from the connection before. -/
def freshWriter : Writer :=
  ⟨fun _ => none, ⟨none, some 9⟩, none, true, 0, .outside, false, [], [], []⟩

/-- A PUBLISH is taken in two pieces while a DISCONNECT is queued, and a PINGREQ comes too late. -/
def inTwoPieces : List WriterEv := [.queue 9 ⟨0x30, 5, [0x30, 0x03, 0x00, 0x01, 0x74], by decide⟩, .arrive,
  .enter false,
  .write (.accepted 2), .queue 4 ⟨0xE0, 0, [0xE0, 0x00], by decide⟩, .write .blocked, .arrive, .arrive,
    .enter false,
  .write (.accepted 3), .advance, .queue 9 ⟨0xC0, 0, [0xC0, 0x00], by decide⟩, .write (.accepted 2), .advance,
    .enter false,
  .write .failed]

theorem written_in_order_inTwoPieces : ∃ w, InOrder w ∧
    (w.accepted, w.fired, w.queued.length) = ([0x30, 0x03, 0x00, 0x01, 0x74, 0xE0, 0x00], [5], 3) := by
  have hr : (Machine.run Writer.step freshWriter inTwoPieces).map
      (fun w => (w.accepted, w.fired, w.queued.length)) =
      some ([0x30, 0x03, 0x00, 0x01, 0x74, 0xE0, 0x00], [5], 3) := by decide
  have hf : Fresh freshWriter := ⟨fun _ => rfl, rfl, rfl, rfl, rfl, rfl, rfl, rfl⟩
  obtain ⟨w, hw, hd⟩ := Machine.reach_of_map_any Fresh hf hr
  exact ⟨w, written_in_order hw, hd⟩

/-! ## The lists of the client -/

/-- The current packet and the queue of the client, as they lie in memory. -/
def Refines (enc : Packet → OutPacket) (w : Writer) (m : Mosq) : Prop :=
  Flows w (m.currentOutPacket.map enc) (m.outPacket.map enc)

section Refinement

variable {enc : Packet → OutPacket} {w : Writer} {m : Mosq}

theorem Refines.queue {a : Nat} {p : Packet} (h : Refines enc w m) (ha : w.heap a = none) :
    Refines enc (w.packetQueue a (enc p)) (packetQueue m p) := by
  obtain ⟨done, l, hi⟩ := h
  refine ⟨done, l ++ [a], ?_⟩
  show Holding _ done _ _ ((m.outPacket ++ [p]).map enc)
  rw [List.map_append]
  exact queue_flow hi ha

theorem Refines.enter (h : Refines enc w m) (hpc : w.pc = .outside) (pending : Bool) :
    Refines enc (w.enter pending) (takeNext m) := by
  obtain ⟨done, l, hi⟩ := h
  have ht := enter_flow hi hpc pending
  unfold Refines takeNext
  cases hc : m.currentOutPacket with
  | none =>
    rw [hc] at ht
    simpa [nextPacket, List.map_tail] using ht
  | some p =>
    rw [hc] at ht
    simpa [hc] using ht

/-- The bytes do not show in the client. -/
theorem Refines.netWrite {w' : Writer} {r : NetWrite} (h : Refines enc w m) (hpc : w.pc = .writing)
    (hw : w.netWrite r = some w') : Refines enc w' m := by
  obtain ⟨done, l, hi⟩ := h
  exact write_flow hi hpc hw

theorem Refines.advance {w' : Writer} (h : Refines enc w m) (hw : w.advance = some w') :
    Refines enc w' (nextPacket m) := by
  obtain ⟨done, l, hi⟩ := h
  have ht := advance_flow hi hw
  unfold Refines nextPacket
  rw [← List.head?_map, List.map_tail]
  exact ht

theorem Fresh.refines (h : Fresh w) (enc : Packet → OutPacket) (m : Mosq) :
    Refines enc w (packetCleanupAll m) := h.flows

/-- A step of the writer, where it is a packet of the client that is queued. -/
inductive ClientEv where
  | queue (a : Nat) (p : Packet)
  | arrive
  | enter (pending : Bool)
  | write (r : NetWrite)
  | advance
  | close

def ClientEv.ev (enc : Packet → OutPacket) : ClientEv → WriterEv
  | .queue a p => .queue a (enc p)
  | .arrive => .arrive
  | .enter pending => .enter pending
  | .write r => .write r
  | .advance => .advance
  | .close => .close

def listed (_ : Writer) (e : ClientEv) (_ : Writer) (m : Mosq) : Mosq :=
  match e with
  | .queue _ p => packetQueue m p
  | .enter _ => takeNext m
  | .advance => nextPacket m
  | .arrive | .write _ | .close => m

def besideStep (enc : Packet → OutPacket) : Writer × Mosq → ClientEv → Option (Writer × Mosq) :=
  Machine.recorded (fun w e => w.step (e.ev enc)) listed

theorem refines_step {x y : Writer × Mosq} {e : ClientEv} (h : Refines enc x.1 x.2)
    (hs : besideStep enc x e = some y) :
    Refines enc y.1 y.2 := by
  obtain ⟨hw, hm⟩ := Machine.recorded_some.mp hs
  rw [hm]
  cases e with
  | queue a p =>
    simp only [ClientEv.ev, Writer.step, Option.ite_none_right_eq_some, Option.some.injEq] at hw
    rw [← hw.2]
    exact h.queue (Option.isNone_iff_eq_none.mp hw.1)
  | arrive =>
    simp only [ClientEv.ev, Writer.step, Option.ite_none_right_eq_some, Option.some.injEq] at hw
    rw [← hw.2]
    obtain ⟨done, l, hi⟩ := h
    exact ⟨done, l, hi.admit _⟩
  | enter pending =>
    simp only [ClientEv.ev, Writer.step, Option.ite_none_right_eq_some, Option.some.injEq] at hw
    rw [← hw.2]
    obtain ⟨done, l, hi⟩ := h.enter hw.1.1 pending
    exact ⟨done, l, hi.admit _⟩
  | write r =>
    simp only [ClientEv.ev, Writer.step, Option.ite_none_right_eq_some] at hw
    exact h.netWrite hw.1 hw.2
  | advance => exact h.advance hw
  | close =>
    rw [← Option.some.inj hw]
    obtain ⟨done, l, hi⟩ := h
    exact ⟨done, l, close_flow hi⟩

/-- Over a connection the lists of packets that the client has are what is in memory. -/
theorem refines_run {x : Writer × Mosq} (h : Machine.Reach (besideStep enc)
    (fun x => Fresh x.1 ∧ ∃ m, x.2 = packetCleanupAll m) Machine.anyAct x) : Refines enc x.1 x.2 := by
  refine h.inv ?_ fun _ _ _ hi _ hs => refines_step hi hs
  rintro ⟨w, _⟩ ⟨hw, m, rfl⟩
  exact hw.refines enc m

end Refinement

/-! ## The next connection -/

theorem cleanupLoop_frees {n : Nat} {w : Writer} {l : List Nat} (hn : l.length ≤ n) (hs : w.crashed = false)
    (hc : w.current = l.head?) (hl : Chain w.heap w.out.first l.tail) (hd : l.Nodup)
    (ho : ∀ a, w.heap a ≠ none → a ∈ l) :
    let t := cleanupLoop n w
    t.crashed = false ∧ (∀ a, t.heap a = none) ∧ t.out.first = none ∧ t.current = none ∧ t.pc = w.pc := by
  induction n generalizing w l with
  | zero =>
    obtain rfl : l = [] := List.length_eq_zero_iff.mp (by omega)
    exact ⟨hs, fun a => by_contra fun h => by simpa using ho a h, hl, hc, rfl⟩
  | succ n ih =>
    cases l with
    | nil =>
      have hcur : w.current = none := hc
      have he : cleanupLoop (n + 1) w = w := by simp only [cleanupLoop, hcur]
      rw [he]
      exact ⟨hs, fun a => by_contra fun h => by simpa using ho a h, hl, hcur, rfl⟩
    | cons a l =>
      have hcur : w.current = some a := hc
      obtain ⟨hal, hd'⟩ := List.nodup_cons.mp hd
      have hframe (x : Nat) (hx : x ∈ l) : Function.update w.heap a none x = w.heap x :=
        Function.update_of_ne (fun e : x = a => hal (e ▸ hx)) ..
      have howned (x : Nat) (hx : Function.update w.heap a none x ≠ none) : x ∈ l := by
        by_cases hxa : x = a
        · rw [hxa, Function.update_self] at hx
          exact absurd rfl hx
        · rw [Function.update_of_ne hxa] at hx
          exact (List.mem_cons.mp (ho x hx)).resolve_left hxa
      simp only [cleanupLoop, hcur]
      rw [List.length_cons] at hn
      cases l with
      | nil =>
        have hfirst : w.out.first = none := hl
        have hw : w.shift = { w with current := none } := by simp only [Writer.shift, hfirst]
        rw [hw]
        exact @ih { w with current := none, heap := Function.update w.heap a none } [] (by omega) hs rfl hfirst
          List.nodup_nil howned
      | cons b l =>
        obtain ⟨hfirst, c, hb, htail⟩ := hl
        have hw : w.shift = { w with current := some b, out := ⟨c.next, w.out.last⟩ } := by
          simp only [Writer.shift, hfirst, hb]
        rw [hw]
        exact @ih { w with current := some b, out := ⟨c.next, w.out.last⟩,
                           heap := Function.update w.heap a none } (b :: l)
          (by omega) hs rfl (htail.frame fun x hx => hframe x (List.mem_cons_of_mem _ hx)) hd' howned

/-- The packets of a connection, the current one first. -/
theorem Holding.chain {w : Writer} {done rest : List OutPacket} {cur : Option OutPacket} {l : List Nat}
    (hi : Holding w done cur l rest) :
    (w.current.toList ++ l).Nodup := by
  cases hc : w.current with
  | none => exact hi.queue.nodup
  | some a => exact List.nodup_cons.mpr ⟨(hi.atWork.cell hc).1, hi.queue.nodup⟩

/-- Whatever has been going on, `packet__cleanup_all` leaves nothing in memory and no packet for the next
    connection. -/
theorem cleanup_fresh {w : Writer} (h : Machine.Reach Writer.step Fresh Machine.anyAct w)
    (hpc : w.pc = .outside) :
    ∃ k, ∀ n ≥ k, ∀ sock admitted, Fresh { w.packetCleanupAll n with
      sock := sock, admitted := admitted, queued := [], accepted := [], fired := [] } := by
  obtain ⟨cur, rest, done, l, hi⟩ : Flow w := h.inv (fun _ => fresh_flow) (fun _ _ _ hi _ hs => step_flow hi hs)
  have hnodup := hi.chain
  refine ⟨l.length + 1, fun n hn sock admitted => ?_⟩
  have hfrees : let t := w.packetCleanupAll n
      t.crashed = false ∧ (∀ a, t.heap a = none) ∧ t.out.first = none ∧ t.current = none ∧ t.pc = w.pc := by
    unfold Writer.packetCleanupAll
    cases hc : w.current with
    | some a =>
      rw [if_neg (by simp)]
      rw [hc] at hnodup
      refine cleanupLoop_frees (l := a :: l) (by simpa using hn) hi.sound hc hi.queue.chain hnodup fun x hx => ?_
      rcases hi.owned x hx with hx | hx
      · exact List.mem_cons_of_mem _ hx
      · rw [hc, Option.some.injEq] at hx
        exact hx ▸ List.mem_cons_self ..
    | none =>
      have howned (x : Nat) (hx : w.heap x ≠ none) : x ∈ l := (hi.owned x hx).resolve_right (by simp [hc])
      cases l with
      | nil =>
        have hfirst : w.out.first = none := hi.queue.chain
        rw [if_neg (by simp [hfirst])]
        exact cleanupLoop_frees (l := []) (Nat.zero_le n) hi.sound hc hfirst List.nodup_nil howned
      | cons b l =>
        obtain ⟨hfirst, c, hb, htail⟩ := hi.queue.chain
        have hw : w.shift = { w with current := some b, out := ⟨c.next, w.out.last⟩ } := by
          simp only [Writer.shift, hfirst, hb]
        rw [if_pos (by simp [hfirst]), hw]
        exact @cleanupLoop_frees n { w with current := some b, out := ⟨c.next, w.out.last⟩ } (b :: l)
          (by omega) hi.sound rfl
          htail hi.queue.nodup howned
  obtain ⟨hs, hheap, hfirst, hcur, hp⟩ := hfrees
  exact ⟨hheap, hfirst, hcur, hp.trans hpc, hs, rfl, rfl, rfl⟩

end Artemisia.Wire
