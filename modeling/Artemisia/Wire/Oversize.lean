/-
  Artemisia.Wire.Oversize — the server's Maximum Packet Size: what `packet__check_oversize` compares with it, and
  how long the packets are that are sent.

  The check forgets the byte of the fixed header. The calls that subscribe and unsubscribe also estimate the
  packet without the length of its properties.

  The lengths and their sums are natural numbers here. In the source they have 32 bits:
  `property__get_length_all` is an `int`, which wraps where the properties of a call come to 2 GiB, and
  `remaining_length` and what `packet__check_oversize` compares are of type `uint32_t`, which wraps at 4 GiB.

  Proved:
  - `publish_size`, `filters_size`: the packet fits exactly when the check leaves room for what it forgets.
  - `oversize_iff`:                 so for every PUBLISH, SUBSCRIBE and UNSUBSCRIBE that is queued.
-/
import Artemisia.Client.Subscribe
import Artemisia.Threads.Outflow
import Artemisia.Wire.Publish

namespace Artemisia.Wire

open Artemisia.Property Artemisia.Client

/-! ## The packets of the filters -/

/-- The packet that `send__subscribe` and `send__unsubscribe` build, with `after` behind each topic. -/
def filterPacket (m : Mosq) (command : UInt8) (mid : UInt16) (topics : List Bytes) (after : Bytes)
    (properties : List MosquittoProperty) : Except Rc OutBuffer := do
  let packet ← allocBuffer command (filterLength m after.length topics properties)
  let packet := packet.write (writeUint16 mid)
  let packet := if m.protocol = .mqtt5 then packet.write (writeAll properties true).1 else packet
  .ok (topics.foldl (fun packet topic => (packet.write (writeString topic)).write after) packet)

def subscribePacket (m : Mosq) (mid : UInt16) (topics : List Bytes) (topicQos : UInt8)
    (properties : List MosquittoProperty) : Except Rc OutBuffer :=
  filterPacket m 0x82 mid topics [topicQos] properties

def unsubscribePacket (m : Mosq) (mid : UInt16) (topics : List Bytes) (properties : List MosquittoProperty) :
    Except Rc OutBuffer :=
  filterPacket m 0xA2 mid topics [] properties

/-! ## What is compared, and what is forgotten -/

/-- What `packet__check_oversize` compares with the limit. -/
def checkedSize (remainingLength : Nat) : Nat := remainingLength + varintBytes remainingLength

/-- What the check leaves of the limit. -/
def room (m : Mosq) (remainingLength : Nat) : Nat := m.maximumPacketSize - checkedSize remainingLength

/-- The bytes of a packet for topics that the estimate does not count: the byte of the fixed header, and
    in version 5 the length of the properties, with what it adds to the remaining length. -/
def forgotten (m : Mosq) (extra : Nat) (topics : List Bytes) (properties : List MosquittoProperty) : Nat :=
  1 + if m.protocol = .mqtt5 then varintBytes (getLengthAll properties) +
      (varintBytes (filterLength m extra topics properties) - varintBytes
        (estimatedLength extra topics properties))
    else 0

theorem varintBytes_mono {a b : Nat} (h : a ≤ b) : varintBytes a ≤ varintBytes b := by
  simp only [varintBytes]
  split_ifs <;> omega

theorem checkedSize_le {m : Mosq} {r : Nat} (hM : 0 < m.maximumPacketSize) (h : checkOversize m r = .success) :
    checkedSize r ≤ m.maximumPacketSize := by
  unfold checkOversize at h
  split at h
  · omega
  · split at h
    · cases h
    · rename_i hle
      exact not_lt.mp hle

theorem packetLength_alloc {command : UInt8} {r : Nat} {b : OutBuffer} (hr : r < 268435456)
    (h : allocBuffer command r = .ok b) : b.packetLength = checkedSize r + 1 := by
  rw [allocBuffer_of_lt hr, Except.ok.injEq] at h
  rw [← h]
  show r + 1 + (varintDigits 5 r).length = _
  rw [length_varintDigits hr, checkedSize]
  omega

section Sizes

variable {m : Mosq}

/-- A PUBLISH that passes the check. -/
theorem publish_size {msg : Message} (hM : 0 < m.maximumPacketSize) (h : Sendable m msg) :
    ∃ packet, realPublish m msg = .ok packet ∧
      (packet.packetLength ≤ m.maximumPacketSize ↔ 1 ≤ room m (publishLength m msg).1) := by
  obtain ⟨ho, hr⟩ := h
  have hle := checkedSize_le hM ho
  have halloc : allocBuffer (publishCommand msg.dup msg.qos msg.retain) (publishLength m msg).1 = _ :=
    allocBuffer_of_lt hr
  have hsize := packetLength_alloc hr halloc
  have hpacket : ∃ packet, realPublish m msg = .ok packet ∧
      packet.packetLength = checkedSize (publishLength m msg).1 + 1 := by
    unfold realPublish
    simp only [halloc, bind, Except.bind]
    refine ⟨_, rfl, ?_⟩
    rw [← hsize]
    split_ifs <;> rfl
  obtain ⟨packet, hp, hl⟩ := hpacket
  refine ⟨packet, hp, ?_⟩
  rw [hl, room]
  omega

theorem foldl_packetLength (topics : List Bytes) (after : Bytes) (b : OutBuffer) :
    (topics.foldl (fun packet topic => (packet.write (writeString topic)).write after) b).packetLength =
    b.packetLength := by
  induction topics generalizing b with
  | nil => rfl
  | cons topic topics ih => exact (ih _).trans rfl

/-- The packet is longer than the estimate by what is forgotten. -/
theorem filterLength_eq {extra : Nat} {topics : List Bytes} {properties : List MosquittoProperty}
    (h3 : m.protocol ≠ .mqtt5 → properties = []) : checkedSize (filterLength m extra topics properties) + 1 =
      checkedSize (estimatedLength extra topics properties) + forgotten m extra topics properties := by
  unfold checkedSize forgotten
  by_cases h5 : m.protocol = .mqtt5
  · have hlen : filterLength m extra topics properties =
        estimatedLength extra topics properties + varintBytes (getLengthAll properties) := by
      simp only [filterLength, estimatedLength, h5, if_true]
      omega
    have hmono := varintBytes_mono (Nat.le.intro hlen.symm)
    rw [if_pos h5]
    omega
  · have hlen : filterLength m extra topics properties = estimatedLength extra topics properties := by
      have h0 : getLengthAll ([] : List MosquittoProperty) = 0 := rfl
      simp only [filterLength, estimatedLength, h5, if_false, h3 h5, h0]
      omega
    rw [if_neg h5, hlen]

/-- A packet for topics that passes the check of its estimate. -/
theorem filters_size (command : UInt8) (mid : UInt16) (after : Bytes) {topics : List Bytes}
    {properties : List MosquittoProperty} (hM : 0 < m.maximumPacketSize)
    (h3 : m.protocol ≠ .mqtt5 → properties = [])
    (ho : checkOversize m (estimatedLength after.length topics properties) = .success)
    (hr : filterLength m after.length topics properties < 268435456) :
    ∃ packet, filterPacket m command mid topics after properties = .ok packet ∧
      (packet.packetLength ≤ m.maximumPacketSize ↔
        forgotten m after.length topics properties ≤
        room m (estimatedLength after.length topics properties)) := by
  have hle := checkedSize_le hM ho
  have halloc : allocBuffer command (filterLength m after.length topics properties) = _ := allocBuffer_of_lt hr
  have hsize := packetLength_alloc hr halloc
  have hpacket : ∃ packet, filterPacket m command mid topics after properties = .ok packet ∧
      packet.packetLength = checkedSize (filterLength m after.length topics properties) + 1 := by
    unfold filterPacket
    simp only [halloc, bind, Except.bind]
    refine ⟨_, rfl, ?_⟩
    rw [foldl_packetLength, ← hsize]
    split_ifs <;> rfl
  obtain ⟨packet, hp, hl⟩ := hpacket
  refine ⟨packet, hp, ?_⟩
  rw [hl, filterLength_eq h3, room]
  omega

end Sizes

/-! ## Every packet that is queued -/

/-- For a client that knows a limit: in every step of the two threads the PUBLISHes queued are those listed,
    and each of them is within the limit exactly when the check of its own length leaves room for one byte. A
    SUBSCRIBE and an UNSUBSCRIBE that is queued is within it exactly when the check of its estimate leaves room
    for what that forgets. -/
theorem oversize_iff {m : Mosq} (hM : 0 < m.maximumPacketSize) :
    (∀ (s s' : Threads.Sys) (b : Threads.Act), s.m = m → Threads.step s b = some s' →
      s'.m.outflow.pubs = (publishesOf (Threads.handed s b)).reverse ++ m.outflow.pubs ∧
        ∀ x ∈ Threads.handed s b, x.2.isPublish = true → ∃ packet, realPublish m x.1 = .ok packet ∧
          (packet.packetLength ≤ m.maximumPacketSize ↔ 1 ≤ room m (publishLength m x.1).1)) ∧
    (∀ (alloc : Alloc) (a : SubscribeArgs), (mosquittoSubscribeMultiple alloc m a).1.trace ≠ m.trace →
      let topics := a.topics.map CString.bytes
      ∃ mid packet, (mosquittoSubscribeMultiple alloc m a).1.trace =
          .queued m.sock (.subscribe mid topics (topicQos m a) a.outgoing) :: m.trace ∧
        subscribePacket m mid topics (topicQos m a) a.outgoing = .ok packet ∧
        (packet.packetLength ≤ m.maximumPacketSize ↔
          forgotten m 1 topics a.outgoing ≤ room m (estimatedLength 1 topics a.outgoing))) ∧
    (∀ (alloc : Alloc) (a : UnsubscribeArgs), (mosquittoUnsubscribeMultiple alloc m a).1.trace ≠ m.trace →
      let topics := a.topics.map CString.bytes
      ∃ mid packet, (mosquittoUnsubscribeMultiple alloc m a).1.trace =
          .queued m.sock (.unsubscribe mid topics a.outgoing) :: m.trace ∧
        unsubscribePacket m mid topics a.outgoing = .ok packet ∧
        (packet.packetLength ≤ m.maximumPacketSize ↔
          forgotten m 0 topics a.outgoing ≤ room m (estimatedLength 0 topics a.outgoing))) := by
  refine ⟨fun s s' b hm hs => ?_, fun alloc a ht => ?_, fun alloc a ht => ?_⟩
  · subst hm
    refine ⟨congrArg Outflow.pubs (Threads.step_outflow (Threads.step_moves hs)), fun x hx hpub => ?_⟩
    exact publish_size hM (Threads.handed_sendable hx hpub)
  · rcases subscribe_cases alloc m a with ⟨hc, hr, h⟩ | ⟨rc, -, h⟩
    · obtain ⟨h3, ho⟩ := subscribeChecks_ok hc
      obtain ⟨packet, hp, hiff⟩ := filters_size 0x82 (midGenerate m).2 [topicQos m a] hM h3 (ho hM) hr
      exact ⟨_, packet, by rw [h]; rfl, hp, hiff⟩
    · rw [h] at ht
      exact absurd rfl ht
  · rcases unsubscribe_cases alloc m a with ⟨hc, hr, h⟩ | ⟨rc, -, h⟩
    · obtain ⟨h3, ho⟩ := unsubscribeChecks_ok hc
      obtain ⟨packet, hp, hiff⟩ := filters_size 0xA2 (midGenerate m).2 [] hM h3 (ho hM) hr
      exact ⟨_, packet, by rw [h]; rfl, hp, hiff⟩
    · rw [h] at ht
      exact absurd rfl ht

/-- A subscription to one topic of one letter, in a client that knows the limit. -/
def shortSubscription : SubscribeArgs := ⟨[CString.of [116]], 0, 0, [], true⟩

def limited (n : Nat) : Mosq := { upClient .mqtt5 with maximumPacketSize := n }

/-- With a limit of 9 the check of 7 bytes leaves the two that it forgets. -/
theorem oversize_iff_nine : ∃ mid packet,
    (mosquittoSubscribeMultiple (fun _ => true) (limited 9) shortSubscription).1.trace =
      [.queued (some 0) (.subscribe mid [[116]] 0 [])] ∧
    subscribePacket (limited 9) mid [[116]] 0 [] = .ok packet ∧ (packet.packetLength ≤ 9 ↔ 2 ≤ 9 - 7) := by
  have hsent : (mosquittoSubscribeMultiple (fun _ => true) (limited 9) shortSubscription).1.trace.length =
      1 := by decide
  have h9 : 0 < (limited 9).maximumPacketSize := by decide
  refine (oversize_iff h9).2.1 (fun _ => true) shortSubscription (fun h => ?_)
  rw [h] at hsent
  cases hsent

/-- The application publishes at QoS 0, on a topic of one letter and without a payload. -/
def publishesShort : Threads.Act :=
  .publish RecEnv.good.alloc
    { topic := some (.of [116]), payload := [], qos := 0, retain := false, properties := [],
      clientGenerated := false }

/-- With a limit of 5 a PUBLISH of 6 bytes is queued. -/
theorem limit_exceeded : ¬ ∀ (s s' : Threads.Sys) (b : Threads.Act),
    Machine.Reach Threads.step Threads.IsInit Machine.anyAct s → Threads.step s b = some s' →
    0 < s.m.maximumPacketSize →
      ∀ x ∈ Threads.handed s b, x.2.isPublish = true →
        ∀ packet, realPublish s.m x.1 = .ok packet → packet.packetLength ≤ s.m.maximumPacketSize := by
  intro h
  have hr : (Machine.run Threads.step (Threads.Sys.init none true)
      (Threads.established [⟨.maximumPacketSize, (5 : UInt32)⟩])).map
      (fun s => (s.m.maximumPacketSize, (Threads.step s publishesShort).isSome,
        (Threads.handed s publishesShort).map fun x =>
        (x.2.isPublish, (realPublish s.m x.1).toOption.map OutBuffer.packetLength))) =
      some (5, true, [(true, some 6)]) := by decide
  obtain ⟨s, hs, hd⟩ := Machine.reach_of_map_any Threads.IsInit ⟨none, true, rfl⟩ hr
  simp only [Prod.mk.injEq] at hd
  obtain ⟨hM, hsome, hl⟩ := hd
  obtain ⟨s', hs'⟩ := Option.isSome_iff_exists.mp hsome
  obtain ⟨x, hx, hshape⟩ : ∃ x ∈ Threads.handed s publishesShort,
      (x.2.isPublish, (realPublish s.m x.1).toOption.map OutBuffer.packetLength) = (true, some 6) :=
    List.mem_map.mp (by rw [hl]; exact List.mem_singleton_self _)
  rw [Prod.mk.injEq] at hshape
  cases hp : realPublish s.m x.1 with
  | error rc =>
    rw [hp] at hshape
    cases hshape.2
  | ok packet =>
    rw [hp] at hshape
    have hlen : packet.packetLength = 6 := Option.some.inj hshape.2
    have := h s s' publishesShort hs hs' (by omega) x hx hshape.1 packet hp
    omega

end Artemisia.Wire
