/-
  Artemisia.Wire.Requests — SUBSCRIBE, UNSUBSCRIBE and DISCONNECT as bytes (`send_subscribe.c`,
  `send_unsubscribe.c`, `send_disconnect.c`), and the layout that MQTT gives them.

  The byte after a topic has the QoS in its lower two bits and the options in the others. The check of the options
  looks at the upper four bits, so that options may run into the QoS. A property list that the application has not
  built itself goes out as its first property.

  Proved:
  - `filterPacket_bytes`, `disconnectPacket_bytes`: the packet that is built fills its buffer to the end.
  - `call_encodes`:  it is decoded to what the call puts into it.
  - `requests_iff`:  that is what the call was given, exactly when the options keep clear of the QoS and
                     the list was built by the application, or is no longer than one property.
-/
import Artemisia.Wire.Connect
import Artemisia.Wire.Oversize
import Mathlib.Data.List.TakeDrop

namespace Artemisia.Wire

open Codec Artemisia.Property Artemisia.Client Artemisia.Topic Artemisia.Topic

/-! ## Disconnecting -/

/-- What a disconnect call is given, with a reason code of one byte. -/
structure DisconnectArgs where
  reasonCode : UInt8
  properties : List MosquittoProperty
  clientGenerated : Bool

def DisconnectArgs.outgoing (a : DisconnectArgs) : List MosquittoProperty :=
  outgoingProperties a.properties a.clientGenerated

def mosquittoDisconnectV5 (alloc : Alloc) (m : Mosq) (a : DisconnectArgs) : Mosq × Rc :=
  match disconnectChecks m a.outgoing with
  | .success => disconnectSend alloc { m with state := .disconnected } a.reasonCode a.outgoing
  | rc => (m, rc)

/-- `remaining_length` in `send__disconnect`. -/
def disconnectLength (m : Mosq) (reasonCode : UInt8) (properties : List MosquittoProperty) : Nat :=
  if m.protocol = .mqtt5 ∧ (reasonCode ≠ 0 ∨ properties ≠ []) then
    1 + if properties = [] then 0 else getLengthAll properties + varintBytes (getLengthAll properties)
  else 0

def disconnectPacket (m : Mosq) (reasonCode : UInt8) (properties : List MosquittoProperty) :
    Except Rc OutBuffer := do
  let packet ← allocBuffer 0xE0 (disconnectLength m reasonCode properties)
  .ok (if m.protocol = .mqtt5 ∧ (reasonCode ≠ 0 ∨ properties ≠ []) then
      let packet := packet.write (writeByte reasonCode)
      if properties = [] then packet else packet.write (writeAll properties true).1
    else packet)

/-! ## The layout -/

/-- A topic filter with what a SUBSCRIBE says of it. -/
structure Filter where
  topic : CString
  qos : Nat
  options : Nat

inductive Request where
  | subscribe (mid : UInt16) (properties : List MosquittoProperty) (filters : List Filter)
  | unsubscribe (mid : UInt16) (properties : List MosquittoProperty) (topics : List CString)
  | disconnect (reasonCode : UInt8) (properties : List MosquittoProperty)

/-- The QoS and the options in the byte after a topic. -/
def filterOf (p : CString × UInt8) : Filter := ⟨p.1, (p.2 &&& 0x03).toNat, (p.2 &&& 0xFC).toNat⟩

def readFilter (s : Bytes) : Except Rc ((CString × UInt8) × Bytes) := do
  let (topic, s) ← readString s
  let (byte, s) ← readByte s
  .ok ((topic, byte), s)

/-- The body of a DISCONNECT: without a reason code it is 0, and without a length there are no properties. -/
def readLeave (protocol : Protocol) : Bytes → Except Rc Request
  | [] => .ok (.disconnect 0 [])
  | reasonCode :: s =>
    if protocol ≠ .mqtt5 then .error .malformedPacket
    else if s = [] then .ok (.disconnect reasonCode [])
    else do
      let (properties, s) ← readSection protocol s
      if s = [] then .ok (.disconnect reasonCode properties) else .error .malformedPacket

def readRequest (protocol : Protocol) (command : UInt8) (s : Bytes) : Except Rc Request :=
  if command = 0x82 then do
    let (mid, s) ← readUint16 s
    let (properties, s) ← readSection protocol s
    let filters ← readToEnd .malformedPacket readFilter s.length s
    .ok (.subscribe mid properties (filters.map filterOf))
  else if command = 0xA2 then do
    let (mid, s) ← readUint16 s
    let (properties, s) ← readSection protocol s
    let topics ← readToEnd .malformedPacket readString s.length s
    .ok (.unsubscribe mid properties topics)
  else if command = 0xE0 then readLeave protocol s
  else .error .malformedPacket

def decodeRequest (protocol : Protocol) (s : Bytes) : Except Rc Request := do
  let (command, s) ← readByte s
  let ((remainingLength, _), s) ← readVarint s
  if s.length = remainingLength then readRequest protocol command s else .error .malformedPacket

/-- The packet is built, the cursor ends at its end, and it is decoded to the request. -/
def Encodes (protocol : Protocol) (built : Except Rc OutBuffer) (r : Request) : Prop :=
  ∃ packet, built = .ok packet ∧ packet.pos = packet.packetLength ∧ decodeRequest protocol packet.written = .ok r

/-! ## The three calls -/

inductive Call where
  | subscribe (a : SubscribeArgs)
  | unsubscribe (a : UnsubscribeArgs)
  | disconnect (a : DisconnectArgs)

namespace Call

def run (alloc : Alloc) (m : Mosq) : Call → Mosq × Rc
  | .subscribe a => mosquittoSubscribeMultiple alloc m a
  | .unsubscribe a => mosquittoUnsubscribeMultiple alloc m a
  | .disconnect a => mosquittoDisconnectV5 alloc m a

def properties : Call → List MosquittoProperty
  | .subscribe a => a.properties
  | .unsubscribe a => a.properties
  | .disconnect a => a.properties

def clientGenerated : Call → Bool
  | .subscribe a => a.clientGenerated
  | .unsubscribe a => a.clientGenerated
  | .disconnect a => a.clientGenerated

def options : Call → UInt32
  | .subscribe a => a.options
  | .unsubscribe _ | .disconnect _ => 0

def queued (m : Mosq) (mid : UInt16) : Call → Packet
  | .subscribe a => .subscribe mid (a.topics.map CString.bytes) (topicQos m a) a.outgoing
  | .unsubscribe a => .unsubscribe mid (a.topics.map CString.bytes) a.outgoing
  | .disconnect a => .disconnect a.reasonCode a.outgoing

def packet (m : Mosq) (mid : UInt16) : Call → Except Rc OutBuffer
  | .subscribe a => subscribePacket m mid (a.topics.map CString.bytes) (topicQos m a) a.outgoing
  | .unsubscribe a => unsubscribePacket m mid (a.topics.map CString.bytes) a.outgoing
  | .disconnect a => disconnectPacket m a.reasonCode a.outgoing

/-- What the call was given, as far as the version carries it. -/
def carried (protocol : Protocol) (mid : UInt16) : Call → Request
  | .subscribe a => .subscribe mid (if protocol = .mqtt5 then a.properties else [])
      (a.topics.map fun topic => ⟨topic, a.qos.toNat, if protocol = .mqtt5 then a.options.toNat else 0⟩)
  | .unsubscribe a => .unsubscribe mid (if protocol = .mqtt5 then a.properties else []) a.topics
  | .disconnect a =>
    if protocol = .mqtt5 then .disconnect a.reasonCode a.properties else .disconnect 0 []

def topics : Call → List CString
  | .subscribe a => a.topics
  | .unsubscribe a => a.topics
  | .disconnect _ => []

def outgoing (c : Call) : List MosquittoProperty := outgoingProperties c.properties c.clientGenerated

/-- The length of the body that the send functions reckon. -/
def remainingLength (m : Mosq) (c : Call) : Nat :=
  match c with
  | .subscribe _ => filterLength m 1 (c.topics.map CString.bytes) c.outgoing
  | .unsubscribe _ => filterLength m 0 (c.topics.map CString.bytes) c.outgoing
  | .disconnect a => disconnectLength m a.reasonCode c.outgoing

/-- What the call puts into its packet. -/
def said (m : Mosq) (mid : UInt16) : Call → Request
  | .subscribe a => .subscribe mid a.outgoing (a.topics.map fun topic => filterOf (topic, topicQos m a))
  | .unsubscribe a => .unsubscribe mid a.outgoing a.topics
  | .disconnect a => if m.protocol = .mqtt5 then .disconnect a.reasonCode a.outgoing else .disconnect 0 []

/-- The list goes out as it is, and the options are a byte that leaves the bits of the QoS alone. -/
structure Faithful (protocol : Protocol) (c : Call) : Prop where
  whole : c.clientGenerated = true ∨ c.properties.length ≤ 1
  options : protocol = .mqtt5 → c.options.toNat < 256 ∧ c.options.toNat % 4 = 0

end Call

/-! ## What is written -/

section Packets

variable {m : Mosq} {l : List MosquittoProperty}

def filterBody (m : Mosq) (mid : UInt16) (topics : List Bytes) (after : Bytes) (l : List MosquittoProperty) :
    Bytes :=
  writeUint16 mid ++ (sectionBytes m.protocol l ++ topics.flatMap fun topic => writeString topic ++ after)

theorem foldl_written (topics : List Bytes) (after : Bytes) (b : OutBuffer) :
    topics.foldl (fun packet topic => (packet.write (writeString topic)).write after) b =
      b.write (topics.flatMap fun topic => writeString topic ++ after) := by
  induction topics generalizing b with
  | nil => simp [OutBuffer.write]
  | cons topic topics ih =>
    rw [List.foldl_cons, ih, write_write, write_write, List.flatMap_cons, List.append_assoc]

theorem length_topics {topics : List Bytes} (after : Bytes) (ht : ∀ topic ∈ topics, topic.length ≤ 65535) :
    (topics.flatMap fun topic => writeString topic ++ after).length = topicsLength after.length topics := by
  induction topics with
  | nil => rfl
  | cons topic topics ih =>
    obtain ⟨h, hrest⟩ := List.forall_mem_cons.mp ht
    rw [List.flatMap_cons, List.length_append, List.length_append, length_writeString_of_le h, ih hrest]
    rfl

/-- A section is as long as both send functions reckon. -/
theorem length_filterBody (mid : UInt16) {topics : List Bytes} {after : Bytes} (hl : ∀ p ∈ l, p.Fits)
    (ht : ∀ topic ∈ topics, topic.length ≤ 65535) (hr : filterLength m after.length topics l < 268435456) :
    (filterBody m mid topics after l).length = filterLength m after.length topics l := by
  have hsum (h5 : m.protocol = .mqtt5) : getLengthAll l < 268435456 := by
    rw [filterLength, if_pos h5] at hr
    omega
  rw [filterBody, List.length_append, List.length_append, length_writeUint16, length_sectionBytes hl hsum,
    length_topics after ht, filterLength, Nat.add_assoc]

/-- The buffer is filled to its end with the header and the body. -/
theorem filterPacket_bytes (command : UInt8) (mid : UInt16) {topics : List Bytes} (after : Bytes)
    (hl : ∀ p ∈ l, p.Fits)
    (ht : ∀ topic ∈ topics, topic.length ≤ 65535) (hr : filterLength m after.length topics l < 268435456) :
    ∃ packet, filterPacket m command mid topics after l = .ok packet ∧ packet.pos = packet.packetLength ∧
      (filterBody m mid topics after l).length = filterLength m after.length topics l ∧
        packet.written = packetBytes command (filterBody m mid topics after l) := by
  have hlen := length_filterBody mid hl ht hr
  have hsection (b : OutBuffer) : (if m.protocol = .mqtt5 then b.write (writeAll l true).1 else b) =
      b.write (sectionBytes m.protocol l) := by
    by_cases h5 : m.protocol = .mqtt5
    · rw [filterLength, if_pos h5] at hr
      rw [if_pos h5, sectionBytes, if_pos h5, writeAll_of_fits hl (by omega)]
    · rw [if_neg h5, sectionBytes, if_neg h5, OutBuffer.write, List.append_nil]
  have hwritten : filterPacket m command mid topics after l =
      .ok ⟨filterLength m after.length topics l + 1 +
        (varintDigits 5 (filterLength m after.length topics l)).length,
        packetBytes command (filterBody m mid topics after l)⟩ := by
    unfold filterPacket
    simp only [allocBuffer_of_lt hr, bind, Except.bind, hsection, foldl_written]
    rw [packetBytes, hlen, write_write, write_write]
    rfl
  refine ⟨_, hwritten, ?_, hlen, rfl⟩
  show (packetBytes _ _).length = filterLength m after.length topics l + 1 + _
  rw [length_packetBytes, hlen]

def disconnectBody (m : Mosq) (reasonCode : UInt8) (l : List MosquittoProperty) : Bytes :=
  if m.protocol = .mqtt5 ∧ (reasonCode ≠ 0 ∨ l ≠ []) then
    writeByte reasonCode ++ if l = [] then [] else sectionBytes m.protocol l
  else []

theorem disconnectPacket_bytes (reasonCode : UInt8) (hl : ∀ p ∈ l, p.Fits)
    (hr : disconnectLength m reasonCode l < 268435456) :
    ∃ packet, disconnectPacket m reasonCode l = .ok packet ∧ packet.pos = packet.packetLength ∧
      (disconnectBody m reasonCode l).length = disconnectLength m reasonCode l ∧
        packet.written = packetBytes 0xE0 (disconnectBody m reasonCode l) := by
  have hlen : (disconnectBody m reasonCode l).length = disconnectLength m reasonCode l ∧
      disconnectPacket m reasonCode l = .ok ⟨disconnectLength m reasonCode l + 1 +
        (varintDigits 5 (disconnectLength m reasonCode l)).length,
        (0xE0 :: varintDigits 5 (disconnectLength m reasonCode l)) ++ disconnectBody m reasonCode l⟩ := by
    unfold disconnectPacket
    simp only [allocBuffer_of_lt hr, bind, Except.bind]
    unfold disconnectBody
    by_cases hbody : m.protocol = .mqtt5 ∧ (reasonCode ≠ 0 ∨ l ≠ [])
    · simp only [if_pos hbody]
      rw [disconnectLength, if_pos hbody] at hr ⊢
      by_cases hnil : l = []
      · simp only [if_pos hnil]
        exact ⟨rfl, rfl⟩
      · rw [if_neg hnil] at hr
        simp only [if_neg hnil]
        rw [List.length_append, length_sectionBytes hl (fun _ => by omega), if_pos hbody.1, sectionBytes,
          if_pos hbody.1,
          writeAll_of_fits hl (by omega)]
        exact ⟨rfl, by rw [write_write]; rfl⟩
    · rw [if_neg hbody, if_neg hbody, disconnectLength, if_neg hbody, List.append_nil]
      exact ⟨rfl, rfl⟩
  obtain ⟨hlen, hwritten⟩ := hlen
  refine ⟨_, hwritten, ?_, hlen, ?_⟩
  · show (0xE0 :: varintDigits 5 _ ++ _).length = disconnectLength m reasonCode l + 1 + _
    rw [List.cons_append, List.length_cons, List.length_append, hlen]
    omega
  · rw [packetBytes, hlen, List.cons_append]

end Packets

/-! ## What is read -/

def ReadableTopic (topic : CString) : Prop := topic.bytes.length ≤ 65535 ∧ validateUtf8 topic.bytes = .success

theorem reads_filter : Codec.Reads (ε := Rc) readFilter (fun p => writeString p.1.bytes ++ writeByte p.2)
    (fun p => ReadableTopic p.1 ∧ True) :=
  reads_string.seq fun _ _ => reads_byte

theorem writeString_ne_nil {topic : CString} (h : ReadableTopic topic) : writeString topic.bytes ≠ [] := by
  intro e
  have := congrArg List.length e
  rw [length_writeString_of_le h.1, List.length_nil] at this
  omega

theorem checkTopics_readable {topics : List CString} (h : checkTopics (topics.map CString.bytes) = .success) :
    ∀ topic ∈ topics, ReadableTopic topic := by
  intro topic ht
  obtain ⟨hs, hu⟩ := checkTopics_ok h topic.bytes (List.mem_map_of_mem ht)
  exact ⟨length_of_subTopicCheck (length_of_validateUtf8 hu) hs, hu⟩

section Bodies

variable {protocol : Protocol} {m : Mosq} {l : List MosquittoProperty}

theorem decodeRequest_packetBytes (command : UInt8) {body : Bytes} (h : body.length < 268435456) :
    decodeRequest protocol (packetBytes command body) = readRequest protocol command body := by
  have hlength := reads_varint.round (a := (body.length, varintBytes body.length)) body ⟨h, rfl⟩
  simp only [decodeRequest, packetBytes, readByte, bind, Except.bind, hlength, if_true]

/-- A list that goes into a section of the version, and comes back from it. -/
structure Sectioned (protocol : Protocol) (l : List MosquittoProperty) : Prop where
  fits : ∀ p ∈ l, p.Fits
  version : protocol ≠ .mqtt5 → l = []
  short : protocol = .mqtt5 → getLengthAll l < 268435456

theorem Sectioned.read (h : Sectioned protocol l) (s : Bytes) :
    readSection protocol (sectionBytes protocol l ++ s) = .ok (l, s) :=
  readSection_round h.fits h.version h.short s

theorem readRequest_subscribe (mid : UInt16) (topicQos : UInt8) {topics : List CString}
    (h : Sectioned m.protocol l)
    (ht : ∀ topic ∈ topics, ReadableTopic topic) :
    readRequest m.protocol 0x82 (filterBody m mid (topics.map CString.bytes) [topicQos] l) =
      .ok (.subscribe mid l (topics.map fun topic => filterOf (topic, topicQos))) := by
  have hfilters : ((topics.map CString.bytes).flatMap fun topic => writeString topic ++ [topicQos]) =
      (topics.map fun topic => (topic, topicQos)).flatMap fun p => writeString p.1.bytes ++ writeByte p.2 := by
    rw [List.flatMap_map, List.flatMap_map]
    rfl
  have hread := reads_filter.toEnd (fun p _ => by simp [writeByte]) Rc.malformedPacket
    (l := topics.map fun topic => (topic, topicQos))
    (List.forall_mem_map.mpr fun topic hm => ⟨ht topic hm, trivial⟩) (Nat.le_refl _)
  rw [filterBody, hfilters]
  simp only [readRequest, if_true, reads_uint16.round _ trivial, bind, Except.bind, h.read, hread, List.map_map]
  rfl

theorem readRequest_unsubscribe (mid : UInt16) {topics : List CString} (h : Sectioned m.protocol l)
    (ht : ∀ topic ∈ topics, ReadableTopic topic) :
    readRequest m.protocol 0xA2 (filterBody m mid (topics.map CString.bytes) [] l) =
    .ok (.unsubscribe mid l topics) := by
  have htopics : ((topics.map CString.bytes).flatMap fun topic => writeString topic ++ []) =
      topics.flatMap fun topic => writeString topic.bytes := by
    simp only [List.append_nil, List.flatMap_map]
  have hread := reads_string.toEnd (fun topic hm => writeString_ne_nil hm) Rc.malformedPacket ht (Nat.le_refl _)
  have hne : ¬ (0xA2 : UInt8) = 0x82 := by decide
  rw [filterBody, htopics]
  simp only [readRequest, if_neg hne, if_true, reads_uint16.round _ trivial, bind, Except.bind, h.read, hread]

theorem readRequest_disconnect (reasonCode : UInt8) (h : Sectioned m.protocol l) :
    readRequest m.protocol 0xE0 (disconnectBody m reasonCode l) =
      .ok (if m.protocol = .mqtt5 then .disconnect reasonCode l else .disconnect 0 []) := by
  have hread := h.read []
  rw [List.append_nil] at hread
  show readLeave m.protocol (disconnectBody m reasonCode l) = _
  unfold disconnectBody
  by_cases h5 : m.protocol = .mqtt5
  · rw [h5] at hread ⊢
    rw [if_pos rfl]
    by_cases hbody : reasonCode ≠ 0 ∨ l ≠ []
    · rw [if_pos ⟨rfl, hbody⟩]
      by_cases hnil : l = []
      · rw [if_pos hnil, hnil]
        rfl
      · have hne : ¬ sectionBytes .mqtt5 l = [] := by
          intro e
          rw [e] at hread
          cases hread
        rw [if_neg hnil]
        simp [writeByte, readLeave, hne, hread, bind, Except.bind]
    · rw [if_neg fun h => hbody h.2]
      simp only [not_or, not_not] at hbody
      rw [hbody.1, hbody.2]
      rfl
  · rw [if_neg h5, if_neg fun h => h5 h.1]
    rfl

end Bodies

/-! ## What is sent -/

/-- What a call that has built its packet has seen to. -/
structure Accepted (m : Mosq) (c : Call) : Prop where
  version : m.protocol ≠ .mqtt5 → c.properties = []
  topics : ∀ topic ∈ c.topics, ReadableTopic topic
  short : c.remainingLength m < 268435456
  subscribed : ∀ a, c = .subscribe a → a.topics ≠ [] ∧ 0 ≤ a.qos ∧ a.qos ≤ 2

section Calls

variable {alloc : Alloc} {m : Mosq} {c : Call}

theorem disconnect_cases (alloc : Alloc) (m : Mosq) (a : DisconnectArgs) :
    ((m.protocol ≠ .mqtt5 → a.outgoing = []) ∧ disconnectLength m a.reasonCode a.outgoing < 268435456 ∧
      mosquittoDisconnectV5 alloc m a =
        (packetQueue { m with state := .disconnected } (.disconnect a.reasonCode a.outgoing), .success)) ∨
    (mosquittoDisconnectV5 alloc m a).1.trace = m.trace := by
  unfold mosquittoDisconnectV5
  split
  · rename_i hc
    have h3 : m.protocol ≠ .mqtt5 → a.outgoing = [] := by
      intro hp
      by_contra hne
      rw [disconnectChecks, if_pos ⟨hp, hne⟩] at hc
      cases hc
    unfold disconnectSend
    split
    · exact .inr rfl
    · have hsend : sendDisconnect alloc { m with state := .disconnected } a.reasonCode a.outgoing =
          sendPacket alloc { m with state := .disconnected } (disconnectLength m a.reasonCode a.outgoing)
            (.disconnect a.reasonCode a.outgoing) := rfl
      rw [hsend]
      rcases sendPacket_cases alloc { m with state := .disconnected } (disconnectLength m a.reasonCode a.outgoing)
        (.disconnect a.reasonCode a.outgoing) with ⟨hr, e⟩ | ⟨rc, -, e⟩
      · exact .inl ⟨h3, hr, e⟩
      · exact .inr (congrArg (fun r => r.1.trace) e)
  · exact .inr rfl

/-- A call whose packet has been queued. -/
theorem run_accepted (h : (c.run alloc m).1.trace ≠ m.trace) :
    Accepted m c ∧ ∃ mid, (c.run alloc m).1.trace = .queued m.sock (c.queued m mid) :: m.trace := by
  cases c with
  | subscribe a =>
    rcases subscribe_cases alloc m a with ⟨hc, hr, e⟩ | ⟨rc, -, e⟩
    · obtain ⟨hne, h3, hqos, hf⟩ := subscribeChecks_args hc
      refine ⟨⟨h3, checkTopics_readable (filterChecks_ok hf).2.1, hr, ?_⟩, _, congrArg (fun r => r.1.trace) e⟩
      rintro _ ⟨⟩
      exact ⟨hne, hqos⟩
    · exact absurd (congrArg (fun r => r.1.trace) e) h
  | unsubscribe a =>
    rcases unsubscribe_cases alloc m a with ⟨hc, hr, e⟩ | ⟨rc, -, e⟩
    · obtain ⟨h3, hf⟩ := unsubscribeChecks_args hc
      refine ⟨⟨h3, checkTopics_readable (filterChecks_ok hf).2.1, hr, ?_⟩, _, congrArg (fun r => r.1.trace) e⟩
      rintro _ ⟨⟩
    · exact absurd (congrArg (fun r => r.1.trace) e) h
  | disconnect a =>
    rcases disconnect_cases alloc m a with ⟨h3, hr, e⟩ | e
    · refine ⟨⟨fun hp => outgoing_nil_iff.mp (h3 hp), List.forall_mem_nil _, hr, ?_⟩, 0,
        congrArg (fun r => r.1.trace) e⟩
      rintro _ ⟨⟩
    · exact absurd e h

/-- The list of a call can go into a section. -/
theorem Accepted.sectioned (h : Accepted m c) (hl : Obtained c.properties c.clientGenerated)
    (hshort : ∀ p ∈ c.properties, p.Short) : Sectioned m.protocol c.outgoing where
  fits := fun p hp => (fitsValue_iff (obtained_added hl p (outgoing_mem hp))).mpr (hshort p (outgoing_mem hp))
  version := fun hp => outgoing_nil_iff.mpr (h.version hp)
  short := by
    intro h5
    have hr := h.short
    cases c with
    | subscribe a =>
      simp only [Call.remainingLength, filterLength, if_pos h5] at hr
      omega
    | unsubscribe a =>
      simp only [Call.remainingLength, filterLength, if_pos h5] at hr
      omega
    | disconnect a =>
      by_cases hnil : (Call.disconnect a).outgoing = []
      · rw [hnil]
        decide
      · simp only [Call.remainingLength, disconnectLength, if_pos (And.intro h5 (Or.inr hnil)), if_neg hnil] at hr
        omega

/-- The packet of a call fills its buffer, and is decoded to what the call puts into it. -/
theorem call_encodes (h : Accepted m c) (hs : Sectioned m.protocol c.outgoing) (mid : UInt16) :
    Encodes m.protocol (c.packet m mid) (c.said m mid) := by
  have hbytes : ∀ topic ∈ c.topics.map CString.bytes, topic.length ≤ 65535 :=
    List.forall_mem_map.mpr fun topic ht => (h.topics topic ht).1
  cases c with
  | subscribe a =>
    obtain ⟨packet, hp, hpos, hlen, hw⟩ := filterPacket_bytes 0x82 mid [topicQos m a] hs.fits hbytes h.short
    refine ⟨packet, hp, hpos, ?_⟩
    rw [hw, decodeRequest_packetBytes _ (lt_of_eq_of_lt hlen h.short)]
    exact readRequest_subscribe mid _ hs h.topics
  | unsubscribe a =>
    obtain ⟨packet, hp, hpos, hlen, hw⟩ := filterPacket_bytes 0xA2 mid [] hs.fits hbytes h.short
    refine ⟨packet, hp, hpos, ?_⟩
    rw [hw, decodeRequest_packetBytes _ (lt_of_eq_of_lt hlen h.short)]
    exact readRequest_unsubscribe mid hs h.topics
  | disconnect a =>
    obtain ⟨packet, hp, hpos, hlen, hw⟩ := disconnectPacket_bytes a.reasonCode hs.fits h.short
    refine ⟨packet, hp, hpos, ?_⟩
    rw [hw, decodeRequest_packetBytes _ (lt_of_eq_of_lt hlen h.short)]
    exact readRequest_disconnect a.reasonCode hs

/-! ## What is given back -/

theorem and3 (b : UInt8) : (b &&& 0x03).toNat = b.toNat % 4 := by
  rw [UInt8.toNat_and]
  exact Nat.and_two_pow_sub_one_eq_mod b.toNat 2

theorem andFC (b : UInt8) : (b &&& 0xFC).toNat = b.toNat / 4 * 4 := by
  rw [UInt8.toNat_and]
  have h : ∀ i : Fin 256, i.val &&& 252 = i.val / 4 * 4 := by decide +kernel
  exact h ⟨b.toNat, b.toNat_lt⟩

/-- The QoS and the options, one beside the other. -/
theorem or_options {q o : Nat} (hq : q < 4) (ho : o % 4 = 0) : q ||| o = o + q := by
  obtain ⟨k, rfl⟩ := Nat.dvd_of_mod_eq_zero ho
  rw [Nat.or_comm]
  exact (Nat.two_pow_add_eq_or_of_lt (i := 2) hq k).symm

/-- A byte gives back a QoS and options when they share no bit of it. -/
theorem filterOf_iff (topic : CString) {q : Nat} {o : UInt32} (hq : q ≤ 2) :
    filterOf (topic, (UInt32.ofNat q ||| o).toUInt8) = ⟨topic, q, o.toNat⟩ ↔ o.toNat < 256 ∧ o.toNat % 4 = 0 := by
  have hbyte : ((UInt32.ofNat q ||| o).toUInt8).toNat = (q ||| o.toNat) % 256 := by
    rw [UInt32.toNat_toUInt8, UInt32.toNat_or, UInt32.toNat_ofNat', Nat.mod_eq_of_lt (show q < 2 ^ 32 by omega)]
  rw [filterOf, Filter.mk.injEq, and3, andFC, hbyte]
  constructor
  · rintro ⟨-, -, ho⟩
    omega
  · rintro ⟨ho, hmod⟩
    rw [or_options (by omega) hmod]
    refine ⟨rfl, ?_, ?_⟩ <;> omega

theorem zero_clear : (0 : UInt32).toNat < 256 ∧ (0 : UInt32).toNat % 4 = 0 := by decide

theorem outgoing_carried {protocol : Protocol} {l : List MosquittoProperty} (generated : Bool)
    (h : protocol ≠ .mqtt5 → l = []) :
    (outgoingProperties l generated = if protocol = .mqtt5 then l else []) ↔ generated = true ∨ l.length ≤ 1 := by
  by_cases h5 : protocol = .mqtt5
  · rw [if_pos h5]
    exact outgoing_eq
  · rw [if_neg h5, h h5]
    exact iff_of_true (outgoing_nil_iff.mpr rfl) (.inr (Nat.zero_le _))

/-- What goes into the packet is what was given, when the call is faithful. -/
theorem said_iff (h : Accepted m c) (mid : UInt16) : c.said m mid = c.carried m.protocol mid ↔
    c.Faithful m.protocol := by
  have hwhole := outgoing_carried c.clientGenerated h.version
  cases c with
  | subscribe a =>
    obtain ⟨hne, h0, h2⟩ := h.subscribed a rfl
    obtain ⟨topic, ht⟩ := List.exists_mem_of_ne_nil _ hne
    have hfilter (topic : CString) : filterOf (topic, topicQos m a) =
        ⟨topic, a.qos.toNat, if m.protocol = .mqtt5 then a.options.toNat else 0⟩ ↔
          (m.protocol = .mqtt5 → a.options.toNat < 256 ∧ a.options.toNat % 4 = 0) := by
      unfold topicQos
      by_cases h5 : m.protocol = .mqtt5
      · simp only [h5, if_true, forall_const]
        exact filterOf_iff topic (by omega)
      · simp only [if_neg h5]
        exact iff_of_true ((filterOf_iff topic (o := 0) (by omega)).mpr zero_clear) (fun e => absurd e h5)
    rw [Call.said, Call.carried, Request.subscribe.injEq, List.map_inj_left]
    constructor
    · rintro ⟨-, hl, hf⟩
      exact ⟨hwhole.mp hl, (hfilter topic).mp (hf topic ht)⟩
    · rintro ⟨hl, ho⟩
      exact ⟨rfl, hwhole.mpr hl, fun topic _ => (hfilter topic).mpr ho⟩
  | unsubscribe a =>
    rw [Call.said, Call.carried, Request.unsubscribe.injEq]
    constructor
    · rintro ⟨-, hl, -⟩
      exact ⟨hwhole.mp hl, fun _ => zero_clear⟩
    · rintro ⟨hl, -⟩
      exact ⟨rfl, hwhole.mpr hl, rfl⟩
  | disconnect a =>
    by_cases h5 : m.protocol = .mqtt5
    · rw [if_pos h5] at hwhole
      rw [Call.said, Call.carried, if_pos h5, if_pos h5, Request.disconnect.injEq]
      constructor
      · rintro ⟨-, hl⟩
        exact ⟨hwhole.mp hl, fun _ => zero_clear⟩
      · rintro ⟨hl, -⟩
        exact ⟨rfl, hwhole.mpr hl⟩
    · rw [Call.said, Call.carried, if_neg h5, if_neg h5]
      refine iff_of_true rfl ⟨hwhole.mp ?_, fun e => absurd e h5⟩
      rw [if_neg h5, h.version h5]
      exact outgoing_nil_iff.mpr rfl

/-- A packet says one thing. -/
theorem Encodes.iff {protocol : Protocol} {built : Except Rc OutBuffer} {r r' : Request}
    (h : Encodes protocol built r) :
    Encodes protocol built r' ↔ r = r' := by
  refine ⟨fun h' => ?_, fun e => e ▸ h⟩
  obtain ⟨packet, hp, -, hd⟩ := h
  obtain ⟨packet', hp', -, hd'⟩ := h'
  obtain rfl := Except.ok.inj (hp.symm.trans hp')
  exact Except.ok.inj (hd.symm.trans hd')

/-- The packet of an accepted call gives back what was given, when the call is faithful. -/
theorem carried_iff (h : Accepted m c) (hl : Obtained c.properties c.clientGenerated)
    (hshort : ∀ p ∈ c.properties, p.Short)
    (mid : UInt16) : Encodes m.protocol (c.packet m mid) (c.carried m.protocol mid) ↔ c.Faithful m.protocol :=
  (call_encodes h (h.sectioned hl hshort) mid).iff.trans (said_iff h mid)

/-- For every call that has built its packet, with any list that an application may have: the packet fills
    its buffer to the end and is decoded to the packet id, the reason code, the properties and the filters that
    were given, exactly when the list is sent whole and the options leave the bits of the QoS alone. -/
theorem requests_iff (alloc : Alloc) (m : Mosq) (c : Call) (hl : Obtained c.properties c.clientGenerated)
    (hshort : ∀ p ∈ c.properties, p.Short) (hsent : (c.run alloc m).1.trace ≠ m.trace) :
    ∃ mid, (c.run alloc m).1.trace = .queued m.sock (c.queued m mid) :: m.trace ∧
      (Encodes m.protocol (c.packet m mid) (c.carried m.protocol mid) ↔ c.Faithful m.protocol) := by
  obtain ⟨haccepted, mid, htrace⟩ := run_accepted hsent
  exact ⟨mid, htrace, carried_iff haccepted hl hshort mid⟩

end Calls

/-- Two filters at QoS 1, with retained messages as they were published and without one's own, and a user
    property. -/
def twoFilters : Call :=
  .subscribe ⟨[.of [97, 47, 35], .of [43]], 1, 12, [⟨.userProperty, (CString.of [97], CString.of [98])⟩], true⟩

theorem requests_iff_twoFilters : ∃ mid, (twoFilters.run (fun _ => true) (upClient .mqtt5)).1.trace =
      [.queued (some 0) (.subscribe mid [[97, 47, 35], [43]] 13
      [⟨.userProperty, (CString.of [97], CString.of [98])⟩])] ∧
    twoFilters.Faithful .mqtt5 ∧
    (Encodes .mqtt5 (twoFilters.packet (upClient .mqtt5) mid) (twoFilters.carried .mqtt5 mid) ↔
    twoFilters.Faithful .mqtt5) := by
  have hl : Obtained twoFilters.properties twoFilters.clientGenerated :=
    .add [] _ true (.pair (some (CString.of [97])) (some (CString.of [98]))) 38 (.none true) rfl
  have hlen : (twoFilters.run (fun _ => true) (upClient .mqtt5)).1.trace.length = 1 := by decide
  obtain ⟨mid, htrace, hiff⟩ := requests_iff (fun _ => true) (upClient .mqtt5) twoFilters hl (by decide)
      (fun e => by
    rw [e] at hlen
    cases hlen)
  exact ⟨mid, htrace, ⟨.inl rfl, fun _ => by decide⟩, hiff⟩

/-- A filter at QoS 2, with an option that is a bit of the QoS. -/
def overlapping : Call := .subscribe ⟨[.of [116]], 2, 1, [], true⟩

/-- It goes out at QoS 3. -/
theorem options_overlap : ¬ ∀ (alloc : Alloc) (m : Mosq) (c : Call), Obtained c.properties c.clientGenerated →
    (∀ p ∈ c.properties, p.Short) → (c.run alloc m).1.trace ≠ m.trace →
      ∃ mid, (c.run alloc m).1.trace = .queued m.sock (c.queued m mid) :: m.trace ∧
        Encodes m.protocol (c.packet m mid) (c.carried m.protocol mid) := by
  intro h
  have hlen : (overlapping.run (fun _ => true) (upClient .mqtt5)).1.trace.length = 1 := by decide
  have hsent : (overlapping.run (fun _ => true) (upClient .mqtt5)).1.trace ≠ (upClient .mqtt5).trace := by
    intro e
    rw [e] at hlen
    cases hlen
  obtain ⟨mid, -, he⟩ := h (fun _ => true) (upClient .mqtt5) overlapping (.none true)
      (List.forall_mem_nil _) hsent
  obtain ⟨haccepted, -⟩ := run_accepted hsent
  have hfaithful := (carried_iff haccepted (.none true) (List.forall_mem_nil _) mid).mp he
  exact absurd (hfaithful.options rfl).2 (by decide)

end Artemisia.Wire
