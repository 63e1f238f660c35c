/-
  Artemisia.Wire.Publish — PUBLISH as bytes: `send__real_publish` (`send_publish.c`) writes it and
  `handle__publish` (`handle_publish.c`) reads it.

  Proved:
  - `realPublish_bytes`:   the packet that is built fills its buffer to the end.
  - `decodePublish_body`:  its fields are read back as they were written.
  - `publish_carried`:     a message reaches the handler of the other side as it was sent, in whatever pieces
                           its packet arrives.
  - `publish_roundtrip_iff`: and as it was published, exactly when its properties can be copied and go out whole,
                           and the packet is not too large for the server.
-/
import Artemisia.Client.Actions
import Artemisia.Property.Section
import Artemisia.Wire.Packet

namespace Artemisia.Wire

open Artemisia.Property Artemisia.Client Artemisia.Topic

/-! ## Writing -/

/-- `CMD_PUBLISH` with the flags. -/
def publishCommand (dup : Bool) (qos : Nat) (retain : Bool) : UInt8 :=
  (0x30 : UInt8) ||| (UInt8.ofNat dup.toNat <<< 3) ||| (UInt8.ofNat qos <<< 1) ||| UInt8.ofNat retain.toNat

/-- The packet that `send__real_publish` builds. It writes the length of the properties also when they are
    too long and have been left out. -/
def realPublish (m : Mosq) (msg : Message) : Except Rc OutBuffer := do
  let (packetlen, properties) := publishLength m msg
  let packet ← allocBuffer (publishCommand msg.dup msg.qos msg.retain) packetlen
  let packet := packet.write (match msg.topic with
    | some topic => writeString topic
    | none => writeUint16 0)
  let packet := if msg.qos > 0 then packet.write (writeUint16 msg.mid) else packet
  let packet :=
    if m.protocol = .mqtt5 then
      (packet.write (writeVarint (getLengthAll msg.properties)).1).write (writeAll properties false).1
    else packet
  .ok (packet.write msg.payload)

/-! ## Reading -/

/-- The packet id, for a QoS that has one. -/
def readMid (qos : Nat) (s : Bytes) : Except Rc (UInt16 × Bytes) := if qos > 0 then readUint16 s else .ok (0, s)

/-- The property section, in the protocol that has one. -/
def readProperties (protocol : Protocol) (command : Cmd) (s : Bytes) :
    Except Rc (List MosquittoProperty × Bytes) :=
  if protocol = .mqtt5 then readAll command s else .ok ([], s)

/-- The QoS in the command byte of a PUBLISH. -/
def commandQos (command : UInt8) : Nat := ((command &&& 0x06) >>> 1).toNat

/-- The fields of a PUBLISH as `handle__publish` reads them, one after the other; the payload is what is left. -/
def decodePublish (protocol : Protocol) (command : UInt8) (body : Bytes) (uid : Nat) : PublishIn :=
  let topic := readString body
  let mid := topic.bind (fun r => readMid (commandQos command) r.2)
  let properties := mid.bind (fun r => readProperties protocol .publish r.2)
  { dup := command &&& 0x08 ≠ 0
    qos := commandQos command
    retain := command &&& 0x01 ≠ 0
    topic := topic.map (·.1)
    mid := mid.map (·.1)
    properties := properties.map (·.1)
    payload := match properties with
      | .ok r => r.2
      | .error _ => []
    uid := uid }

/-! ## The body -/

/-- The body of a PUBLISH for a topic, packet id and property list. -/
def publishBody (protocol : Protocol) (topic : Bytes) (qos : Nat) (mid : UInt16)
    (properties : List MosquittoProperty)
    (payload : Bytes) : Bytes :=
  writeString topic ++ ((if qos > 0 then writeUint16 mid else []) ++
    ((if protocol = .mqtt5 then varintDigits 5 (getLengthAll properties) ++ spelled properties else []) ++
      payload))

/-- How long the rest of a PUBLISH is, with its properties. -/
def publishRemaining (protocol : Protocol) (topic : Bytes) (qos : Nat) (properties : List MosquittoProperty)
    (payload : Bytes) : Nat :=
  2 + topic.length + (if qos > 0 then 2 else 0) +
    (if protocol = .mqtt5 then getLengthAll properties + varintBytes (getLengthAll properties) else 0) +
      payload.length

section Codec

variable {protocol : Protocol} {qos : Nat} {mid : UInt16} {l : List MosquittoProperty} {payload : Bytes}

variable (mid) in
theorem length_publishBody {topic : Bytes} (ht : topic.length ≤ 65535) (hl : ∀ p ∈ l, p.Fits)
    (hlen : publishRemaining protocol topic qos l payload < 268435456) :
    (publishBody protocol topic qos mid l payload).length = publishRemaining protocol topic qos l payload := by
  unfold publishRemaining at hlen
  unfold publishBody publishRemaining
  simp only [List.length_append, length_writeString_of_le ht]
  by_cases h5 : protocol = .mqtt5
  · simp only [if_pos h5] at hlen ⊢
    rw [List.length_append, length_spelled hl, length_varintDigits (by omega)]
    split <;> simp only [length_writeUint16, List.length_nil] <;> omega
  · simp only [if_neg h5] at hlen ⊢
    split <;> simp only [length_writeUint16, List.length_nil] <;> omega

theorem varintBytes_le {word : Nat} (h : word < 268435456) : ¬ varintBytes word > 4 := by
  unfold varintBytes
  split_ifs <;> omega

theorem publishLength_eq {m : Mosq} {msg : Message} {topic : Bytes} (ht : msg.topic = some topic)
    (h3 : m.protocol ≠ .mqtt5 → msg.properties = [])
    (hlen : publishRemaining m.protocol topic msg.qos msg.properties msg.payload < 268435456) :
    publishLength m msg =
      (publishRemaining m.protocol topic msg.qos msg.properties msg.payload, msg.properties) := by
  unfold publishRemaining at hlen
  unfold publishLength publishRemaining
  simp only [ht, Option.getD_some]
  by_cases h5 : m.protocol = .mqtt5
  · simp only [if_pos h5] at hlen ⊢
    rw [if_neg (varintBytes_le (by omega))]
    refine Prod.ext ?_ rfl
    show 2 + topic.length + msg.payload.length + _ + _ + _ = _
    omega
  · simp only [if_neg h5] at hlen ⊢
    refine Prod.ext ?_ (h3 h5).symm
    show 2 + topic.length + msg.payload.length + _ = _
    omega

/-- The buffer is filled to its end with the header and the body. -/
theorem realPublish_bytes {m : Mosq} {msg : Message} {topic : Bytes} (ht : msg.topic = some topic)
    (hshort : topic.length ≤ 65535) (h3 : m.protocol ≠ .mqtt5 → msg.properties = [])
    (hl : ∀ p ∈ msg.properties, p.Fits)
    (hlen : publishRemaining m.protocol topic msg.qos msg.properties msg.payload < 268435456) :
    ∃ packet, realPublish m msg = .ok packet ∧ packet.pos = packet.packetLength ∧
      packet.written = packetBytes (publishCommand msg.dup msg.qos msg.retain)
        (publishBody m.protocol topic msg.qos msg.mid msg.properties msg.payload) := by
  have hbody := length_publishBody msg.mid hshort hl hlen
  have hwritten : realPublish m msg =
      .ok ⟨publishRemaining m.protocol topic msg.qos msg.properties msg.payload + 1 +
      (varintDigits 5 (publishRemaining m.protocol topic msg.qos msg.properties msg.payload)).length,
      packetBytes (publishCommand msg.dup msg.qos msg.retain)
        (publishBody m.protocol topic msg.qos msg.mid msg.properties msg.payload)⟩ := by
    rw [packetBytes, hbody]
    unfold realPublish
    rw [publishLength_eq ht h3 hlen]
    simp only [allocBuffer_of_lt hlen, bind, Except.bind, ht, publishBody, OutBuffer.write]
    by_cases h5 : m.protocol = .mqtt5
    · have hprops : getLengthAll msg.properties < 268435456 := by
        unfold publishRemaining at hlen
        rw [if_pos h5] at hlen
        omega
      have hall : (writeAll msg.properties false).1 = spelled msg.properties := by
        simp only [writeAll, Bool.false_eq_true, if_false, propertyWriteFrom_of_fits hl]
      simp only [if_pos h5, writeVarint_of_lt hprops, hall]
      split <;> simp only [List.append_assoc, List.cons_append, List.nil_append]
    · simp only [if_neg h5]
      split <;> simp only [List.append_assoc, List.cons_append, List.nil_append]
  refine ⟨_, hwritten, ?_, rfl⟩
  show (packetBytes _ _).length = publishRemaining _ _ _ _ _ + 1 + (varintDigits 5 _).length
  rw [length_packetBytes, hbody]

theorem commandQos_publishCommand (dup retain : Bool) (hqos : qos ≤ 2) :
    commandQos (publishCommand dup qos retain) = qos := by
  obtain rfl | rfl | rfl : qos = 0 ∨ qos = 1 ∨ qos = 2 := by omega
  all_goals cases dup <;> cases retain <;> rfl

theorem publishCommand_flags (dup retain : Bool) (hqos : qos ≤ 2) :
    publishCommand dup qos retain &&& 0xF0 = 0x30 ∧ (publishCommand dup qos retain &&& 0x08 ≠ 0 ↔ dup = true) ∧
      (publishCommand dup qos retain &&& 0x01 ≠ 0 ↔ retain = true) := by
  obtain rfl | rfl | rfl : qos = 0 ∨ qos = 1 ∨ qos = 2 := by omega
  all_goals cases dup <;> cases retain <;> decide

/-- The fields are read back as they were written. -/
theorem decodePublish_body {topic : CString} (ht : topic.bytes.length ≤ 65535)
    (hutf : validateUtf8 topic.bytes = .success) (hl : ∀ p ∈ l, p.Fits) (hcheck : checkAll .publish l = .success)
    (hlen : getLengthAll l < 268435456) (hqos : qos ≤ 2) (dup retain : Bool) (uid : Nat) :
    decodePublish protocol (publishCommand dup qos retain) (publishBody protocol topic.bytes qos mid l payload)
    uid =
      { dup := dup, qos := qos, retain := retain, topic := .ok topic, mid := .ok (if qos > 0 then mid else 0),
        properties := .ok (if protocol = .mqtt5 then l else []), payload := payload, uid := uid } := by
  have hq := commandQos_publishCommand dup retain hqos
  obtain ⟨-, hdup, hretain⟩ := publishCommand_flags dup retain hqos
  have htopic (s : Bytes) : readString (writeString topic.bytes ++ s) = .ok (topic, s) :=
    reads_string.round (a := topic) s ⟨ht, hutf⟩
  have hmid (s : Bytes) : readMid qos ((if qos > 0 then writeUint16 mid else []) ++ s) =
      .ok (if qos > 0 then mid else 0, s) := by
    unfold readMid
    split
    · exact reads_uint16.round s trivial
    · rfl
  have hprops (s : Bytes) : readProperties protocol .publish
      ((if protocol = .mqtt5 then varintDigits 5 (getLengthAll l) ++ spelled l else []) ++ s) =
        .ok (if protocol = .mqtt5 then l else [], s) := by
    unfold readProperties
    split
    · rw [List.append_assoc]
      exact readAll_spelled hcheck hl hlen s
    · rfl
  simp only [decodePublish, publishBody, htopic, Except.bind, hq, hmid, hprops, Except.map, hdup, hretain,
    Bool.decide_eq_true]

end Codec

/-! ## The round trip -/

/-- What a message is to the side that gets it: the packet id of QoS 0 is not sent. -/
def arrived (msg : Message) (uid : Nat) : Message :=
  { msg with mid := if msg.qos > 0 then msg.mid else 0, state := .invalid, uid := uid, sentOn := none }

/-- What a publish call accepts: a topic the reader does not refuse, a QoS, and no properties before MQTT 5. -/
theorem publishChecks_topic {m : Mosq} {a : PublishArgs} {topic : CString} (h : publishChecks m a = .success)
    (ht : a.topic = some topic) (hne : topic.bytes ≠ []) :
    a.topicBytes = some topic.bytes ∧ topic.bytes.length ≤ 65535 ∧ validateUtf8 topic.bytes = .success ∧
      (0 ≤ a.qos ∧ a.qos ≤ 2) ∧ (m.protocol ≠ .mqtt5 → a.properties = []) ∧
      checkAll .publish a.outgoing = .success := by
  have htb : a.topicBytes = some topic.bytes := by
    simp only [PublishArgs.topicBytes, ht, if_neg hne]
  simp only [publishChecks, htb] at h
  split at h
  · cases h
  rename_i hqos
  split at h
  · cases h
  rename_i hprops
  split at h
  · cases h
  split at h
  · rename_i hcheck
    exact absurd h hcheck
  rename_i hcheck
  have hutf : validateUtf8 topic.bytes = .success := by
    by_contra hn
    simp [hn] at h
  have hpub : mosquittoPubTopicCheck topic.bytes = .success := by
    by_contra hn
    by_cases hp : a.payload.length > 268435455
    · simp [hutf, hp] at h
    · simp [hutf, hp, hn] at h
  exact ⟨htb, length_of_pubTopicCheck (length_of_validateUtf8 hutf) hpub, hutf, by omega, by tauto, by tauto⟩

section RoundTrip

variable {alloc : Alloc} {r : Mosq} {msg : Message}

/-- Messages of QoS 0 and 1 are delivered. -/
theorem acceptPublish_delivers (h : msg.qos ≤ 1) :
    (acceptPublish alloc r msg).1.trace.head? = some (.onMessage msg) := by
  obtain h | h : msg.qos = 0 ∨ msg.qos = 1 := by omega
  · simp only [acceptPublish, h]
    rfl
  · simp only [acceptPublish, h]
    rfl

/-- Messages of QoS 2 are stored until their PUBREL. -/
theorem acceptPublish_stores (h : msg.qos = 2) :
    (acceptPublish alloc r msg).1.msgsIn.inflight = r.msgsIn.inflight ++
    [{ msg with state := .waitForPubrel }] := by
  have hsend (m : Mosq) (n : Nat) (p : Packet) : (sendPacket alloc m n p).1.msgsIn = m.msgsIn := by
    unfold sendPacket
    split <;> rfl
  have hdec : r.msgsIn.decrementQuota.inflight = r.msgsIn.inflight := by
    unfold MsgData.decrementQuota
    split <;> rfl
  simp only [acceptPublish, h, messageQueueIn, MsgData.append, sendPubrec, sendCommandWithMid, hsend]
  rw [if_neg (fun h => absurd h.1 (by decide))]
  show r.msgsIn.decrementQuota.inflight ++ _ = _
  rw [hdec]

/-- The handler on an active client takes the message over from a packet that reads back as it. -/
theorem handlePublish_arrived {topic : CString} {uid : Nat} (hactive : r.state = .active)
    (hquota : 0 < r.msgsIn.inflightQuota) (hne : topic.bytes ≠ []) (ht : msg.topic = some topic.bytes)
    (hmid : msg.mid ≠ 0) (h3 : r.protocol ≠ .mqtt5 → msg.properties = []) :
    handlePublish alloc r
        { dup := msg.dup, qos := msg.qos, retain := msg.retain, topic := .ok topic,
          mid := .ok (if msg.qos > 0 then msg.mid else 0),
          properties := .ok (if r.protocol = .mqtt5 then msg.properties else []), payload :=
            msg.payload, uid := uid } =
      acceptPublish alloc r (arrived msg uid) := by
  have hprops : (if r.protocol = .mqtt5 then msg.properties else []) = msg.properties := by
    split
    · rfl
    · rename_i h5
      exact (h3 h5).symm
  have hread : readPublish r
        { dup := msg.dup, qos := msg.qos, retain := msg.retain, topic := .ok topic,
          mid := .ok (if msg.qos > 0 then msg.mid else 0),
          properties := .ok (if r.protocol = .mqtt5 then msg.properties else []), payload :=
            msg.payload, uid := uid } =
      .ok (arrived msg uid) := by
    have hmid' : (if msg.qos > 0 then Except.ok (if msg.qos > 0 then msg.mid else 0) else Except.ok 0) =
        (Except.ok (if msg.qos > 0 then msg.mid else 0) : Except Rc UInt16) := by split <;> rfl
    have hzero : ¬ (msg.qos > 0 ∧ (if msg.qos > 0 then msg.mid else 0) = 0) := by
      intro hx
      obtain ⟨hq, h0⟩ := hx
      rw [if_pos hq] at h0
      exact hmid h0
    have hfull : ¬ (msg.qos > 0 ∧ r.protocol = .mqtt5 ∧ r.msgsIn.inflightQuota = 0) := by omega
    have hlist : (if r.protocol = .mqtt5 then Except.ok (if r.protocol = .mqtt5 then msg.properties else [])
        else Except.ok []) =
        (Except.ok msg.properties : Except Rc (List MosquittoProperty)) := by
      rw [hprops]
      split
      · rfl
      · rename_i h5
        rw [h3 h5]
    simp only [readPublish, hactive, ne_eq, not_true_eq_false, if_false, if_neg hne, if_neg hfull, hmid',
      if_neg hzero,
      hlist, arrived, ht]
  rw [handlePublish, hread]

/-- An active client of the same protocol, with quota left, takes a message from the bytes, in whatever pieces
    they come: it delivers it (QoS 0 and 1), or stores it (QoS 2). -/
def Takes (alloc : Alloc) (r : Mosq) (uid : Nat) (said : Message → Prop) (written : Bytes) : Prop :=
  ∀ sock, Steady sock → arriving sock = written → ∃ command body rest got,
    feed r (sock.length + 1) .idle sock = some ((command, body), rest) ∧ command &&& 0xF0 = 0x30 ∧ said got ∧
    (got.qos ≤ 1 → (handlePublish alloc r (decodePublish r.protocol command body uid)).1.trace.head? =
      some (.onMessage got)) ∧
    (got.qos = 2 → (handlePublish alloc r (decodePublish r.protocol command body uid)).1.msgsIn.inflight =
      r.msgsIn.inflight ++ [{ got with state := .waitForPubrel }])

/-- A message with these properties that is otherwise what was published, sent with the packet id and the flag. -/
structure Says (a : PublishArgs) (topic : Bytes) (mid : UInt16) (dup : Bool) (properties : List MosquittoProperty)
    (got : Message) : Prop where
  topic : got.topic = some topic
  payload : got.payload = a.payload
  qos : (got.qos : Int) = a.qos
  retain : got.retain = a.retain
  dup : got.dup = dup
  mid : a.qos > 0 → got.mid = mid
  properties : got.properties = properties

/-- Of the bytes of a packet only one message can be taken. -/
theorem Takes.same {said said' : Message → Prop} {written : Bytes} {qos : Nat}
    (h : Takes alloc r uid said written)
    (h' : Takes alloc r uid said' written) (hle : qos ≤ 2) (hq : ∀ got, said got → got.qos = qos)
    (hq' : ∀ got, said' got → got.qos = qos) :
    ∃ got got', said got ∧ said' got' ∧ got.properties = got'.properties := by
  have hsteady : Steady [.data written] := fun x hx => .inr ⟨written, List.mem_singleton.mp hx⟩
  have hall : arriving [.data written] = written := List.append_nil written
  obtain ⟨command, body, rest, got, hfeed, -, hsaid, hone, htwo⟩ := h _ hsteady hall
  obtain ⟨command', body', rest', got', hfeed', -, hsaid', hone', htwo'⟩ := h' _ hsteady hall
  rw [hfeed] at hfeed'
  cases hfeed'
  refine ⟨got, got', hsaid, hsaid', ?_⟩
  have hgot := hq got hsaid
  have hgot' := hq' got' hsaid'
  by_cases h1 : qos ≤ 1
  · have hboth := (hone (hgot ▸ h1)).symm.trans (hone' (hgot' ▸ h1))
    cases hboth
    rfl
  · have hboth := (htwo (by omega)).symm.trans (htwo' (by omega))
    have hlast := List.singleton_inj.mp (List.append_cancel_left hboth)
    have hprops := congrArg Message.properties hlast
    exact hprops

/-- A message that `mosquitto_publish_v5` accepts, sent for the first time or again, in a packet that may
    come in any pieces: the packet fills its buffer, and what is sent is taken from it. -/
theorem publish_carried {m : Mosq} {a : PublishArgs} {topic : CString} {mid : UInt16} {uid : Nat} (dup : Bool)
    (hchecks : publishChecks m a = .success) (htopic : a.topic = some topic) (hne : topic.bytes ≠ [])
    (hfits : ∀ p ∈ a.outgoing, p.Fits)
    (hlen : publishRemaining m.protocol topic.bytes a.qos.toNat a.outgoing a.payload ≤ 268435455) (hmid : mid ≠ 0)
    (hprotocol : r.protocol = m.protocol) (hactive : r.state = .active) (hsock : r.sock ≠ none)
    (hquota : 0 < r.msgsIn.inflightQuota) :
    ∃ packet, realPublish m { messageOf m a mid with dup := dup } = .ok packet ∧
    packet.pos = packet.packetLength ∧
      Takes alloc r uid (Says a topic.bytes mid dup a.outgoing) packet.written := by
  obtain ⟨htb, ht, hutf, hqos, h3, hcheck⟩ := publishChecks_topic hchecks htopic hne
  have hqn : a.qos.toNat ≤ 2 := by omega
  have hq : ((a.qos.toNat : Nat) : Int) = a.qos := Int.toNat_of_nonneg hqos.1
  obtain ⟨msg, hmsg⟩ : ∃ msg : Message, msg = { messageOf m a mid with dup := dup } := ⟨_, rfl⟩
  have ht' : msg.topic = some topic.bytes := by rw [hmsg]; exact htb
  have hp' : msg.properties = a.outgoing := by rw [hmsg]; rfl
  have hl' : msg.payload = a.payload := by rw [hmsg]; rfl
  have hq' : msg.qos = a.qos.toNat := by rw [hmsg]; rfl
  have hm' : msg.mid = mid := by rw [hmsg]; rfl
  have hlen' : publishRemaining m.protocol topic.bytes msg.qos msg.properties msg.payload < 268435456 := by
    rw [hp', hl', hq']
    exact Nat.lt_succ_of_le hlen
  have hfits' : ∀ p ∈ msg.properties, p.Fits := by rw [hp']; exact hfits
  have h3' : m.protocol ≠ .mqtt5 → msg.properties = [] := by
    rw [hp']
    exact fun h => outgoing_nil_iff.mpr (h3 h)
  obtain ⟨packet, hpacket, hpos, hwritten⟩ := realPublish_bytes ht' ht h3' hfits' hlen'
  refine ⟨packet, hmsg ▸ hpacket, hpos, fun sock hs ha => ?_⟩
  -- the packet is read whole
  obtain ⟨hcommand, -, -⟩ := publishCommand_flags msg.dup msg.retain (show msg.qos ≤ 2 by omega)
  have hnz : publishCommand msg.dup msg.qos msg.retain ≠ 0 := by
    intro e
    rw [e] at hcommand
    exact absurd hcommand (by decide)
  have hsize : (publishBody m.protocol topic.bytes msg.qos msg.mid msg.properties msg.payload).length <
      268435456 := by
    rw [length_publishBody _ ht hfits' hlen']
    exact hlen'
  have hstate : r.state ≠ .connectPending := by
    rw [hactive]
    decide
  have harrive : arriving sock = packetBytes (publishCommand msg.dup msg.qos msg.retain)
      (publishBody m.protocol topic.bytes msg.qos msg.mid msg.properties msg.payload) ++ [] := by
    rw [ha, hwritten, List.append_nil]
  obtain ⟨rest, hfeed, -, -⟩ := feed_whole hsock hstate hnz hsize hs harrive (Nat.lt_succ_self sock.length)
  -- and its fields are those of the message
  have hsum : getLengthAll msg.properties < 268435456 := by
    by_cases h5 : m.protocol = .mqtt5
    · unfold publishRemaining at hlen'
      rw [if_pos h5] at hlen'
      omega
    · rw [h3' h5]
      decide
  have hhandle : handlePublish alloc r (decodePublish r.protocol (publishCommand msg.dup msg.qos msg.retain)
      (publishBody m.protocol topic.bytes msg.qos msg.mid msg.properties msg.payload) uid) =
        acceptPublish alloc r (arrived msg uid) := by
    rw [hprotocol, decodePublish_body ht hutf hfits' (by rw [hp']; exact hcheck) hsum (show msg.qos ≤ 2 by omega),
      ← hprotocol]
    exact handlePublish_arrived hactive hquota hne ht' (by rw [hm']; exact hmid) (by rw [hprotocol]; exact h3')
  have hqos' : (arrived msg uid).qos = a.qos.toNat := hq'
  refine ⟨_, _, rest, arrived msg uid, hfeed, hcommand, ?_, ?_, ?_⟩
  · refine ⟨ht', hl', by rw [hqos', hq], by rw [arrived, hmsg]; rfl, by rw [arrived, hmsg], fun h0 => ?_, hp'⟩
    show (if msg.qos > 0 then msg.mid else 0) = mid
    rw [if_pos (by omega), hm']
  · intro h1
    rw [hhandle]
    exact acceptPublish_delivers h1
  · intro h2
    rw [hhandle]
    exact acceptPublish_stores h2

/-- The call makes a message that is not too large, and the packet of it fills its buffer; what is taken from it,
    by a client as in `Takes`, is what was published. -/
def RoundTrips (alloc : Alloc) (r m : Mosq) (a : PublishArgs) (topic : Bytes) (mid : UInt16) (uid : Nat)
    (dup : Bool) : Prop :=
  ∃ msg packet, madeMessage m a mid = some msg ∧
    -- with a message that is too large the process ends
    checkOversize m (publishLength m { msg with dup := dup }).1 = .success ∧
    realPublish m { msg with dup := dup } = .ok packet ∧ packet.pos = packet.packetLength ∧
    Takes alloc r uid (Says a topic mid dup a.properties) packet.written

theorem publishRemaining_outgoing (protocol : Protocol) (topic : Bytes) (qos : Nat) (l : List MosquittoProperty)
    (generated : Bool) (payload : Bytes) :
    publishRemaining protocol topic qos (outgoingProperties l generated) payload ≤
      publishRemaining protocol topic qos l payload := by
  have hlen : getLengthAll (outgoingProperties l generated) ≤ getLengthAll l := by
    rcases l with _ | ⟨p, l⟩
    · cases generated <;> exact Nat.le_refl _
    · cases generated with
      | true => exact Nat.le_refl _
      | false => simp [outgoingProperties, getLengthAll]
  have hbytes {x y : Nat} (h : x ≤ y) : varintBytes x ≤ varintBytes y := by
    unfold varintBytes
    split_ifs <;> omega
  have := hbytes hlen
  unfold publishRemaining
  split_ifs <;> omega

/-- For every accepted call, with any list that an application may have: its message goes through encoder,
    framing and decoder as it was given, exactly when the properties can be copied, where the message is stored,
    and are sent whole, and the packet is not too large for the server. -/
theorem publish_roundtrip_iff {m : Mosq} {a : PublishArgs} {topic : CString} {mid : UInt16} {uid : Nat}
    (dup : Bool)
    (hchecks : publishChecks m a = .success) (htopic : a.topic = some topic) (hne : topic.bytes ≠ [])
    (hobtained : Obtained a.properties a.clientGenerated) (hshort : ∀ p ∈ a.properties, p.Short)
    (hlen : publishRemaining m.protocol topic.bytes a.qos.toNat a.properties a.payload ≤ 268435455)
    (hmid : mid ≠ 0)
    (hprotocol : r.protocol = m.protocol) (hactive : r.state = .active) (hsock : r.sock ≠ none)
    (hquota : 0 < r.msgsIn.inflightQuota) :
    RoundTrips alloc r m a topic.bytes mid uid dup ↔
      (a.qos = 0 ∨ a.copies = true) ∧ (a.clientGenerated = true ∨ a.properties.length ≤ 1) ∧
        checkOversize m (publishRemaining m.protocol topic.bytes a.qos.toNat a.properties a.payload) = .success := by
  have hfits : ∀ p ∈ a.outgoing, p.Fits := fun p hp => obtained_fits hobtained hshort p (outgoing_mem hp)
  have hlen' := (publishRemaining_outgoing m.protocol topic.bytes a.qos.toNat a.properties a.clientGenerated
      a.payload).trans hlen
  obtain ⟨packet, hpacket, hpos, htakes⟩ := publish_carried dup hchecks htopic hne hfits hlen'
    hmid hprotocol hactive hsock hquota
  obtain ⟨htb, -, -, hrange, h3, -⟩ := publishChecks_topic hchecks htopic hne
  have hlength : (publishLength m { messageOf m a mid with dup := dup }).1 =
      publishRemaining m.protocol topic.bytes a.qos.toNat a.outgoing a.payload :=
    congrArg Prod.fst (publishLength_eq htb (fun h => outgoing_nil_iff.mpr (h3 h)) (Nat.lt_succ_of_le hlen'))
  rw [← outgoing_eq]
  constructor
  · rintro ⟨msg, packet', hmade, hsize, hpacket', -, htakes'⟩
    obtain ⟨hcopied, rfl⟩ := madeMessage_some.mp hmade
    rw [hpacket] at hpacket'
    cases hpacket'
    obtain ⟨got, got', hsent, hgiven, hsame⟩ := htakes.same htakes' (show a.qos.toNat ≤ 2 by omega)
      (fun got h => by have := h.qos; omega) (fun got h => by have := h.qos; omega)
    have hwhole : a.outgoing = a.properties := hsent.properties.symm.trans (hsame.trans hgiven.properties)
    rw [hlength, hwhole] at hsize
    exact ⟨hcopied, hwhole, hsize⟩
  · rintro ⟨hcopied, hwhole, hsize⟩
    have hsame : a.outgoing = a.properties := hwhole
    rw [hsame] at htakes hlength
    rw [← hlength] at hsize
    exact ⟨_, packet, madeMessage_some.mpr ⟨hcopied, rfl⟩, hsize, hpacket, hpos, htakes⟩

end RoundTrip

def upClient (protocol : Protocol) : Mosq := { Mosq.new none true with protocol := protocol, state := .active,
                                                                       sock := some 0 }

/-- A message of QoS 1 with one property, that the application has added. -/
def publishing (p : MosquittoProperty) : PublishArgs where
  topic := some (CString.of [97, 47, 98])
  payload := [0, 255]
  qos := 1
  retain := true
  properties := [p]
  clientGenerated := true

theorem publish_roundtrip_iff_plain : RoundTrips (fun _ => true) (upClient .mqtt5) (upClient .mqtt5)
      (publishing ⟨.userProperty, (CString.of [97], CString.of [98])⟩) (CString.of [97, 47, 98]).bytes 7 3 true ↔
    ((1 : Int) = 0 ∨ (publishing ⟨.userProperty, (CString.of [97], CString.of [98])⟩).copies = true) ∧
      (true = true ∨ 1 ≤ 1) ∧
        checkOversize (upClient .mqtt5) (publishRemaining .mqtt5 (CString.of [97, 47, 98]).bytes 1
          (publishing ⟨.userProperty, (CString.of [97], CString.of [98])⟩).properties [0, 255]) = .success :=
  publish_roundtrip_iff true (by decide) rfl (by decide)
    (.add [] _ true (.pair (some (CString.of [97])) (some (CString.of [98]))) 38 (.none true) rfl)
      (by decide) (by decide)
    (by decide) rfl rfl (by decide) (by decide)

/-- An empty content type is accepted, and the process ends when it is copied. -/
theorem empty_content_type_lost : ¬ ∀ (alloc : Alloc) (r m : Mosq) (a : PublishArgs) (topic : CString)
    (mid : UInt16)
    (uid : Nat) (dup : Bool), publishChecks m a = .success → a.topic = some topic → topic.bytes ≠ [] →
      Obtained a.properties a.clientGenerated → (∀ p ∈ a.properties, p.Short) →
      publishRemaining m.protocol topic.bytes a.qos.toNat a.properties a.payload ≤ 268435455 → mid ≠ 0 →
      r.protocol = m.protocol → r.state = .active → r.sock ≠ none → 0 < r.msgsIn.inflightQuota →
        RoundTrips alloc r m a topic.bytes mid uid dup := by
  intro h
  obtain ⟨msg, packet, hmade, -⟩ := h (fun _ => true) (upClient .mqtt5) (upClient .mqtt5)
    (publishing ⟨.contentType, CString.empty⟩) (CString.of [97, 47, 98]) 7 3 false (by decide) rfl (by decide)
    (.add [] _ true (.string (some CString.empty)) 3 (.none true) rfl) (by decide) (by decide) (by decide) rfl rfl
    (by decide) (by decide)
  cases hmade

end Artemisia.Wire
