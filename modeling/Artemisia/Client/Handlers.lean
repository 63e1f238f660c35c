/-
  Artemisia.Client.Handlers — what the client does with a packet it has read (`handle_*.c`, `read_handle.c`).

  Two handlers are cut where another thread may come in between: CONNACK at its callback, and DISCONNECT
  between the close of the socket and its callback (`do_client_disconnect`).
-/
import Artemisia.Client.Messages

namespace Artemisia.Client

open Artemisia.Property

/-- How far a handler has come. -/
inductive Handled where
  | done (rc : Rc)
  /-- `connack_callback` has run, the switch on the reason code has not. The Receive Maximum is that of
      the packet. -/
  | connack (reason : UInt8) (receiveMaximum : Option UInt16)
  /-- `connack_callback` has run for a v3 CONNACK that refuses the protocol; the handler returns. -/
  | connackUnsupported
  /-- `do_client_disconnect` has closed the socket, its callback has not run. -/
  | disconnect
  deriving DecidableEq

/-! ## PUBLISH -/

/-- `handle__publish` up to its switch: the message it has read. -/
def readPublish (m : Mosq) (p : PublishIn) : Except Rc Message :=
  if m.state ≠ .active then .error .protocol
  else match p.topic with
  | .error rc => .error rc
  | .ok topic =>
    if topic.bytes = [] then .error .protocol
    else if p.qos > 0 ∧ m.protocol = .mqtt5 ∧ m.msgsIn.inflightQuota = 0 then .error .protocol
    else match (if p.qos > 0 then p.mid else .ok 0) with
    | .error rc => .error rc
    | .ok mid =>
      if p.qos > 0 ∧ mid = 0 then .error .protocol
      else match (if m.protocol = .mqtt5 then p.properties else .ok []) with
      | .error rc => .error rc
      | .ok properties =>
        .ok { mid := mid, topic := some topic.bytes, payload := p.payload, qos := p.qos, retain := p.retain,
              dup := p.dup,
              state := .invalid, properties := properties, uid := p.uid, sentOn := none }

def acceptPublish (alloc : Alloc) (m : Mosq) (message : Message) : Mosq × Rc :=
  match message.qos with
  | 0 => (m.emit (.onMessage message), .success)
  | 1 =>
    let r := sendPuback alloc (decrementReceiveQuota m) message.mid 0
    (r.1.emit (.onMessage message), r.2)
  | 2 =>
    -- what is already stored under this packet id is not looked at
    let r := sendPubrec alloc (decrementReceiveQuota m) message.mid 0
    (messageQueueIn r.1 { message with state := .waitForPubrel }, r.2)
  | _ => (m, .protocol)

def handlePublish (alloc : Alloc) (m : Mosq) (p : PublishIn) : Mosq × Rc :=
  match readPublish m p with
  | .error rc => (m, rc)
  | .ok message => acceptPublish alloc m message

theorem readPublish_ok {m : Mosq} {p : PublishIn} {msg : Message} (h : readPublish m p = .ok msg) :
    msg.qos = p.qos ∧ msg.uid = p.uid ∧ msg.payload = p.payload ∧
      (∃ t, p.topic = .ok t ∧ msg.topic = some t.bytes) ∧ (p.qos > 0 → p.mid = .ok msg.mid) ∧
      msg.retain = p.retain := by
  unfold readPublish at h
  split at h
  · cases h
  split at h
  · cases h
  rename_i t ht
  split at h
  · cases h
  split at h
  · cases h
  split at h
  · cases h
  rename_i mid hmid
  split at h
  · cases h
  split at h
  · cases h
  cases h
  refine ⟨rfl, rfl, rfl, ⟨t, ht, rfl⟩, fun hq => ?_, rfl⟩
  simpa [hq] using hmid

/-! ## PUBREL and the acknowledgements -/

/-- The packet id and the reason code, as PUBREL, PUBREC, PUBACK and PUBCOMP all carry them. -/
def readAck (m : Mosq) (mid : Except Rc UInt16) (tail : Except Rc UInt8) : Except Rc (UInt16 × UInt8) :=
  match mid with
  | .error rc => .error rc
  | .ok mid =>
    if mid = 0 then .error .protocol
    else match (if m.protocol = .mqtt5 then tail else .ok 0) with
    | .error rc => .error rc
    | .ok reasonCode => .ok (mid, reasonCode)

/-- `handle__pubrel` from its PUBCOMP on. A message whose PUBCOMP cannot be sent is dropped. -/
def releaseMessage (alloc : Alloc) (m : Mosq) (mid : UInt16) : Mosq × Rc :=
  let r := sendPubcomp alloc m mid
  match messageRemove r.1.msgsIn mid 2 with
  | .ok (message, msgsIn) =>
    if r.2 = .success then ({ r.1 with msgsIn := msgsIn }.emit (.onMessage message), .success)
    else ({ r.1 with msgsIn := msgsIn }, r.2)
  | .error e => if r.2 ≠ .success then r else if e = .notFound then (r.1, .success) else (r.1, e)

/-- `handle__pubrel` up to its PUBCOMP: the packet id it has read. -/
def readPubrel (m : Mosq) (flags : UInt8) (mid : Except Rc UInt16) (tail : Except Rc UInt8) : Except Rc UInt16 :=
  if m.state ≠ .active then .error .protocol
  else if m.protocol ≠ .mqtt31 ∧ flags &&& 0x0F ≠ 0x02 then .error .protocol
  else match readAck m mid tail with
  | .error rc => .error rc
  | .ok (mid, _) => .ok mid

def handlePubrel (alloc : Alloc) (m : Mosq) (flags : UInt8) (mid : Except Rc UInt16) (tail : Except Rc UInt8) :
    Mosq × Rc :=
  match readPubrel m flags mid tail with
  | .error rc => (m, rc)
  | .ok mid => releaseMessage alloc m mid

def Ack.qos : Ack → Nat
  | .puback => 1
  | .pubcomp => 2

/-- A message out is complete: it leaves the store and on_publish is called. -/
def completeMessage (m : Mosq) (msgsOut : MsgData) (mid : UInt16) : Mosq :=
  { m with msgsOut := msgsOut }.emit (.onPublish mid)

/-- `handle__pubackcomp` once the packet is read. -/
def acknowledge (alloc : Alloc) (m : Mosq) (mid : UInt16) (qos : Nat) : Mosq × Rc :=
  match messageRemove m.msgsOut mid qos with
  | .ok (_, msgsOut) =>
    let r := messageReleaseToInflight alloc (completeMessage m msgsOut mid)
    (r.1, overlooked r.2)
  | .error .notFound =>
    let r := messageReleaseToInflight alloc m
    (r.1, overlooked r.2)
  | .error rc => (m, rc)

/-- `handle__pubackcomp`: the quota goes up before the packet is read. -/
def handlePubackcomp (alloc : Alloc) (m : Mosq) (type : Ack) (mid : Except Rc UInt16)
    (tail : Except Rc UInt8) : Mosq × Rc :=
  if m.state ≠ .active then (m, .protocol)
  else match readAck m mid tail with
  | .error rc => (incrementSendQuota m, rc)
  | .ok (mid, _) => acknowledge alloc (incrementSendQuota m) mid type.qos

/-- `handle__pubrec` for a message that goes on. -/
def receiveMessage (alloc : Alloc) (m : Mosq) (mid : UInt16) : Mosq × Rc :=
  match messageOutUpdate m.msgsOut mid .waitForPubcomp 2 with
  | (msgsOut, .success) => sendPubrel alloc { m with msgsOut := msgsOut } mid
  | (_, .notFound) => sendPubrel alloc m mid
  | (_, rc) => (m, rc)

/-- `handle__pubrec` for a message that the server has refused. -/
def refuseMessage (alloc : Alloc) (m : Mosq) (mid : UInt16) : Mosq × Rc :=
  match messageRemove m.msgsOut mid 2 with
  | .ok (_, msgsOut) =>
    let r := messageReleaseToInflight alloc (incrementSendQuota (completeMessage m msgsOut mid))
    (r.1, overlooked r.2)
  | .error _ =>
    let r := messageReleaseToInflight alloc (incrementSendQuota m)
    (r.1, overlooked r.2)

def handlePubrec (alloc : Alloc) (m : Mosq) (mid : Except Rc UInt16) (tail : Except Rc UInt8) : Mosq × Rc :=
  if m.state ≠ .active then (m, .protocol)
  else match readAck m mid tail with
  | .error rc => (m, rc)
  | .ok (mid, reasonCode) =>
    if reasonCode < 0x80 ∨ m.protocol ≠ .mqtt5 then receiveMessage alloc m mid else refuseMessage alloc m mid

/-! ## CONNACK -/

/-- The limits that `handle__connack` takes from the properties, and the new quota. -/
def connackLimits (m : Mosq) (properties : List MosquittoProperty) : Mosq :=
  let maximum := ((readPropertyInt16 properties PropId.receiveMaximum.code false).map UInt16.toNat).getD
    m.msgsOut.inflightMaximum
  { m with
    maximumQos := ((readPropertyByte properties PropId.maximumQos.code false).map UInt8.toNat).getD m.maximumQos
    msgsOut := { m.msgsOut with inflightMaximum := maximum, inflightQuota := maximum }
    keepalive := ((readPropertyInt16 properties PropId.serverKeepAlive.code false).map UInt16.toNat).getD
      m.keepalive
    maximumPacketSize :=
      ((readPropertyInt32 properties PropId.maximumPacketSize.code false).map UInt32.toNat).getD
        m.maximumPacketSize }

/-- `handle__connack` up to its callback. -/
def handleConnack (m : Mosq) (connectFlags reason : Except Rc UInt8)
    (properties : Except Rc (List MosquittoProperty)) :
    Mosq × Handled :=
  match connectFlags with
  | .error rc => (m, .done rc)
  | .ok _ => match reason with
  | .error rc => (m, .done rc)
  | .ok reason => match (if m.protocol = .mqtt5 then properties else .ok []) with
  | .error rc =>
    if rc = .protocol ∧ reason = 1 then (m.emit (.onConnect 0x84), .connackUnsupported) else (m, .done rc)
  | .ok properties =>
    let next := Handled.connack reason (readPropertyInt16 properties PropId.receiveMaximum.code false)
    match readPropertyString properties PropId.assignedClientIdentifier.code false, m.id with
    | some _, some _ => (m, .done .protocol)
    | some clientid, none => ((connackLimits { m with id := some clientid.bytes } properties).emit
        (.onConnect reason), next)
    | none, _ => ((connackLimits m properties).emit (.onConnect reason), next)

/-- The reason code that a packet gives to on_connect, if it gets that far. -/
def reportedReason (m : Mosq) : InPacket → Option UInt8
  | .connack (.ok _) (.ok reason) properties =>
    match (if m.protocol = .mqtt5 then properties else .ok []) with
    | .error rc => if rc = .protocol ∧ reason = 1 then some 0x84 else none
    | .ok properties =>
      if (readPropertyString properties PropId.assignedClientIdentifier.code false).isSome ∧ m.id.isSome then none
      else some reason
  | _ => none

/-- The switch at the end of `handle__connack`. -/
def connackSwitch (alloc : Alloc) (m : Mosq) (reason : UInt8) : Mosq × Rc :=
  if reason = 0 then
    let m := if m.state ≠ .disconnecting then m.setState .active else m
    (messageRetryCheck alloc m, if retryAborts alloc m then .aborted else .success)
  else if reason ≤ 5 then (m, .connRefused)
  else (m, .protocol)

/-! ## DISCONNECT -/

/-- The next packet in the queue becomes the current one. -/
def nextPacket (m : Mosq) : Mosq :=
  { m with currentOutPacket := m.outPacket.head?, outPacket := m.outPacket.tail }

/-- `do_client_disconnect` up to its callback. -/
def doClientDisconnect (m : Mosq) : Mosq := { nextPacket m with state := .disconnected, sock := none }

def handleDisconnect (m : Mosq) (reason : Except Rc UInt8) (tail : Rc) : Mosq × Handled :=
  if m.protocol ≠ .mqtt5 then (m, .done .protocol)
  else match reason with
  | .error rc => (m, .done rc)
  | .ok _ => if tail ≠ .success then (m, .done tail) else (doClientDisconnect m, .disconnect)

/-- A DISCONNECT that `handle__disconnect` takes. -/
def endsConnection (m : Mosq) : InPacket → Bool
  | .disconnect (.ok _) tail => m.protocol = .mqtt5 ∧ tail = .success
  | _ => false

def handlePacket (alloc : Alloc) (m : Mosq) : InPacket → Mosq × Handled
  | .pingreq =>
    if m.state ≠ .active then (m, .done .protocol) else let r := sendPingresp alloc m; (r.1, .done r.2)
  | .pingresp => if m.state ≠ .active then (m, .done .protocol) else ({ m with pingT := false }, .done .success)
  | .pubackcomp type mid tail => let r := handlePubackcomp alloc m type mid tail; (r.1, .done r.2)
  | .publish p => let r := handlePublish alloc m p; (r.1, .done r.2)
  | .pubrec mid tail => let r := handlePubrec alloc m mid tail; (r.1, .done r.2)
  | .pubrel flags mid tail => let r := handlePubrel alloc m flags mid tail; (r.1, .done r.2)
  | .connack connectFlags reason properties => handleConnack m connectFlags reason properties
  | .suback body | .unsuback body => if m.state ≠ .active then (m, .done .protocol) else (m, .done body)
  | .disconnect reason tail => handleDisconnect m reason tail
  | .auth body => if m.protocol ≠ .mqtt5 then (m, .done .protocol) else (m, .done body)
  | .unrecognised => (m, .done .protocol)

end Artemisia.Client
