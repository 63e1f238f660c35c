/-
  Artemisia.Client.Messages — packets on their way out (`packet_mosq.c`, `send_mosq.c`, `send_publish.c`,
  `send_connect.c`, `send_disconnect.c`) and the message stores (`messages_mosq.c`, `util_mosq.c`).

  The loop thread is running, so `packet__queue` only appends; what is written later is `Client.Connect`'s.

  Proved:
  - `sendPublish_ok` / `sendPublish_fail`: a PUBLISH is queued exactly when `canPublish` says so.
  - `sendConnect_cases`:                  a CONNECT is queued, or none is.
  - `releaseLoop_…`:                      what the release loop does with the message it looks at.
-/
import Artemisia.Client.Types

namespace Artemisia.Client

open Artemisia.Property

/-! ## The packet queue -/

/-- `packet__queue` with the loop thread started. -/
def packetQueue (m : Mosq) (p : Packet) : Mosq :=
  { m with outPacket := m.outPacket ++ [p], trace := .queued m.sock p :: m.trace }

/-- `packet__alloc`: the packet and its buffer are one allocation. -/
def packetAlloc (alloc : Alloc) (remainingLength : Nat) (p : Packet) : Rc :=
  if remainingLength ≥ 268435456 then .payloadSize else if alloc p then .success else .nomem

/-- Allocate, fill in and queue: the end of every send function. -/
def sendPacket (alloc : Alloc) (m : Mosq) (remainingLength : Nat) (p : Packet) : Mosq × Rc :=
  match packetAlloc alloc remainingLength p with
  | .success => (packetQueue m p, .success)
  | rc => (m, rc)

theorem packetAlloc_ok {alloc : Alloc} {n : Nat} {p : Packet} (h : packetAlloc alloc n p = .success) :
    n < 268435456 := by
  by_contra hge
  rw [packetAlloc, if_pos (by omega)] at h
  cases h

/-- A packet is queued, or nothing changes. -/
theorem sendPacket_cases (alloc : Alloc) (m : Mosq) (n : Nat) (p : Packet) :
    (n < 268435456 ∧ sendPacket alloc m n p = (packetQueue m p, .success)) ∨
      ∃ rc, rc ≠ .success ∧ sendPacket alloc m n p = (m, rc) := by
  unfold sendPacket
  split
  · rename_i h
    exact .inl ⟨packetAlloc_ok h, rfl⟩
  · rename_i h
    exact .inr ⟨_, h, rfl⟩

def checkOversize (m : Mosq) (remainingLength : Nat) : Rc :=
  if m.maximumPacketSize = 0 then .success
  else if remainingLength + varintBytes remainingLength > m.maximumPacketSize then .oversizePacket
  else .success

def packetCleanupAll (m : Mosq) : Mosq := { m with currentOutPacket := none, outPacket := [] }

/-! ## Quotas -/

def MsgData.incrementQuota (d : MsgData) : MsgData :=
  if d.inflightQuota < d.inflightMaximum then { d with inflightQuota := d.inflightQuota + 1 } else d

def MsgData.decrementQuota (d : MsgData) : MsgData :=
  if d.inflightQuota > 0 then { d with inflightQuota := d.inflightQuota - 1 } else d

def incrementReceiveQuota (m : Mosq) : Mosq := { m with msgsIn := m.msgsIn.incrementQuota }

def decrementReceiveQuota (m : Mosq) : Mosq := { m with msgsIn := m.msgsIn.decrementQuota }

def incrementSendQuota (m : Mosq) : Mosq := { m with msgsOut := m.msgsOut.incrementQuota }

def decrementSendQuota (m : Mosq) : Mosq := { m with msgsOut := m.msgsOut.decrementQuota }

/-! ## Sending -/

/-- `send__command_with_mid`, called with no properties. -/
def sendCommandWithMid (alloc : Alloc) (m : Mosq) (p : Packet) (reasonCode : UInt8) : Mosq × Rc :=
  sendPacket alloc m (2 + if m.protocol = .mqtt5 ∧ reasonCode ≠ 0 then 1 else 0) p

def sendPuback (alloc : Alloc) (m : Mosq) (mid : UInt16) (reasonCode : UInt8) : Mosq × Rc :=
  sendCommandWithMid alloc (incrementReceiveQuota m) (.puback mid reasonCode) reasonCode

def sendPubcomp (alloc : Alloc) (m : Mosq) (mid : UInt16) : Mosq × Rc :=
  sendCommandWithMid alloc (incrementReceiveQuota m) (.pubcomp mid) 0

def sendPubrec (alloc : Alloc) (m : Mosq) (mid : UInt16) (reasonCode : UInt8) : Mosq × Rc :=
  let m := if reasonCode ≥ 0x80 ∧ m.protocol = .mqtt5 then incrementReceiveQuota m else m
  sendCommandWithMid alloc m (.pubrec mid reasonCode) reasonCode

def sendPubrel (alloc : Alloc) (m : Mosq) (mid : UInt16) : Mosq × Rc :=
  sendCommandWithMid alloc m (.pubrel mid) 0

def sendSimpleCommand (alloc : Alloc) (m : Mosq) (p : Packet) : Mosq × Rc := sendPacket alloc m 0 p

def sendPingreq (alloc : Alloc) (m : Mosq) : Mosq × Rc :=
  match sendSimpleCommand alloc m .pingreq with
  | (m, .success) => ({ m with pingT := true }, .success)
  | r => r

def sendPingresp (alloc : Alloc) (m : Mosq) : Mosq × Rc := sendSimpleCommand alloc m .pingresp

def sendDisconnect (alloc : Alloc) (m : Mosq) (reasonCode : UInt8) (properties : List MosquittoProperty) :
    Mosq × Rc :=
  let remainingLength :=
    if m.protocol = .mqtt5 ∧ (reasonCode ≠ 0 ∨ properties ≠ []) then
      1 + if properties = [] then 0 else getLengthAll properties + varintBytes (getLengthAll properties)
    else 0
  sendPacket alloc m remainingLength (.disconnect reasonCode properties)

/-- The bytes of a PUBLISH after its fixed header, with its properties. Properties too long for a
    variable byte integer are left out. -/
def publishLength (m : Mosq) (msg : Message) : Nat × List MosquittoProperty :=
  let packetlen := 2 + (msg.topic.getD []).length + msg.payload.length + if msg.qos > 0 then 2 else 0
  if m.protocol = .mqtt5 then
    let proplen := getLengthAll msg.properties
    if varintBytes proplen > 4 then (packetlen, [])
      else (packetlen + proplen + varintBytes proplen, msg.properties)
  else (packetlen, [])

def publishPacket (m : Mosq) (msg : Message) : Packet :=
  .publish msg.mid msg.topic msg.payload msg.qos msg.retain msg.dup (publishLength m msg).2

def sendRealPublish (alloc : Alloc) (m : Mosq) (msg : Message) : Mosq × Rc :=
  -- `log__printf` is called with no client, before `MOSQ_ERR_OVERSIZE_PACKET` is returned
  if checkOversize m (publishLength m msg).1 ≠ .success then (m, .aborted)
  else sendPacket alloc m (publishLength m msg).1 (publishPacket m msg)

def sendPublish (alloc : Alloc) (m : Mosq) (msg : Message) : Mosq × Rc :=
  if m.sock = none then (m, .noConn) else sendRealPublish alloc m msg

/-- The properties of a CONNECT: those given, and the Receive Maximum if they do not say it. -/
def connectProperties (m : Mosq) (properties : List MosquittoProperty) : List MosquittoProperty :=
  if m.protocol ≠ .mqtt5 then []
  else if readPropertyInt16 properties PropId.receiveMaximum.code false = none then
    properties ++ [⟨.receiveMaximum, UInt16.ofNat m.msgsIn.inflightMaximum⟩]
  else properties

/-- A Receive Maximum among the properties is taken over for the messages in. -/
def adoptReceiveMaximum (m : Mosq) (properties : List MosquittoProperty) : Mosq :=
  match m.protocol, readPropertyInt16 properties PropId.receiveMaximum.code false with
  | .mqtt5, some v => { m with msgsIn := { m.msgsIn with inflightMaximum := v.toNat, inflightQuota := v.toNat } }
  | _, _ => m

/-- The bytes of a CONNECT after its fixed header. -/
def connectLength (c : ConnectData) : Nat :=
  let prefixed (s : Option Bytes) := (s.map (2 + ·.length)).getD 0
  let proplen (l : List MosquittoProperty) :=
    if c.protocol = .mqtt5 then getLengthAll l + varintBytes (getLengthAll l) else 0
  let will := c.will.map (fun w => 2 + w.topic.length + 2 + w.payload.length + proplen w.properties)
  (if c.protocol = .mqtt31 then 12 else 10) + proplen c.properties
    + 2 + (c.id.getD []).length + will.getD 0 + prefixed c.username + prefixed c.password

/-- `send__connect`, with the keepalive and clean start of the client. -/
def sendConnect (alloc : Alloc) (m : Mosq) (properties : List MosquittoProperty) : Mosq × Rc :=
  if m.protocol = .mqtt31 ∧ m.id = none then (m, .protocol)
  else
    let data : ConnectData := { protocol := m.protocol, cleanStart := m.cleanStart, id := m.id,
                                username := m.username,
                                password := m.password, keepalive := m.keepalive, will := m.will,
                                properties := connectProperties m properties }
    let m := adoptReceiveMaximum m properties
    if m.protocol ≠ .mqtt5 ∧ m.password.isSome ∧ m.username = none then (m, .inval)
    else sendPacket alloc m (connectLength data) (.connect data)

/-! ## The stores -/

def Message.released (cur : Message) : Message :=
  { cur with state := if cur.qos = 1 then .waitForPuback else if cur.qos = 2 then .waitForPubrec else cur.state }

/-- The loop of `message__release_to_inflight`. The state is written before the send that may fail, and a
    send that fails ends the loop with the quota as it is. -/
def releaseLoop (alloc : Alloc) (m : Mosq) : List Message → Mosq × List Message × Rc
  | [] => (m, [], .success)
  | cur :: rest =>
    if m.msgsOut.inflightQuota > 0 then
      if cur.qos > 0 ∧ cur.state = .invalid then
        match sendPublish alloc m cur.released with
        | (m', .success) =>
          let r := releaseLoop alloc (decrementSendQuota m') rest
          (r.1, { cur.released with sentOn := m.sock } :: r.2.1, r.2.2)
        | (m', rc) => (m', cur.released :: rest, rc)
      else
        let r := releaseLoop alloc m rest
        (r.1, cur :: r.2.1, r.2.2)
    else (m, cur :: rest, .success)

/-- `message__release_to_inflight` for messages out; for messages in it does nothing. -/
def messageReleaseToInflight (alloc : Alloc) (m : Mosq) : Mosq × Rc :=
  let r := releaseLoop alloc m m.msgsOut.inflight
  ({ r.1 with msgsOut := { r.1.msgsOut with inflight := r.2.1 } }, r.2.2)

def MsgData.append (d : MsgData) (msg : Message) : MsgData :=
  { d with inflight := d.inflight ++ [msg], queueLen := d.queueLen + 1 }

/-- `message__queue` with `mosq_md_in`. -/
def messageQueueIn (m : Mosq) (msg : Message) : Mosq := { m with msgsIn := m.msgsIn.append msg }

/-- `message__queue` with `mosq_md_out`. -/
def messageQueueOut (alloc : Alloc) (m : Mosq) (msg : Message) : Mosq × Rc :=
  messageReleaseToInflight alloc { m with msgsOut := m.msgsOut.append msg }

/-- The messages in: `queue_len` counts every entry, those of QoS 2 stay and take their part of the quota. -/
def resetIn (d : MsgData) : MsgData :=
  let kept := d.inflight.filter (·.qos = 2)
  { d with inflight := kept, queueLen := d.inflight.length, inflightQuota := d.inflightMaximum - kept.length }

/-- The state of a message out that still fits the quota. -/
def resetOutState (msg : Message) : MsgState :=
  if msg.qos = 1 then .publishQos1
  else if msg.qos = 2 then
    match msg.state with
    | .waitForPubrec => .publishQos2
    | .waitForPubcomp => .resendPubrel
    | s => s
  else msg.state

def resetOutLoop : Nat → List Message → Nat × List Message
  | quota, [] => (quota, [])
  | 0, msg :: rest =>
    let r := resetOutLoop 0 rest
    (r.1, { msg with state := .invalid } :: r.2)
  | quota + 1, msg :: rest =>
    let r := resetOutLoop quota rest
    (r.1, { msg with state := resetOutState msg } :: r.2)

def resetOut (d : MsgData) : MsgData :=
  let r := resetOutLoop d.inflightMaximum d.inflight
  { d with inflight := r.2, queueLen := d.inflight.length, inflightQuota := r.1 }

def messageReconnectReset (m : Mosq) : Mosq :=
  { m with msgsIn := resetIn m.msgsIn, msgsOut := resetOut m.msgsOut }

/-- `message__remove`: the first entry with the packet id, if it has the QoS. -/
def messageRemove (d : MsgData) (mid : UInt16) (qos : Nat) : Except Rc (Message × MsgData) :=
  match d.inflight.find? (·.mid = mid) with
  | none => .error .notFound
  | some msg =>
    if msg.qos ≠ qos then .error .protocol
    else .ok (msg, { d with inflight := d.inflight.eraseP (·.mid = mid), queueLen := d.queueLen - 1 })

/-- The state of the first entry with the packet id. -/
def setFirstState (mid : UInt16) (state : MsgState) : List Message → List Message
  | [] => []
  | msg :: rest => if msg.mid = mid then { msg with state := state } :: rest
      else msg :: setFirstState mid state rest

def messageOutUpdate (d : MsgData) (mid : UInt16) (state : MsgState) (qos : Nat) : MsgData × Rc :=
  match d.inflight.find? (·.mid = mid) with
  | none => (d, .notFound)
  | some msg =>
    if msg.qos ≠ qos then (d, .protocol)
      else ({ d with inflight := setFirstState mid state d.inflight }, .success)

/-- The loop of `message__retry_check`. No result of a send is looked at. -/
def retryLoop (alloc : Alloc) (m : Mosq) : List Message → Mosq × List Message
  | [] => (m, [])
  | msg :: rest =>
    match msg.state with
    | .publishQos1 | .publishQos2 =>
      let msg := { msg with dup := true }
      let s := sendPublish alloc m msg
      let r := retryLoop alloc s.1 rest
      (r.1, (if s.2 = .success then { msg with sentOn := m.sock } else msg) :: r.2)
    | .waitForPubrel =>
      let r := retryLoop alloc (sendPubrec alloc m msg.mid 0).1 rest
      (r.1, { msg with dup := true } :: r.2)
    | .resendPubrel | .waitForPubcomp =>
      let r := retryLoop alloc (sendPubrel alloc m msg.mid).1 rest
      (r.1, { msg with dup := true } :: r.2)
    | _ =>
      let r := retryLoop alloc m rest
      (r.1, msg :: r.2)

def messageRetryCheck (alloc : Alloc) (m : Mosq) : Mosq :=
  let r := retryLoop alloc m m.msgsOut.inflight
  { r.1 with msgsOut := { r.1.msgsOut with inflight := r.2 } }

/-- The process ends in the loop of `message__retry_check`. What the sends before change has no part in it. -/
def retryAborts (alloc : Alloc) (m : Mosq) : Bool :=
  m.msgsOut.inflight.any fun msg =>
    (msg.state = .publishQos1 ∨ msg.state = .publishQos2) ∧
      (sendPublish alloc m { msg with dup := true }).2 = .aborted

/-- A result that is not looked at; the process may have ended all the same. -/
def overlooked : Rc → Rc
  | .aborted => .aborted
  | _ => .success

/-! ## When a PUBLISH is queued -/

/-- Whether `send__publish` queues the message. -/
def canPublish (alloc : Alloc) (m : Mosq) (msg : Message) : Bool :=
  m.sock.isSome ∧ checkOversize m (publishLength m msg).1 = .success
    ∧ packetAlloc alloc (publishLength m msg).1 (publishPacket m msg) = .success

theorem sendPublish_ok {alloc : Alloc} {m : Mosq} {msg : Message} (h : canPublish alloc m msg = true) :
    sendPublish alloc m msg = (packetQueue m (publishPacket m msg), .success) := by
  simp only [canPublish, decide_eq_true_eq] at h
  obtain ⟨hs, ho, ha⟩ := h
  have : m.sock ≠ none := Option.isSome_iff_ne_none.mp hs
  simp [sendPublish, sendRealPublish, sendPacket, this, ho, ha]

theorem sendPublish_fail {alloc : Alloc} {m : Mosq} {msg : Message} (h : canPublish alloc m msg = false) :
    ∃ rc, rc ≠ .success ∧ sendPublish alloc m msg = (m, rc) := by
  simp only [canPublish, decide_eq_false_iff_not] at h
  by_cases hs : m.sock = none
  · exact ⟨.noConn, by decide, by simp [sendPublish, hs]⟩
  by_cases ho : checkOversize m (publishLength m msg).1 = .success
  · have ha : packetAlloc alloc (publishLength m msg).1 (publishPacket m msg) ≠ .success :=
      fun e => h ⟨Option.isSome_iff_ne_none.mpr hs, ho, e⟩
    refine ⟨_, ha, ?_⟩
    unfold sendPublish sendRealPublish sendPacket
    rw [if_neg hs, if_neg (by simpa using ho)]
    split
    · rename_i e
      exact absurd e ha
    · rfl
  · exact ⟨.aborted, by decide, by simp [sendPublish, sendRealPublish, hs, ho]⟩

/-! ## When a CONNECT is queued -/

def connectDataOf (m : Mosq) (properties : List MosquittoProperty) : ConnectData :=
  { protocol := m.protocol, cleanStart := m.cleanStart, id := m.id, username := m.username,
    password := m.password,
    keepalive := m.keepalive, will := m.will, properties := connectProperties m properties }

/-- A CONNECT is queued, or none is. -/
theorem sendConnect_cases (alloc : Alloc) (m : Mosq) (properties : List MosquittoProperty) :
    (connectLength (connectDataOf m properties) < 268435456 ∧ sendConnect alloc m properties =
      (packetQueue (adoptReceiveMaximum m properties) (.connect (connectDataOf m properties)), .success)) ∨
    (∃ rc, rc ≠ .success ∧
      (sendConnect alloc m properties = (m, rc) ∨
      sendConnect alloc m properties = (adoptReceiveMaximum m properties, rc))) := by
  unfold sendConnect
  split
  · exact .inr ⟨.protocol, by decide, .inl rfl⟩
  dsimp only
  split
  · exact .inr ⟨.inval, by decide, .inr rfl⟩
  unfold sendPacket
  split
  · rename_i ha
    refine .inl ⟨?_, rfl⟩
    by_contra hge
    have : connectLength (connectDataOf m properties) ≥ 268435456 := by omega
    unfold packetAlloc at ha
    split at ha
    · cases ha
    · rename_i hlt
      exact hlt this
  · rename_i rc hne
    exact .inr ⟨_, hne, .inr rfl⟩

section Release

variable {alloc : Alloc} {m : Mosq} {cur : Message} {rest : List Message}

theorem releaseLoop_full (l : List Message) (h : m.msgsOut.inflightQuota = 0) :
    releaseLoop alloc m l = (m, l, .success) := by
  cases l with
  | nil => rfl
  | cons cur rest => simp [releaseLoop, h]

theorem releaseLoop_keep (hq : 0 < m.msgsOut.inflightQuota) (h : ¬ (cur.qos > 0 ∧ cur.state = .invalid)) :
    releaseLoop alloc m (cur :: rest) =
      ((releaseLoop alloc m rest).1, cur :: (releaseLoop alloc m rest).2.1, (releaseLoop alloc m rest).2.2) := by
  simp [releaseLoop, hq, h]

theorem releaseLoop_send (hq : 0 < m.msgsOut.inflightQuota) (h : cur.qos > 0 ∧ cur.state = .invalid)
    (hc : canPublish alloc m cur.released = true) :
    let r := releaseLoop alloc (decrementSendQuota (packetQueue m (publishPacket m cur.released))) rest
    releaseLoop alloc m (cur :: rest) = (r.1, { cur.released with sentOn := m.sock } :: r.2.1, r.2.2) := by
  simp [releaseLoop, hq, h, sendPublish_ok hc]

theorem releaseLoop_fail (rest : List Message) (hq : 0 < m.msgsOut.inflightQuota)
    (h : cur.qos > 0 ∧ cur.state = .invalid)
    (hc : canPublish alloc m cur.released = false) :
    ∃ rc, rc ≠ .success ∧ releaseLoop alloc m (cur :: rest) = (m, cur.released :: rest, rc) := by
  obtain ⟨rc, hrc, e⟩ := sendPublish_fail hc
  refine ⟨rc, hrc, ?_⟩
  simp only [releaseLoop, hq, h, e, if_true, and_self]

end Release

end Artemisia.Client
