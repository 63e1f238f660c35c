/-
  Artemisia.Inbound.Receive — the client as the sender of inbound messages meets it: packets are read and
  handled, connections end, `mosquitto__reconnect` runs.

  What counts for inbound QoS 2 is `Inb`: the messages stored, the messages given to on_message, and the
  PUBRECs and PUBCOMPs not yet written.

  Proved:
  - `reconnectFrom_enough`:                      a reconnect runs to its end.
  - `inb_receive_publish`, `inb_receive_pubrel`: what a QoS 2 PUBLISH and a PUBREL do to it.
  - `loses_receive`:                             any other packet loses at most something.
  - `loses_mosquittoReconnect`:                  so does a reconnect.
-/
import Artemisia.Lib.Handshake
import Artemisia.Client.Store

namespace Artemisia.Inbound

open Artemisia.Property Artemisia.Client Handshake

/-! ## The client's moves -/

def endConnection (m : Mosq) : Mosq := m.socketClose.emit .onDisconnect

/-- A packet is read and handled; an error ends the connection. -/
def receive (alloc : Alloc) (m : Mosq) (p : InPacket) : Mosq :=
  let r := handlePacket alloc m p
  match r.2 with
  | .done rc => if rc = .success then r.1 else endConnection r.1
  | .connack reason _ =>
    let c := connackSwitch alloc r.1 reason
    if c.2 = .success then c.1 else endConnection c.1
  | .connackUnsupported => endConnection r.1
  | .disconnect => r.1.emit .onDisconnect

/-- The process outlives the handling of a packet. -/
def survives (alloc : Alloc) (m : Mosq) (p : InPacket) : Bool :=
  let r := handlePacket alloc m p
  match r.2 with
  | .done rc => rc ≠ .aborted
  | .connack reason _ => (connackSwitch alloc r.1 reason).2 ≠ .aborted
  | _ => true

/-- `mosquitto__reconnect` run to its end from one of its pieces. -/
def reconnectFrom (env : RecEnv) (properties : List MosquittoProperty) : Nat → RecPc → Mosq → Mosq
  | 0, _, m => m
  | n + 1, pc, m =>
    match reconnectStep env properties m pc with
    | (m, .inl pc) => reconnectFrom env properties n pc m
    | (m, .inr _) => m

/-- `mosquitto__reconnect`: no run through its pieces is longer than seven. -/
def mosquittoReconnect (env : RecEnv) (properties : List MosquittoProperty) (m : Mosq) : Mosq :=
  reconnectFrom env properties 7 .start m

section Reconnect

variable (env : RecEnv) (l : List MosquittoProperty) {m : Mosq}

/-- So many pieces are left, the one given included. -/
def piecesLeft : RecPc → Nat
  | .start => 7
  | .reset => 6
  | .close => 5
  | .connect => 4
  | .setConnected => 3
  | .sendConnect => 2
  | .pending _ | .failed _ => 1

theorem piecesLeft_pos (pc : RecPc) : 0 < piecesLeft pc := by
  cases pc <;> simp [piecesLeft]

theorem piecesLeft_reconnectStep {m' : Mosq} {pc pc' : RecPc} (h : reconnectStep env l m pc = (m', .inl pc')) :
    piecesLeft pc' < piecesLeft pc := by
  cases pc with
  | start | connect | sendConnect =>
    simp only [reconnectStep] at h
    repeat' split at h
    all_goals simp only [Prod.mk.injEq, Sum.inl.injEq, reduceCtorEq, and_false] at h
    all_goals obtain ⟨-, rfl⟩ := h
    all_goals simp [piecesLeft]
  | reset | close | setConnected =>
    simp only [reconnectStep, Prod.mk.injEq, Sum.inl.injEq] at h
    obtain ⟨-, rfl⟩ := h
    decide
  | pending rc | failed rc => simp [reconnectStep] at h

/-- With the pieces that are left the run comes to its end: more turns change nothing. -/
theorem reconnectFrom_enough (n k : Nat) (pc : RecPc) (hn : piecesLeft pc ≤ n) (hk : piecesLeft pc ≤ k) :
    reconnectFrom env l n pc m = reconnectFrom env l k pc m := by
  have hpos := piecesLeft_pos pc
  induction n generalizing k pc m with
  | zero => omega
  | succ n ih =>
    cases k with
    | zero => omega
    | succ k =>
      unfold reconnectFrom
      split
      · rename_i m' pc' e
        have hlt := piecesLeft_reconnectStep env l e
        exact ih k pc' (by omega) (by omega) (piecesLeft_pos pc')
      · rfl

/-- What every piece preserves holds after a reconnect. -/
theorem mosquittoReconnect_inv {P : Mosq → Prop} (h : P m)
    (hstep : ∀ m pc, P m → P (reconnectStep env l m pc).1) :
    P (mosquittoReconnect env l m) := by
  suffices hn : ∀ n pc m, P m → P (reconnectFrom env l n pc m) from hn 7 .start m h
  intro n
  induction n with
  | zero => exact fun _ _ h => h
  | succ n ih =>
    intro pc m h
    have hs := hstep m pc h
    unfold reconnectFrom
    split
    · rename_i m' pc' e
      rw [e] at hs
      exact ih pc' m' hs
    · rename_i m' rc e
      rw [e] at hs
      exact hs

end Reconnect

/-- `connect()`. -/
def connectAgain (env : RecEnv) (c : ConnectConfig) (m : Mosq) : Mosq :=
  let r := connectBind env (setupMosquitto m c) c
  if r.2 = .success then mosquittoReconnect env c.properties (r.1.setState .new) else r.1

/-! ## What counts for inbound messages -/

/-- The acknowledgements of the receiver of QoS 2 messages: PUBREC is `got`, PUBCOMP is `done`. -/
def ackOf : Packet → Option (UInt16 × Letter)
  | .pubrec mid _ => some (mid, .got)
  | .pubcomp mid => some (mid, .done)
  | _ => none

/-- The QoS 2 messages given to on_message, newest first. -/
def deliveries (t : List Event) : List Message :=
  t.filterMap (fun
    | .onMessage msg => if msg.qos = 2 then some msg else none
    | _ => none)

structure Inb where
  stored : List Message
  delivered : List Message
  acks : List (UInt16 × Letter)

def inb (m : Mosq) : Inb := ⟨m.msgsIn.inflight, deliveries m.trace, (unwritten m).filterMap ackOf⟩

/-- The QoS 2 messages that a step has given to on_message. -/
def newDeliveries (m' m : Mosq) : List Message :=
  (deliveries m'.trace).take ((deliveries m'.trace).length - (deliveries m.trace).length)

theorem newDeliveries_append {m m' : Mosq} {d : List Message} (h : (inb m').delivered = d ++ (inb m).delivered) :
    newDeliveries m' m = d := by
  have h : deliveries m'.trace = d ++ deliveries m.trace := h
  simp [newDeliveries, h]

theorem unwritten_packetQueue (m : Mosq) (p : Packet) : unwritten (packetQueue m p) = unwritten m ++ [p] := by
  simp [unwritten, packetQueue]

section Frames

variable (alloc : Alloc) (m : Mosq)

/-! ### Functions that leave it alone -/

@[simp] theorem inb_onConnect (r : UInt8) : inb (m.emit (.onConnect r)) = inb m := rfl
@[simp] theorem inb_onDisconnect : inb (m.emit .onDisconnect) = inb m := rfl
@[simp] theorem inb_setState (c : ClientState) : inb (m.setState c) = inb m := rfl
@[simp] theorem inb_msgsOut (d : MsgData) : inb { m with msgsOut := d } = inb m := rfl
@[simp] theorem inb_pingT (b : Bool) : inb { m with pingT := b } = inb m := rfl
@[simp] theorem inb_id (b : Option Bytes) : inb { m with id := b } = inb m := rfl
@[simp] theorem inb_midGenerate : inb (midGenerate m).1 = inb m := rfl
@[simp] theorem inb_published (n : Nat) : inb { m with published := n } = inb m := rfl
@[simp] theorem inb_incrementSendQuota : inb (incrementSendQuota m) = inb m := rfl
@[simp] theorem inb_decrementSendQuota : inb (decrementSendQuota m) = inb m := rfl
@[simp] theorem inb_connackLimits (l : List MosquittoProperty) : inb (connackLimits m l) = inb m := rfl
@[simp] theorem inb_completeMessage (d : MsgData) (mid : UInt16) : inb (completeMessage m d mid) = inb m := rfl
@[simp] theorem inb_endConnection : inb (endConnection m) = inb m := rfl

@[simp] theorem inb_incrementReceiveQuota : inb (incrementReceiveQuota m) = inb m := by
  simp only [inb, incrementReceiveQuota, MsgData.incrementQuota]
  split <;> rfl

@[simp] theorem inb_decrementReceiveQuota : inb (decrementReceiveQuota m) = inb m := by
  simp only [inb, decrementReceiveQuota, MsgData.decrementQuota]
  split <;> rfl

theorem inb_packetQueue (p : Packet) :
    inb (packetQueue m p) = { inb m with acks := (inb m).acks ++ (ackOf p).toList } := by
  simp only [inb, unwritten_packetQueue, List.filterMap_append]
  cases h : ackOf p <;> simp [packetQueue, deliveries, h]

theorem sendPacket_small {n : Nat} (hn : n < 268435456) (p : Packet) :
    sendPacket alloc m n p = if alloc p then (packetQueue m p, .success) else (m, .nomem) := by
  unfold sendPacket packetAlloc
  rw [if_neg (by omega)]
  cases alloc p <;> rfl

theorem inb_sendPacket {p : Packet} (hp : ackOf p = none) (n : Nat) : inb (sendPacket alloc m n p).1 = inb m := by
  rcases sendPacket_cases alloc m n p with ⟨-, e⟩ | ⟨rc, -, e⟩
  · simp [e, inb_packetQueue, hp]
  · rw [e]

/-- An acknowledgement is queued, if there is memory for it. -/
theorem inb_sendAck {p : Packet} {x : UInt16 × Letter} (hp : ackOf p = some x) :
    inb (sendPacket alloc m 2 p).1 = { inb m with acks := (inb m).acks ++ if alloc p then [x] else [] } := by
  rw [sendPacket_small alloc m (by decide)]
  cases alloc p with
  | false => simp
  | true => simp [inb_packetQueue, hp]

theorem inb_msgsIn (d : MsgData) : inb { m with msgsIn := d } = { inb m with stored := d.inflight } := rfl

theorem inb_messageQueueIn (msg : Message) :
    inb (messageQueueIn m msg) = { inb m with stored := (inb m).stored ++ [msg] } := rfl

theorem inb_deliver {msg : Message} (h : msg.qos = 2) :
    inb (m.emit (.onMessage msg)) = { inb m with delivered := msg :: (inb m).delivered } := by
  simp [inb, Mosq.emit, deliveries, h, unwritten]

@[simp] theorem inb_sendPuback (mid : UInt16) (r : UInt8) : inb (sendPuback alloc m mid r).1 = inb m := by
  simp [sendPuback, sendCommandWithMid, inb_sendPacket alloc _ (p := .puback mid r) rfl]

@[simp] theorem inb_sendPubrel (mid : UInt16) : inb (sendPubrel alloc m mid).1 = inb m :=
  inb_sendPacket alloc m rfl _

@[simp] theorem inb_sendPingresp : inb (sendPingresp alloc m).1 = inb m := inb_sendPacket alloc m rfl _

@[simp] theorem inb_sendPublish (msg : Message) : inb (sendPublish alloc m msg).1 = inb m := by
  cases hc : canPublish alloc m msg with
  | true => rw [sendPublish_ok hc, inb_packetQueue]; simp [publishPacket, ackOf]
  | false =>
    obtain ⟨rc, -, e⟩ := sendPublish_fail hc
    rw [e]

@[simp] theorem inb_releaseLoop (l : List Message) : inb (releaseLoop alloc m l).1 = inb m := by
  induction l generalizing m with
  | nil => rfl
  | cons cur rest ih =>
    rcases Nat.eq_zero_or_pos m.msgsOut.inflightQuota with hq | hq
    · rw [releaseLoop_full _ hq]
    by_cases h : cur.qos > 0 ∧ cur.state = .invalid
    · cases hc : canPublish alloc m cur.released with
      | true =>
        rw [releaseLoop_send hq h hc, ih, inb_decrementSendQuota, inb_packetQueue]
        simp [publishPacket, ackOf]
      | false =>
        obtain ⟨rc, -, e⟩ := releaseLoop_fail rest hq h hc
        rw [e]
    · rw [releaseLoop_keep hq h]
      exact ih m

@[simp] theorem inb_messageReleaseToInflight : inb (messageReleaseToInflight alloc m).1 = inb m := by
  simp [messageReleaseToInflight]

@[simp] theorem inb_messageQueueOut (msg : Message) : inb (messageQueueOut alloc m msg).1 = inb m := by
  simp [messageQueueOut]

/-- No message out is ever in the state in which `message__retry_check` would send a PUBREC. -/
theorem inb_retryLoop {l : List Message} (h : StoreOk l) : inb (retryLoop alloc m l).1 = inb m := by
  induction l generalizing m with
  | nil => rfl
  | cons msg rest ih =>
    obtain ⟨hmsg, hrest⟩ := storeOk_cons.mp h
    unfold retryLoop
    split
    · simp [ih _ hrest]
    · simp [ih _ hrest]
    · rename_i hs
      simp [OutOk, hs] at hmsg
    · simp [ih _ hrest]
    · simp [ih _ hrest]
    · exact ih m hrest

theorem inb_messageRetryCheck (h : StoreOk m.msgsOut.inflight) : inb (messageRetryCheck alloc m) = inb m := by
  simp [messageRetryCheck, inb_retryLoop alloc m h]

@[simp] theorem inb_acknowledge (mid : UInt16) (qos : Nat) : inb (acknowledge alloc m mid qos).1 = inb m := by
  unfold acknowledge
  split <;> simp

@[simp] theorem inb_receiveMessage (mid : UInt16) : inb (receiveMessage alloc m mid).1 = inb m := by
  unfold receiveMessage
  split <;> simp

@[simp] theorem inb_refuseMessage (mid : UInt16) : inb (refuseMessage alloc m mid).1 = inb m := by
  unfold refuseMessage
  split <;> simp

@[simp] theorem inb_mosquittoPublishV5 (a : PublishArgs) : inb (mosquittoPublishV5 alloc m a).1 = inb m := by
  unfold mosquittoPublishV5
  dsimp only
  repeat' split
  all_goals simp

@[simp] theorem inb_handlePubackcomp (type : Ack) (mid : Except Rc UInt16) (tail : Except Rc UInt8) :
    inb (handlePubackcomp alloc m type mid tail).1 = inb m := by
  unfold handlePubackcomp
  repeat' split
  all_goals simp

@[simp] theorem inb_handlePubrec (mid : Except Rc UInt16) (tail : Except Rc UInt8) :
    inb (handlePubrec alloc m mid tail).1 = inb m := by
  unfold handlePubrec
  repeat' split
  all_goals simp

@[simp] theorem inb_handleConnack (flags reason : Except Rc UInt8) (l : Except Rc (List MosquittoProperty)) :
    inb (handleConnack m flags reason l).1 = inb m := by
  unfold handleConnack
  repeat' split
  all_goals simp

theorem inb_connackSwitch (reason : UInt8) (h : StoreOk m.msgsOut.inflight) :
    inb (connackSwitch alloc m reason).1 = inb m := by
  unfold connackSwitch
  split
  · dsimp only
    split
    · rw [inb_messageRetryCheck alloc _ (by exact h), inb_setState]
    · exact inb_messageRetryCheck alloc _ h
  · split <;> rfl

end Frames

/-! ## What a packet does -/

/-- `m'` is `m` with perhaps less stored, and fewer acknowledgements to write. -/
structure Loses (m' m : Mosq) : Prop where
  stored : (inb m').stored.Sublist (inb m).stored
  delivered : (inb m').delivered = (inb m).delivered
  acks : (inb m').acks.Sublist (inb m).acks

theorem Loses.of_eq {m m' : Mosq} (h : inb m' = inb m) : Loses m' m :=
  ⟨by rw [h], by rw [h], by rw [h]⟩

theorem Loses.trans {m m' m'' : Mosq} (h' : Loses m'' m') (h : Loses m' m) : Loses m'' m :=
  ⟨h'.stored.trans h.stored, h'.delivered.trans h.delivered, h'.acks.trans h.acks⟩

section Reading

variable {alloc : Alloc} {m : Mosq}

/-- The end of a handler does not touch what counts. -/
theorem inb_receive {p : InPacket} (h : StoreOk m.msgsOut.inflight) :
    inb (receive alloc m p) = inb (handlePacket alloc m p).1 := by
  have hs := storeOk_handlePacket alloc m p h
  unfold receive
  dsimp only
  split
  · split
    · rfl
    · simp
  · split
    · exact inb_connackSwitch alloc _ _ hs
    · rw [inb_endConnection, inb_connackSwitch alloc _ _ hs]
  · simp
  · simp

theorem storeOk_receive {p : InPacket} (h : StoreOk m.msgsOut.inflight) :
    StoreOk (receive alloc m p).msgsOut.inflight := by
  have hs := storeOk_handlePacket alloc m p h
  unfold receive
  dsimp only
  split
  · split
    · exact hs
    · exact hs
  · have hc := fun r => storeOk_connackSwitch alloc _ r hs
    split
    · exact hc _
    · exact hc _
  · exact hs
  · exact hs

/-- A QoS 2 PUBLISH that is accepted is stored, and answered if there is memory. -/
theorem inb_receive_publish (alloc : Alloc) {p : PublishIn} {msg : Message} (h : StoreOk m.msgsOut.inflight)
    (hr : readPublish m p = .ok msg) (hq : p.qos = 2) :
    inb (receive alloc m (.publish p)) =
      ⟨(inb m).stored ++ [{ msg with state := .waitForPubrel }], (inb m).delivered,
        (inb m).acks ++ if alloc (.pubrec msg.mid 0) then [(msg.mid, .got)] else []⟩ := by
  have hmq : msg.qos = 2 := (readPublish_ok hr).1.trans hq
  rw [inb_receive h]
  have hs : sendPubrec alloc (decrementReceiveQuota m) msg.mid 0 =
      sendPacket alloc (decrementReceiveQuota m) 2 (.pubrec msg.mid 0) := by simp [sendPubrec, sendCommandWithMid]
  simp only [handlePacket, handlePublish, hr, acceptPublish, hmq, hs, inb_messageQueueIn]
  rw [inb_sendAck alloc _ (x := (msg.mid, .got)) rfl, inb_decrementReceiveQuota]

/-- Any other PUBLISH is none of its business. -/
theorem inb_receive_refused {p : PublishIn} (h : StoreOk m.msgsOut.inflight)
    (hr : p.qos ≠ 2 ∨ ∃ rc, readPublish m p = .error rc) : inb (receive alloc m (.publish p)) = inb m := by
  rw [inb_receive h]
  simp only [handlePacket, handlePublish]
  split
  · rfl
  · rename_i msg hm
    have hq : p.qos ≠ 2 := by
      rcases hr with hr | ⟨rc, hr⟩
      · exact hr
      · simp [hr] at hm
    have hmq := (readPublish_ok hm).1
    have hmsg : ∀ m' : Mosq, msg.qos ≠ 2 → inb (m'.emit (.onMessage msg)) = inb m' := by
      intro m' hne
      simp [inb, Mosq.emit, deliveries, hne, unwritten]
    unfold acceptPublish
    split
    · exact hmsg _ (by omega)
    · rw [hmsg _ (by omega)]
      simp
    · omega
    · rfl

theorem readPubrel_ok {flags : UInt8} {mid : Except Rc UInt16} {tail : Except Rc UInt8} {i : UInt16}
    (h : readPubrel m flags mid tail = .ok i) : mid = .ok i := by
  unfold readPubrel at h
  split at h
  · cases h
  split at h
  · cases h
  split at h
  · cases h
  rename_i j r hj
  cases h
  unfold readAck at hj
  split at hj
  · cases hj
  split at hj
  · cases hj
  split at hj
  · cases hj
  cases hj
  rfl

/-- A store of QoS 2 messages gives up the first one with the packet id. -/
theorem messageRemove_all {d : MsgData} (h : ∀ e ∈ d.inflight, e.qos = 2) (i : UInt16) :
    messageRemove d i 2 = match d.inflight.find? (·.mid = i) with
      | none => .error .notFound
      | some msg => .ok (msg, { d with inflight := d.inflight.eraseP (·.mid = i),
                                       queueLen := d.queueLen - 1 }) := by
  unfold messageRemove
  cases hf : d.inflight.find? (·.mid = i) with
  | none => rfl
  | some msg => simp [h msg (List.mem_of_find?_eq_some hf)]

/-- A PUBREL takes the first entry with its packet id out of the store; it is delivered if the PUBCOMP
    can be queued. -/
theorem inb_receive_pubrel (alloc : Alloc) {flags : UInt8} {mid : Except Rc UInt16} {tail : Except Rc UInt8}
    {i : UInt16}
    (h : StoreOk m.msgsOut.inflight) (h2 : ∀ e ∈ m.msgsIn.inflight, e.qos = 2)
    (hr : readPubrel m flags mid tail = .ok i) :
    inb (receive alloc m (.pubrel flags mid tail)) =
      ⟨(inb m).stored.eraseP (·.mid = i),
        (if alloc (.pubcomp i) then ((inb m).stored.find? (·.mid = i)).toList else []) ++ (inb m).delivered,
        (inb m).acks ++ if alloc (.pubcomp i) then [(i, .done)] else []⟩ := by
  rw [inb_receive h]
  have hs : sendPubcomp alloc m i = sendPacket alloc (incrementReceiveQuota m) 2 (.pubcomp i) := by
    simp [sendPubcomp, sendCommandWithMid]
  have hi := inb_sendAck alloc (incrementReceiveQuota m) (p := .pubcomp i) (x := (i, .done)) rfl
  rw [inb_incrementReceiveQuota, ← hs] at hi
  have hst : (sendPubcomp alloc m i).1.msgsIn.inflight = m.msgsIn.inflight := congrArg Inb.stored hi
  have hrc : (sendPubcomp alloc m i).2 = if alloc (.pubcomp i) then .success else .nomem := by
    rw [hs, sendPacket_small alloc _ (by decide)]
    split <;> rfl
  simp only [handlePacket, handlePubrel, hr, releaseMessage]
  rw [messageRemove_all (by rw [hst]; exact h2), hst]
  have hfind : m.msgsIn.inflight.find? (·.mid = i) = (inb m).stored.find? (·.mid = i) := rfl
  rw [hfind]
  cases hf : (inb m).stored.find? (·.mid = i) with
  | none =>
    have he : (inb m).stored.eraseP (·.mid = i) = (inb m).stored := by
      apply List.eraseP_of_forall_not
      simpa using List.find?_eq_none.mp hf
    rw [he]
    cases ha : alloc (.pubcomp i) <;> simp [hrc, hi, ha]
  | some msg =>
    have hq : msg.qos = 2 := h2 msg (List.mem_of_find?_eq_some hf)
    cases ha : alloc (.pubcomp i) with
    | false =>
      simp only [hrc, ha, Bool.false_eq_true, if_false, reduceCtorEq, inb_msgsIn, hi]
      rfl
    | true =>
      simp only [hrc, ha, if_true, inb_deliver _ hq, inb_msgsIn, hi]
      rfl

/-- A PUBREL that cannot be read is none of its business. -/
theorem inb_receive_unread {flags : UInt8} {mid : Except Rc UInt16} {tail : Except Rc UInt8} {rc : Rc}
    (h : StoreOk m.msgsOut.inflight) (hr : readPubrel m flags mid tail = .error rc) :
    inb (receive alloc m (.pubrel flags mid tail)) = inb m := by
  rw [inb_receive h]
  simp [handlePacket, handlePubrel, hr]

/-- The PUBLISH and PUBREL packets of QoS 2. -/
def ofQos2 : InPacket → Bool
  | .publish p => p.qos = 2
  | .pubrel .. => true
  | _ => false

theorem loses_doClientDisconnect : Loses (doClientDisconnect m) m where
  stored := List.Sublist.refl _
  delivered := rfl
  acks := by
    refine List.Sublist.filterMap _ ?_
    have h : unwritten (doClientDisconnect m) = m.outPacket := unwritten_nextPacket m
    rw [h]
    exact List.sublist_append_right _ _

/-- The other packets cost at most the packet that a DISCONNECT finds half written. -/
theorem loses_receive {p : InPacket} (h : StoreOk m.msgsOut.inflight) (hp : ofQos2 p = false) :
    Loses (receive alloc m p) m := by
  cases p with
  | publish p => exact .of_eq (inb_receive_refused h (.inl (by simpa [ofQos2] using hp)))
  | pubrel flags mid tail => simp [ofQos2] at hp
  | disconnect reason tail =>
    refine .trans (.of_eq (inb_receive h)) ?_
    simp only [handlePacket, handleDisconnect]
    repeat' split
    · exact .of_eq rfl
    · exact .of_eq rfl
    · exact .of_eq rfl
    · exact loses_doClientDisconnect
  | _ =>
    refine .trans (.of_eq (inb_receive h)) (.of_eq ?_)
    simp only [handlePacket]
    repeat' split
    all_goals simp

end Reading

/-! ## Reconnecting and writing -/

section Reconnecting

variable {m : Mosq} (env : RecEnv)

theorem loses_packetCleanupAll {m' : Mosq} (h : inb m' = inb (packetCleanupAll m)) : Loses m' m :=
  .trans (.of_eq h) ⟨List.Sublist.refl _, rfl, List.nil_sublist _⟩

theorem inb_adoptReceiveMaximum (l : List MosquittoProperty) : inb (adoptReceiveMaximum m l) = inb m := by
  obtain ⟨maximum, quota, e⟩ := adoptReceiveMaximum_eq m l
  rw [e]
  rfl

theorem inb_sendConnect (alloc : Alloc) (l : List MosquittoProperty) : inb (sendConnect alloc m l).1 = inb m := by
  unfold sendConnect
  split
  · rfl
  · dsimp only
    split
    · exact inb_adoptReceiveMaximum l
    · rw [inb_sendPacket alloc _ rfl]
      exact inb_adoptReceiveMaximum l

/-- The reset keeps every QoS 2 message. -/
theorem inb_messageReconnectReset (h2 : ∀ e ∈ m.msgsIn.inflight, e.qos = 2) :
    inb (messageReconnectReset m) = inb m := by
  have : m.msgsIn.inflight.filter (·.qos = 2) = m.msgsIn.inflight := List.filter_eq_self.mpr (by simpa using h2)
  simp [inb, messageReconnectReset, resetIn, this, unwritten]

theorem loses_reconnectStep (l : List MosquittoProperty) (pc : RecPc) (h2 : ∀ e ∈ m.msgsIn.inflight, e.qos = 2) :
    Loses (reconnectStep env l m pc).1 m := by
  cases pc with
  | start =>
    simp only [reconnectStep]
    repeat' split
    · exact .of_eq rfl
    · exact .of_eq rfl
    · exact .of_eq rfl
    · exact loses_packetCleanupAll rfl
  | reset => exact .of_eq (inb_messageReconnectReset h2)
  | connect =>
    simp only [reconnectStep]
    repeat' split
    all_goals exact .of_eq rfl
  | sendConnect =>
    simp only [reconnectStep]
    split
    all_goals exact .of_eq (inb_sendConnect _ _)
  | failed rc => exact loses_packetCleanupAll rfl
  | _ => exact .of_eq rfl

/-- A reconnect keeps what is stored; what was not written is lost. -/
theorem loses_mosquittoReconnect (l : List MosquittoProperty) (h2 : ∀ e ∈ m.msgsIn.inflight, e.qos = 2) :
    Loses (mosquittoReconnect env l m) m :=
  mosquittoReconnect_inv (P := (Loses · m)) env l (.of_eq rfl) (fun _ pc h =>
    (loses_reconnectStep env l pc (fun e he => h2 e (h.stored.subset he))).trans h)

theorem inb_setupMosquitto (c : ConnectConfig) : inb (setupMosquitto m c) = inb m := by
  obtain ⟨username, password, e⟩ := setupMosquitto_eq m c
  rw [e]
  unfold inb
  dsimp only
  split <;> rfl

theorem inb_connectBind (c : ConnectConfig) : inb (connectBind env m c).1 = inb m := by
  rcases connectBind_cases m env c with ⟨e, -⟩ | ⟨id, e⟩
  · rw [e]
  · rw [e]
    rfl

theorem loses_connectAgain (c : ConnectConfig) (h2 : ∀ e ∈ m.msgsIn.inflight, e.qos = 2) :
    Loses (connectAgain env c m) m := by
  have hb : inb (connectBind env (setupMosquitto m c) c).1 = inb m := by rw [inb_connectBind, inb_setupMosquitto]
  unfold connectAgain
  dsimp only
  split
  · refine .trans (loses_mosquittoReconnect env _ ?_) (.of_eq hb)
    have hst : (connectBind env (setupMosquitto m c) c).1.msgsIn.inflight = m.msgsIn.inflight :=
      congrArg Inb.stored hb
    simpa [Mosq.setState, hst] using h2
  · exact .of_eq hb

theorem storeOk_mosquittoReconnect (l : List MosquittoProperty) (h : StoreOk m.msgsOut.inflight) :
    StoreOk (mosquittoReconnect env l m).msgsOut.inflight :=
  mosquittoReconnect_inv (P := (StoreOk ·.msgsOut.inflight)) env l h
    (fun m' pc h => storeOk_reconnectStep m' env l pc h)

theorem storeOk_connectAgain (c : ConnectConfig) (h : StoreOk m.msgsOut.inflight) :
    StoreOk (connectAgain env c m).msgsOut.inflight := by
  have hb : (connectBind env (setupMosquitto m c) c).1.msgsOut.inflight = m.msgsOut.inflight := by
    rw [inflight_connectBind, inflight_setupMosquitto]
  unfold connectAgain
  dsimp only
  split
  · exact storeOk_mosquittoReconnect env _ (by simpa [hb] using h)
  · rw [hb]
    exact h

end Reconnecting

section Writing

variable (m : Mosq)

def nextWritten (m : Mosq) : Option Packet :=
  if m.sock = none ∨ m.state = .connectPending then none else (unwritten m).head?

/-- One packet goes out whole; a DISCONNECT ends the connection. -/
def writeOne (m : Mosq) : Mosq :=
  match packetWrite .success 1 m with
  | (m, .done _) => m
  | (m, .disconnect) => m.emit .onDisconnect

theorem packetWriteLoop_zero (stop : Rc) : (packetWriteLoop stop 0 m).1 = m := by
  unfold packetWriteLoop
  split <;> rfl

theorem packetWriteLoop_one {p : Packet} (h : m.currentOutPacket = some p) :
    (packetWriteLoop .success 1 m).1.msgsIn = m.msgsIn ∧
      deliveries (packetWriteLoop .success 1 m).1.trace = deliveries m.trace ∧
      unwritten (packetWriteLoop .success 1 m).1 = m.outPacket := by
  unfold packetWriteLoop
  split
  · rename_i e
    simp [h] at e
  · exact ⟨rfl, rfl, unwritten_nextPacket m⟩
  · rw [packetWriteLoop_zero]
    split
    · exact ⟨rfl, rfl, unwritten_nextPacket m⟩
    · exact ⟨rfl, rfl, unwritten_nextPacket m⟩

theorem msgsOut_writeOne : (writeOne m).msgsOut = m.msgsOut := by
  have h := msgsOut_packetWrite m .success 1
  unfold writeOne
  split
  · rename_i e
    rw [e] at h
    exact h
  · rename_i e
    rw [e] at h
    exact h

theorem inb_writeOne_eq : inb (writeOne m) = inb (packetWrite .success 1 m).1 := by
  unfold writeOne
  split
  · rename_i e
    rw [e]
  · rename_i e
    rw [e]
    rfl

/-- What is written was the first of what is to be written; nothing else changes. -/
theorem inb_writeOne :
    (inb (writeOne m)).stored = (inb m).stored ∧ (inb (writeOne m)).delivered = (inb m).delivered ∧
      (inb m).acks = (nextWritten m).toList.filterMap ackOf ++ (inb (writeOne m)).acks := by
  obtain ⟨hin, htr, hst⟩ := takeNext_frame m
  have hu := unwritten_takeNext m
  rw [inb_writeOne_eq]
  unfold packetWrite
  simp only [inb, nextWritten]
  by_cases hs : m.sock = none
  · simp [hs]
  by_cases hp : m.state = .connectPending
  · simp [hs, hst, hp, hin, htr, hu]
  cases hc : (takeNext m).currentOutPacket with
  | none =>
    have ho : (takeNext m).outPacket = [] := takeNext_current m hc
    have hl : packetWriteLoop .success 1 (takeNext m) = (takeNext m, .done .success) := by
      simp [packetWriteLoop, hc]
    have hn : unwritten m = [] := by rw [← hu, unwritten, hc, ho]; rfl
    simp [hs, hst, hp, hl, hin, htr, hu, hn]
  | some p =>
    obtain ⟨h1, h2, h3⟩ := packetWriteLoop_one (takeNext m) hc
    have hn : unwritten m = p :: (takeNext m).outPacket := by rw [← hu, unwritten, hc]; rfl
    simp [hs, hst, hp, h1, h2, h3, hin, htr, hn, ← List.filterMap_append]

end Writing

end Artemisia.Inbound
