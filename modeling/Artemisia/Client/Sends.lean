/-
  Artemisia.Client.Sends — what the send functions and the handlers of packets have in common.

  They put packets at the end of the queue and leave the settings alone. A message out only leaves the store when
  an acknowledgement completes it, and that is when on_publish is called; of its content nothing changes.

  Proved:
  - `sends_handlePacket`:  the handler of a packet other than CONNACK and DISCONNECT sends, and completes `acked`.
  - `sends_connackSwitch`: so does the end of `handle__connack`; it completes nothing.
  - `publish_cases`:       a publish call draws a packet id, then sends or stores and sends; or it
                           changes nothing.
  - `takes_packetWrite`:   what is written leaves the queue from its front, and on_publish is called for what is
                           complete with that.
-/
import Artemisia.Client.Quota

namespace Artemisia.Client

open Artemisia.Property

/-! ## What is compared -/

/-- What no send function and no handler changes, that of CONNACK apart. -/
structure Settings where
  protocol : Protocol
  id : Option Bytes
  username : Option Bytes
  password : Option Bytes
  will : Option Will
  keepalive : Nat
  lastMid : UInt16
  maximumPacketSize : Nat
  maximumQos : Nat
  cleanStart : Bool
  host : Option Bytes
  port : Int
  inMaximum : Nat
  outMaximum : Nat

def Mosq.settings (m : Mosq) : Settings where
  protocol := m.protocol
  id := m.id
  username := m.username
  password := m.password
  will := m.will
  keepalive := m.keepalive
  lastMid := m.lastMid
  maximumPacketSize := m.maximumPacketSize
  maximumQos := m.maximumQos
  cleanStart := m.cleanStart
  host := m.host
  port := m.port
  inMaximum := m.msgsIn.inflightMaximum
  outMaximum := m.msgsOut.inflightMaximum

def Message.said (e : Message) : Message := { e with state := .invalid, dup := false, sentOn := none }

/-- What the messages out say. -/
def Mosq.contents (m : Mosq) : List Message := m.msgsOut.inflight.map Message.said

/-- The packet ids that on_publish has been called with, newest first. -/
def Mosq.fired (m : Mosq) : List UInt16 := m.trace.filterMap fun
  | .onPublish mid => some mid
  | _ => none

/-- The packet ids drawn, the packets to be written and the packet ids that on_publish has been called with. -/
structure Ledger where
  lastMid : UInt16
  queue : List Packet
  fired : List UInt16

def Mosq.ledger (m : Mosq) : Ledger := ⟨m.lastMid, unwritten m, m.fired⟩

/-- Neither a CONNECT nor a PUBLISH that is complete once it is written. -/
def Packet.ordinary : Packet → Bool
  | .connect _ => false
  | .publish _ _ _ qos _ _ _ => qos ≠ 0
  | _ => true

/-- A store without the message that an acknowledgement completes. -/
def without (acked : Option UInt16) (l : List Message) : List Message :=
  match acked with
  | none => l
  | some mid => l.eraseP (·.mid = mid)

structure Sends (acked : Option UInt16) (m m' : Mosq) : Prop where
  settings : m'.settings = m.settings
  current : m'.currentOutPacket = m.currentOutPacket
  queue : ∃ l, m'.outPacket = m.outPacket ++ l ∧ ∀ p ∈ l, p.ordinary = true
  contents : m'.contents = without acked m.contents
  fired : m'.fired = acked.toList ++ m.fired

section Rules

variable {acked : Option UInt16} {m m' m'' : Mosq}

/-- Nothing that is compared has changed. -/
theorem Sends.same (hs : m'.settings = m.settings) (hc : m'.currentOutPacket = m.currentOutPacket)
    (hq : m'.outPacket = m.outPacket) (hm : m'.contents = m.contents) (hf : m'.fired = m.fired) :
    Sends none m m' :=
  ⟨hs, hc, ⟨[], by simp [hq], by simp⟩, hm, hf⟩

theorem Sends.refl (m : Mosq) : Sends none m m := .same rfl rfl rfl rfl rfl

theorem Sends.trans (h : Sends none m m') (h' : Sends acked m' m'') : Sends acked m m'' := by
  obtain ⟨l, hl, hp⟩ := h.queue
  obtain ⟨l', hl', hp'⟩ := h'.queue
  refine ⟨h'.settings.trans h.settings, h'.current.trans h.current, ⟨l ++ l', ?_, ?_⟩, ?_, ?_⟩
  · rw [hl', hl, List.append_assoc]
  · intro p hmem
    rcases List.mem_append.mp hmem with hmem | hmem
    · exact hp p hmem
    · exact hp' p hmem
  · rw [h'.contents, h.contents]
    rfl
  · rw [h'.fired, h.fired]
    rfl

/-- What comes after an acknowledgement completes nothing more. -/
theorem Sends.andThen (h : Sends acked m m') (h' : Sends none m' m'') : Sends acked m m'' := by
  obtain ⟨l, hl, hp⟩ := h.queue
  obtain ⟨l', hl', hp'⟩ := h'.queue
  refine ⟨h'.settings.trans h.settings, h'.current.trans h.current, ⟨l ++ l', ?_, ?_⟩, ?_, ?_⟩
  · rw [hl', hl, List.append_assoc]
  · intro p hmem
    rcases List.mem_append.mp hmem with hmem | hmem
    · exact hp p hmem
    · exact hp' p hmem
  · exact h'.contents.trans h.contents
  · exact h'.fired.trans h.fired

theorem unwritten_append {l : List Packet} (hc : m'.currentOutPacket = m.currentOutPacket)
    (ho : m'.outPacket = m.outPacket ++ l) : unwritten m' = unwritten m ++ l := by
  rw [unwritten, hc, ho, ← List.append_assoc]
  rfl

theorem Sends.unwritten (h : Sends acked m m') : ∃ l, unwritten m' = unwritten m ++ l ∧
    ∀ p ∈ l, p.ordinary = true := by
  obtain ⟨l, hl, hp⟩ := h.queue
  exact ⟨l, unwritten_append h.current hl, hp⟩

theorem contents_of_inflight (h : m'.msgsOut.inflight = m.msgsOut.inflight) : m'.contents = m.contents := by
  rw [Mosq.contents, h, Mosq.contents]

end Rules

variable (alloc : Alloc) (m : Mosq)

/-! ## The send functions -/

theorem sends_packetQueue {p : Packet} (h : p.ordinary = true) : Sends none m (packetQueue m p) :=
  ⟨rfl, rfl, ⟨[p], rfl, by simpa using h⟩, rfl, rfl⟩

theorem sends_sendPacket (n : Nat) {p : Packet} (h : p.ordinary = true) :
    Sends none m (sendPacket alloc m n p).1 := by
  unfold sendPacket
  split
  · exact sends_packetQueue m h
  · exact .refl m

/-- The messages in are nothing that is compared, but for their maximum. -/
theorem sends_msgsIn {d : MsgData} (h : d.inflightMaximum = m.msgsIn.inflightMaximum) :
    Sends none m { m with msgsIn := d } := by
  refine .same ?_ rfl rfl rfl rfl
  show { m.settings with inMaximum := d.inflightMaximum } = m.settings
  rw [h]
  rfl

theorem sends_incrementReceiveQuota : Sends none m (incrementReceiveQuota m) := by
  unfold incrementReceiveQuota MsgData.incrementQuota
  split
  · exact .same rfl rfl rfl rfl rfl
  · exact .same rfl rfl rfl rfl rfl

theorem sends_decrementReceiveQuota : Sends none m (decrementReceiveQuota m) := by
  unfold decrementReceiveQuota MsgData.decrementQuota
  split
  · exact .same rfl rfl rfl rfl rfl
  · exact .same rfl rfl rfl rfl rfl

theorem sends_incrementSendQuota : Sends none m (incrementSendQuota m) := by
  unfold incrementSendQuota MsgData.incrementQuota
  split
  · exact .same rfl rfl rfl rfl rfl
  · exact .same rfl rfl rfl rfl rfl

theorem sends_decrementSendQuota : Sends none m (decrementSendQuota m) := by
  unfold decrementSendQuota MsgData.decrementQuota
  split
  · exact .same rfl rfl rfl rfl rfl
  · exact .same rfl rfl rfl rfl rfl

theorem sends_sendPuback (mid : UInt16) (r : UInt8) : Sends none m (sendPuback alloc m mid r).1 :=
  (sends_incrementReceiveQuota m).trans (sends_sendPacket alloc _ _ rfl)

theorem sends_sendPubcomp (mid : UInt16) : Sends none m (sendPubcomp alloc m mid).1 :=
  (sends_incrementReceiveQuota m).trans (sends_sendPacket alloc _ _ rfl)

theorem sends_sendPubrec (mid : UInt16) (r : UInt8) : Sends none m (sendPubrec alloc m mid r).1 := by
  unfold sendPubrec
  dsimp only
  split
  · exact (sends_incrementReceiveQuota m).trans (sends_sendPacket alloc _ _ rfl)
  · exact sends_sendPacket alloc _ _ rfl

theorem sends_sendPubrel (mid : UInt16) : Sends none m (sendPubrel alloc m mid).1 :=
  sends_sendPacket alloc m _ rfl

theorem sends_sendPingresp : Sends none m (sendPingresp alloc m).1 := sends_sendPacket alloc m _ rfl

theorem sends_sendPingreq : Sends none m (sendPingreq alloc m).1 := by
  have h := sends_sendPacket alloc m 0 (p := .pingreq) rfl
  unfold sendPingreq sendSimpleCommand
  split
  · rename_i e
    rw [e] at h
    exact h.trans (.same rfl rfl rfl rfl rfl)
  · exact h

theorem sends_disconnectSend (r : UInt8) (l : List MosquittoProperty) :
    Sends none m (disconnectSend alloc m r l).1 := by
  unfold disconnectSend
  split
  · exact .refl m
  · exact sends_sendPacket alloc m _ rfl

theorem sends_sendPublish {msg : Message} (h : msg.qos ≠ 0) : Sends none m (sendPublish alloc m msg).1 := by
  cases hc : canPublish alloc m msg with
  | true =>
    rw [sendPublish_ok hc]
    exact sends_packetQueue m (by simpa [publishPacket, Packet.ordinary] using h)
  | false =>
    obtain ⟨rc, -, e⟩ := sendPublish_fail hc
    rw [e]
    exact .refl m

/-! ## Release and retry -/

theorem sends_releaseLoop (l : List Message) :
    Sends none m (releaseLoop alloc m l).1 ∧
    (releaseLoop alloc m l).2.1.map Message.said = l.map Message.said := by
  induction l generalizing m with
  | nil => exact ⟨.refl m, rfl⟩
  | cons cur rest ih =>
    rcases Nat.eq_zero_or_pos m.msgsOut.inflightQuota with hq | hq
    · rw [releaseLoop_full _ hq]
      exact ⟨.refl m, rfl⟩
    by_cases hi : cur.qos > 0 ∧ cur.state = .invalid
    · cases hc : canPublish alloc m cur.released with
      | true =>
        have hne : cur.qos ≠ 0 := Nat.ne_of_gt hi.1
        have hqueued : Sends none m (packetQueue m (publishPacket m cur.released)) :=
          sends_packetQueue m (by simpa [publishPacket, Packet.ordinary, Message.released] using hne)
        obtain ⟨hs, hl⟩ := ih (decrementSendQuota (packetQueue m (publishPacket m cur.released)))
        rw [releaseLoop_send hq hi hc]
        refine ⟨hqueued.trans ((sends_decrementSendQuota _).trans hs), ?_⟩
        rw [List.map_cons, List.map_cons, hl]
        rfl
      | false =>
        obtain ⟨rc, -, e⟩ := releaseLoop_fail rest hq hi hc
        rw [e]
        exact ⟨.refl m, rfl⟩
    · obtain ⟨hs, hl⟩ := ih m
      rw [releaseLoop_keep hq hi]
      exact ⟨hs, by rw [List.map_cons, List.map_cons, hl]⟩

theorem sends_release : Sends none m (messageReleaseToInflight alloc m).1 := by
  obtain ⟨hs, hl⟩ := sends_releaseLoop alloc m m.msgsOut.inflight
  exact ⟨hs.settings, hs.current, hs.queue, hl, hs.fired⟩

theorem sends_retryLoop {l : List Message} (h : StoreOk l) :
    Sends none m (retryLoop alloc m l).1 ∧ (retryLoop alloc m l).2.map Message.said = l.map Message.said := by
  induction l generalizing m with
  | nil => exact ⟨.refl m, rfl⟩
  | cons msg rest ih =>
    obtain ⟨hmsg, hrest⟩ := storeOk_cons.mp h
    have hqos : msg.qos ≠ 0 := by
      rcases hmsg with ⟨hq, -⟩ | ⟨hq, -⟩
      · omega
      · omega
    have hpub : Sends none m (sendPublish alloc m { msg with dup := true }).1 := sends_sendPublish alloc m hqos
    unfold retryLoop
    split
    · obtain ⟨hs, hl⟩ := ih (sendPublish alloc m { msg with dup := true }).1 hrest
      refine ⟨hpub.trans hs, ?_⟩
      dsimp only
      rw [List.map_cons, List.map_cons, hl]
      split <;> rfl
    · obtain ⟨hs, hl⟩ := ih (sendPublish alloc m { msg with dup := true }).1 hrest
      refine ⟨hpub.trans hs, ?_⟩
      dsimp only
      rw [List.map_cons, List.map_cons, hl]
      split <;> rfl
    · obtain ⟨hs, hl⟩ := ih (sendPubrec alloc m msg.mid 0).1 hrest
      exact ⟨(sends_sendPubrec alloc m msg.mid 0).trans hs, by rw [List.map_cons, List.map_cons, hl]; rfl⟩
    · obtain ⟨hs, hl⟩ := ih (sendPubrel alloc m msg.mid).1 hrest
      exact ⟨(sends_sendPubrel alloc m msg.mid).trans hs, by rw [List.map_cons, List.map_cons, hl]; rfl⟩
    · obtain ⟨hs, hl⟩ := ih (sendPubrel alloc m msg.mid).1 hrest
      exact ⟨(sends_sendPubrel alloc m msg.mid).trans hs, by rw [List.map_cons, List.map_cons, hl]; rfl⟩
    · obtain ⟨hs, hl⟩ := ih m hrest
      exact ⟨hs, by rw [List.map_cons, List.map_cons, hl]⟩

theorem sends_retryCheck (h : StoreOk m.msgsOut.inflight) : Sends none m (messageRetryCheck alloc m) := by
  obtain ⟨hs, hl⟩ := sends_retryLoop alloc m h
  exact ⟨hs.settings, hs.current, hs.queue, hl, hs.fired⟩

theorem sends_connackSwitch (reason : UInt8) (h : StoreOk m.msgsOut.inflight) :
    Sends none m (connackSwitch alloc m reason).1 := by
  unfold connackSwitch
  split
  · dsimp only
    split
    · have hset : Sends none m (m.setState .active) := .same rfl rfl rfl rfl rfl
      exact hset.trans (sends_retryCheck alloc (m.setState .active) h)
    · exact sends_retryCheck alloc m h
  · split
    · exact .refl m
    · exact .refl m

/-! ## The handlers -/

theorem sends_acceptPublish (msg : Message) : Sends none m (acceptPublish alloc m msg).1 := by
  have hemit (m : Mosq) : Sends none m (m.emit (.onMessage msg)) := .same rfl rfl rfl rfl rfl
  unfold acceptPublish
  split
  · exact hemit m
  · exact (sends_decrementReceiveQuota m).trans ((sends_sendPuback alloc _ _ _).andThen (hemit _))
  · have hrec := (sends_decrementReceiveQuota m).trans
        (sends_sendPubrec alloc (decrementReceiveQuota m) msg.mid 0)
    exact hrec.andThen (.same rfl rfl rfl rfl rfl)
  · exact .refl m

theorem sends_handlePublish (p : PublishIn) : Sends none m (handlePublish alloc m p).1 := by
  unfold handlePublish
  split
  · exact .refl m
  · exact sends_acceptPublish alloc m _

theorem sends_handlePubrel (flags : UInt8) (mid : Except Rc UInt16) (tail : Except Rc UInt8) :
    Sends none m (handlePubrel alloc m flags mid tail).1 := by
  unfold handlePubrel
  split
  · exact .refl m
  · rename_i i _
    have h := sends_sendPubcomp alloc m i
    unfold releaseMessage
    dsimp only
    split
    · rename_i message d he
      obtain ⟨-, -, -, -, hmax⟩ := messageRemove_ok he
      have hin := h.andThen (sends_msgsIn _ hmax)
      split
      · exact hin.andThen (.same rfl rfl rfl rfl rfl)
      · exact hin
    · split
      · exact h
      · split
        · exact h
        · exact h

/-- The packet id of the message that an acknowledgement completes. -/
def acked (m : Mosq) : InPacket → Option UInt16
  | .pubackcomp type mid tail =>
    if m.state ≠ .active then none
    else match readAck m mid tail with
    | .error _ => none
    | .ok (mid, _) => match messageRemove m.msgsOut mid type.qos with
      | .ok _ => some mid
      | .error _ => none
  | .pubrec mid tail =>
    if m.state ≠ .active then none
    else match readAck m mid tail with
    | .error _ => none
    | .ok (mid, reasonCode) =>
      if reasonCode < 0x80 ∨ m.protocol ≠ .mqtt5 then none
      else match messageRemove m.msgsOut mid 2 with
      | .ok _ => some mid
      | .error _ => none
  | _ => none

theorem map_eraseP_said (mid : UInt16) (l : List Message) :
    (l.eraseP (·.mid = mid)).map Message.said = (l.map Message.said).eraseP (·.mid = mid) := by
  rw [List.eraseP_map]
  rfl

theorem sends_completeMessage {d : MsgData} {e : Message} {mid : UInt16} {qos : Nat}
    (h : messageRemove m.msgsOut mid qos = .ok (e, d)) : Sends (some mid) m (completeMessage m d mid) := by
  obtain ⟨-, -, hl, -, hmax⟩ := messageRemove_ok h
  refine ⟨?_, rfl, ⟨[], by simp [completeMessage, Mosq.emit], by simp⟩, ?_, rfl⟩
  · show { m.settings with outMaximum := d.inflightMaximum } = m.settings
    rw [hmax]
    rfl
  · show d.inflight.map Message.said = _
    rw [hl]
    exact map_eraseP_said mid _

theorem contents_setFirstState (mid : UInt16) (state : MsgState) (l : List Message) :
    (setFirstState mid state l).map Message.said = l.map Message.said := by
  induction l with
  | nil => rfl
  | cons msg rest ih =>
    unfold setFirstState
    split
    · rfl
    · rw [List.map_cons, List.map_cons, ih]

theorem sends_receiveMessage (mid : UInt16) : Sends none m (receiveMessage alloc m mid).1 := by
  unfold receiveMessage messageOutUpdate
  split
  · rename_i e
    split at e
    · cases e
    · split at e
      · cases e
      · cases e
        have hstate : Sends none m { m with msgsOut := { m.msgsOut with
            inflight := setFirstState mid .waitForPubcomp m.msgsOut.inflight } } :=
          .same rfl rfl rfl (contents_setFirstState ..) rfl
        exact hstate.trans (sends_sendPubrel alloc _ mid)
  · exact sends_sendPubrel alloc m mid
  · exact .refl m

theorem messageRemove_quota (mid : UInt16) (qos : Nat) :
    (∀ e, messageRemove m.msgsOut mid qos = .error e ↔
    messageRemove (incrementSendQuota m).msgsOut mid qos = .error e) := by
  intro e
  unfold messageRemove
  rw [inflight_incrementSendQuota]
  split
  · rfl
  · split
    · rfl
    · simp

theorem sends_handlePubackcomp (type : Ack) (mid : Except Rc UInt16) (tail : Except Rc UInt8) :
    Sends (acked m (.pubackcomp type mid tail)) m (handlePubackcomp alloc m type mid tail).1 := by
  have hinc := sends_incrementSendQuota m
  unfold handlePubackcomp
  simp only [acked]
  by_cases hs : m.state = .active
  · rw [if_neg (not_not.mpr hs), if_neg (not_not.mpr hs)]
    cases hr : readAck m mid tail with
    | error rc => exact hinc
    | ok r =>
      dsimp only
      unfold acknowledge
      cases he : messageRemove (incrementSendQuota m).msgsOut r.1 type.qos with
      | error rc =>
        rw [(messageRemove_quota m r.1 type.qos rc).mpr he]
        cases rc with
        | notFound => exact hinc.trans (sends_release alloc _)
        | _ => exact hinc
      | ok x =>
        cases he' : messageRemove m.msgsOut r.1 type.qos with
        | error rc =>
          rw [(messageRemove_quota m r.1 type.qos rc).mp he'] at he
          cases he
        | ok y => exact hinc.trans ((sends_completeMessage _ he).andThen (sends_release alloc _))
  · rw [if_pos hs, if_pos hs]
    exact .refl m

theorem sends_handlePubrec (mid : Except Rc UInt16) (tail : Except Rc UInt8) :
    Sends (acked m (.pubrec mid tail)) m (handlePubrec alloc m mid tail).1 := by
  unfold handlePubrec
  simp only [acked]
  by_cases hs : m.state = .active
  · rw [if_neg (not_not.mpr hs), if_neg (not_not.mpr hs)]
    cases hr : readAck m mid tail with
    | error rc => exact .refl m
    | ok r =>
      dsimp only
      by_cases hc : r.2 < 0x80 ∨ m.protocol ≠ .mqtt5
      · rw [if_pos hc, if_pos hc]
        exact sends_receiveMessage alloc m r.1
      · rw [if_neg hc, if_neg hc]
        unfold refuseMessage
        cases he : messageRemove m.msgsOut r.1 2 with
        | error rc => exact (sends_incrementSendQuota m).trans (sends_release alloc _)
        | ok x =>
          refine (sends_completeMessage m he).andThen ?_
          exact (sends_incrementSendQuota _).trans (sends_release alloc _)
  · rw [if_pos hs, if_pos hs]
    exact .refl m

/-- The packets whose handlers only send. -/
def InPacket.sends : InPacket → Bool
  | .connack .. | .disconnect .. => false
  | _ => true

theorem sends_handlePacket {p : InPacket} (hp : p.sends = true) :
    Sends (acked m p) m (handlePacket alloc m p).1 := by
  cases p with
  | connack flags reason l => cases hp
  | disconnect reason tail => cases hp
  | pubackcomp type mid tail => exact sends_handlePubackcomp alloc m type mid tail
  | pubrec mid tail => exact sends_handlePubrec alloc m mid tail
  | publish p => exact sends_handlePublish alloc m p
  | pubrel flags mid tail => exact sends_handlePubrel alloc m flags mid tail
  | pingreq =>
    simp only [handlePacket, acked]
    split
    · exact .refl m
    · exact sends_sendPingresp alloc m
  | pingresp =>
    simp only [handlePacket, acked]
    split
    · exact .refl m
    · exact .same rfl rfl rfl rfl rfl
  | _ =>
    simp only [handlePacket, acked]
    repeat' split
    all_goals exact .refl m

/-! ## Publish calls -/

/-- The client once a publish call has drawn its packet id. -/
def drawn (m : Mosq) : Mosq := { (midGenerate m).1 with published := m.published + 1 }

/-- A publish call that is refused changes nothing. Another draws a packet id, and its message is sent at
    once if it is of QoS 0; else it goes to the end of the store, and what can be is sent. -/
theorem publish_cases (a : PublishArgs) (ha : (mosquittoPublishV5 alloc m a).2 ≠ .aborted) :
    (publishChecks m a ≠ .success ∧ (mosquittoPublishV5 alloc m a).1 = m) ∨
    (publishChecks m a = .success ∧ a.qos = 0 ∧
      (mosquittoPublishV5 alloc m a).1 = (sendPublish alloc (drawn m) (messageOf m a (midGenerate m).2)).1) ∨
    (publishChecks m a = .success ∧ a.qos ≠ 0 ∧ Sends none
      { drawn m with msgsOut := m.msgsOut.append (messageOf m a (midGenerate m).2) }
      (mosquittoPublishV5 alloc m a).1) := by
  cases hc : publishChecks m a with
  | success =>
    by_cases h0 : a.qos = 0
    · refine .inr (.inl ⟨rfl, h0, ?_⟩)
      simp only [mosquittoPublishV5, hc, h0, if_true, drawn]
    · have hcopies := copies_of_published hc h0 ha
      refine .inr (.inr ⟨rfl, h0, ?_⟩)
      simp only [mosquittoPublishV5, hc, h0, hcopies, if_false, if_true]
      exact sends_release alloc _
  | _ => exact .inl ⟨by simp, by simp only [mosquittoPublishV5, hc]⟩

/-! ## Writing -/

/-- The packet id that on_publish is called with once the packet is written. -/
def Packet.completes : Packet → Option UInt16
  | .publish mid _ _ 0 _ _ _ => some mid
  | _ => none

theorem completes_ordinary {p : Packet} (h : p.ordinary = true) : p.completes = none := by
  cases p with
  | publish mid topic payload qos retain dup properties =>
    cases qos with
    | zero => cases h
    | succ n => rfl
  | _ => rfl

theorem completes_other {p : Packet}
    (h : ∀ mid topic payload retain dup properties, p = .publish mid topic payload 0 retain dup properties →
    False) :
    p.completes = none := by
  unfold Packet.completes
  split
  · exact absurd rfl (h _ _ _ _ _ _)
  · rfl

/-- The first `k` packets have been written. -/
structure Takes (k : Nat) (m m' : Mosq) : Prop where
  settings : m'.settings = m.settings
  contents : m'.contents = m.contents
  queue : unwritten m' = (unwritten m).drop k
  fired : m'.fired = (((unwritten m).take k).filterMap Packet.completes).reverse ++ m.fired

theorem Takes.none {m m' : Mosq} (hs : m'.settings = m.settings) (hc : m'.contents = m.contents)
    (hq : unwritten m' = unwritten m) (hf : m'.fired = m.fired) : Takes 0 m m' := ⟨hs, hc, hq, hf⟩

theorem takes_doClientDisconnect {r : UInt8} {l : List MosquittoProperty}
    (h : m.currentOutPacket = some (.disconnect r l)) :
    Takes 1 m (doClientDisconnect m) := by
  have hu : unwritten m = .disconnect r l :: m.outPacket := by simp [unwritten, h]
  refine ⟨rfl, rfl, ?_, ?_⟩
  · rw [hu]
    exact unwritten_nextPacket m
  · rw [hu]
    rfl

/-- One packet is written, and more after it. -/
theorem Takes.written {k : Nat} {m m1 m' : Mosq} {p : Packet} (h : Takes k (nextPacket m1) m')
    (hc : m.currentOutPacket = some p) (hs : m1.settings = m.settings) (hl : m1.contents = m.contents)
    (ho : m1.outPacket = m.outPacket) (hf : m1.fired = p.completes.toList ++ m.fired) : Takes (k + 1) m m' := by
  have hu : unwritten m = p :: m.outPacket := by simp [unwritten, hc]
  refine ⟨h.settings.trans hs, h.contents.trans hl, ?_, ?_⟩
  · rw [h.queue, unwritten_nextPacket, ho, hu, List.drop_succ_cons]
  · rw [h.fired, unwritten_nextPacket, ho, hu, List.take_succ_cons]
    show _ ++ m1.fired = _
    rw [hf]
    cases hpc : p.completes with
    | none =>
      rw [List.filterMap_cons_none hpc]
      rfl
    | some mid =>
      rw [List.filterMap_cons_some hpc]
      simp

theorem takes_packetWriteLoop (stop : Rc) (n : Nat) : ∃ k, Takes k m (packetWriteLoop stop n m).1 := by
  induction n generalizing m with
  | zero =>
    unfold packetWriteLoop
    split
    · exact ⟨0, .none rfl rfl rfl rfl⟩
    · exact ⟨0, .none rfl rfl rfl rfl⟩
  | succ n ih =>
    unfold packetWriteLoop
    split
    · exact ⟨0, .none rfl rfl rfl rfl⟩
    · rename_i r l h
      exact ⟨1, takes_doClientDisconnect m h⟩
    · rename_i p hp hc
      dsimp only
      split
      · obtain ⟨k, hk⟩ := ih (nextPacket (m.emit (.onPublish _)))
        exact ⟨k + 1, hk.written hc rfl rfl rfl rfl⟩
      · rename_i hother
        obtain ⟨k, hk⟩ := ih (nextPacket m)
        refine ⟨k + 1, hk.written hc rfl rfl rfl ?_⟩
        rw [completes_other hother]
        rfl

theorem takes_packetWrite (stop : Rc) (n : Nat) : ∃ k, Takes k m (packetWrite stop n m).1 := by
  have ht : Takes 0 m (takeNext m) := by
    refine .none ?_ ?_ (unwritten_takeNext m) ?_
    · unfold takeNext
      split <;> rfl
    · unfold takeNext
      split <;> rfl
    · unfold takeNext
      split <;> rfl
  unfold packetWrite
  split
  · exact ⟨0, .none rfl rfl rfl rfl⟩
  · split
    · exact ⟨0, ht⟩
    · obtain ⟨k, hk⟩ := takes_packetWriteLoop (takeNext m) stop n
      refine ⟨k, hk.settings.trans ht.settings, hk.contents.trans ht.contents, ?_, ?_⟩
      · rw [hk.queue, unwritten_takeNext]
      · rw [hk.fired, unwritten_takeNext, ht.fired]
        rfl

end Artemisia.Client
