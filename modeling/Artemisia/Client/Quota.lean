/-
  Artemisia.Client.Quota — the messages sent on the connection against the quota that is left.

  The quota says how many more may be sent. `sent` says how many have been and are not finished; the
  two together are what the window has to hold.

  Proved:
  - `used_messageReleaseToInflight`: a release takes from the quota what it sends.
  - `sent_messageRemove`:            a message that leaves the store leaves the count, if it was sent here.
  - `used_handlePacket`:             a packet that raises no quota raises nothing.
  - `used_raises`:                   one that does raises it by one at most, and by nothing if it
                                     finishes a message sent here.
  - `sent_messageRetryCheck`:        what a retry can send was to be retried.
-/
import Artemisia.Client.Store

namespace Artemisia.Client

open Artemisia.Property

variable (alloc : Alloc) (m : Mosq)

/-! ## What has been sent on the connection -/

/-- The PUBLISH of the message was handed to `packet__queue` on this connection. -/
def onConn (sock : Option Nat) (e : Message) : Bool := e.sentOn.isSome ∧ e.sentOn = sock

/-- How many messages out have been sent on the current connection and are not finished. -/
def sent (m : Mosq) : Nat := m.msgsOut.inflight.countP (onConn m.sock)

/-- These and the quota that is left. -/
def used (m : Mosq) : Nat := sent m + m.msgsOut.inflightQuota

theorem onConn_state (sock : Option Nat) (e : Message) (s : MsgState) :
    onConn sock { e with state := s } = onConn sock e := rfl

theorem onConn_none (e : Message) : onConn none e = false := by
  cases h : e.sentOn <;> simp [onConn, h]

/-- The store and the socket are all that counts. -/
theorem used_congr {m m' : Mosq} (ho : m'.msgsOut = m.msgsOut) (hs : m'.sock = m.sock) : used m' = used m := by
  simp [used, sent, ho, hs]

theorem sent_none (h : m.sock = none) : sent m = 0 := by
  rw [sent, h, List.countP_eq_zero]
  exact fun e _ => by simp [onConn_none]

theorem used_doClientDisconnect : used (doClientDisconnect m) ≤ used m := by
  simp [used, sent_none (doClientDisconnect m) rfl]

/-! ## Release -/

theorem sent_releaseLoop (l : List Message) :
    (releaseLoop alloc m l).2.1.countP (onConn m.sock) + (releaseLoop alloc m l).1.msgsOut.inflightQuota ≤
      l.countP (onConn m.sock) + m.msgsOut.inflightQuota := by
  induction l generalizing m with
  | nil => simp [releaseLoop]
  | cons cur rest ih =>
    rcases Nat.eq_zero_or_pos m.msgsOut.inflightQuota with hq | hq
    · rw [releaseLoop_full _ hq]
    by_cases hi : cur.qos > 0 ∧ cur.state = .invalid
    · cases hc : canPublish alloc m cur.released with
      | true =>
        rw [releaseLoop_send hq hi hc]
        have h := ih (decrementSendQuota (packetQueue m (publishPacket m cur.released)))
        have hd : (decrementSendQuota (packetQueue m (publishPacket m cur.released))).msgsOut.inflightQuota + 1 =
            m.msgsOut.inflightQuota := by
          simp only [decrementSendQuota, MsgData.decrementQuota, msgsOut_packetQueue, gt_iff_lt, hq, if_true]
          omega
        have hs : (decrementSendQuota (packetQueue m (publishPacket m cur.released))).sock = m.sock := rfl
        rw [hs] at h
        simp only [List.countP_cons]
        split <;> split <;> omega
      | false =>
        obtain ⟨rc, -, e⟩ := releaseLoop_fail rest hq hi hc
        rw [e]
        simp [List.countP_cons, Message.released, onConn]
    · rw [releaseLoop_keep hq hi]
      have h := ih m
      simp only [List.countP_cons]
      omega

/-- A release takes from the quota what it sends. -/
theorem used_messageReleaseToInflight : used (messageReleaseToInflight alloc m).1 ≤ used m := by
  have hs := sock_of_conn (conn_messageReleaseToInflight alloc m)
  unfold used sent
  rw [hs]
  exact sent_releaseLoop alloc m m.msgsOut.inflight

theorem used_mosquittoPublishV5 (a : PublishArgs) : used (mosquittoPublishV5 alloc m a).1 ≤ used m := by
  unfold mosquittoPublishV5
  split
  · dsimp only
    split
    · exact (used_congr (msgsOut_sendPublish ..) (sock_of_conn (conn_sendPublish ..))).le
    · split
      · refine (used_messageReleaseToInflight alloc _).trans ?_
        simp [used, sent, MsgData.append, messageOf, onConn, midGenerate]
      · exact Nat.le_refl _
  · exact Nat.le_refl _

/-! ## What leaves the store -/

theorem countP_eraseP_find {p : Message → Bool} {f : Message → Bool} {l : List Message} {e : Message}
    (h : l.find? p = some e) : (l.eraseP p).countP f + (if f e then 1 else 0) = l.countP f := by
  induction l with
  | nil => simp at h
  | cons x rest ih =>
    by_cases hx : p x = true
    · simp only [List.find?_cons, hx, Option.some.injEq] at h
      subst h
      simp [hx, List.countP_cons]
    · simp only [Bool.not_eq_true] at hx
      simp only [List.find?_cons, hx] at h
      have := ih h
      simp only [List.eraseP_cons, hx, cond_false, List.countP_cons]
      omega

theorem messageRemove_ok {d d' : MsgData} {mid : UInt16} {qos : Nat} {e : Message}
    (h : messageRemove d mid qos = .ok (e, d')) :
    d.inflight.find? (·.mid = mid) = some e ∧ e.qos = qos ∧ d'.inflight = d.inflight.eraseP (·.mid = mid) ∧
      d'.inflightQuota = d.inflightQuota ∧ d'.inflightMaximum = d.inflightMaximum := by
  unfold messageRemove at h
  split at h
  · cases h
  · rename_i msg hf
    split at h
    · cases h
    · rename_i hq
      cases h
      exact ⟨hf, not_not.mp hq, rfl, rfl, rfl⟩

theorem sent_messageRemove {d d' : MsgData} {mid : UInt16} {qos : Nat} {e : Message} (sock : Option Nat)
    (h : messageRemove d mid qos = .ok (e, d')) :
    d'.inflight.countP (onConn sock) + (if onConn sock e then 1 else 0) = d.inflight.countP (onConn sock) := by
  obtain ⟨hf, -, he, -, -⟩ := messageRemove_ok h
  rw [he]
  exact countP_eraseP_find hf

theorem countP_setFirstState (sock : Option Nat) (mid : UInt16) (st : MsgState) (l : List Message) :
    (setFirstState mid st l).countP (onConn sock) = l.countP (onConn sock) := by
  induction l with
  | nil => rfl
  | cons msg rest ih =>
    unfold setFirstState
    split
    · simp [List.countP_cons, onConn]
    · simp [List.countP_cons, ih]

/-! ## Packets -/

/-- The acknowledgements that raise the quota, each with the packet id, if it can be read, and the QoS of the
    message it would finish. -/
def raises (m : Mosq) : InPacket → Option (Except Rc UInt16 × Nat)
  | .pubackcomp type mid tail =>
    if m.state = .active then some ((readAck m mid tail).map Prod.fst, type.qos) else none
  | .pubrec mid tail =>
    match readAck m mid tail with
    | .ok (mid, reasonCode) =>
      if m.state = .active ∧ ¬ (reasonCode < 0x80 ∨ m.protocol ≠ .mqtt5) then some (.ok mid, 2) else none
    | .error _ => none
  | _ => none

/-- The first message out with the packet id has the QoS, and was sent on this connection. -/
def finishes (m : Mosq) (mid : Except Rc UInt16) (qos : Nat) : Bool :=
  match mid with
  | .error _ => false
  | .ok mid => match m.msgsOut.inflight.find? (·.mid = mid) with
    | some e => e.qos = qos ∧ onConn m.sock e
    | none => false

/-- The quota after `util__increment_send_quota`. -/
def raisedQuota (m : Mosq) : Nat := m.msgsOut.incrementQuota.inflightQuota

theorem incrementQuota_frame (d : MsgData) :
    d.incrementQuota.inflight = d.inflight ∧ d.incrementQuota.inflightMaximum = d.inflightMaximum ∧
      d.incrementQuota.inflightQuota ≤ d.inflightQuota + 1 := by
  unfold MsgData.incrementQuota
  split
  · exact ⟨rfl, rfl, Nat.le_refl _⟩
  · exact ⟨rfl, rfl, Nat.le_succ _⟩

theorem used_incrementSendQuota : used (incrementSendQuota m) = sent m + raisedQuota m := by
  simp only [used, sent, incrementSendQuota, raisedQuota, (incrementQuota_frame m.msgsOut).1]

theorem finishes_incrementSendQuota (mid : Except Rc UInt16) (qos : Nat) :
    finishes (incrementSendQuota m) mid qos = finishes m mid qos := by
  unfold finishes incrementSendQuota
  rw [(incrementQuota_frame m.msgsOut).1]

theorem finishes_ok {m : Mosq} {mid : UInt16} {qos : Nat} {e : Message} {d : MsgData}
    (h : messageRemove m.msgsOut mid qos = .ok (e, d)) : finishes m (.ok mid) qos = onConn m.sock e := by
  obtain ⟨hf, hq, -⟩ := messageRemove_ok h
  simp [finishes, hf, hq]

theorem finishes_error {m : Mosq} {mid : UInt16} {qos : Nat} {rc : Rc}
    (h : messageRemove m.msgsOut mid qos = .error rc) : finishes m (.ok mid) qos = false := by
  unfold messageRemove at h
  split at h
  · rename_i hf
    simp [finishes, hf]
  · rename_i e hf
    split at h
    · rename_i hq
      simp [finishes, hf, hq]
    · cases h

/-- A message that is finished leaves the count if it was sent here. -/
theorem used_completeMessage {mid : UInt16} {qos : Nat} {e : Message} {d : MsgData}
    (h : messageRemove m.msgsOut mid qos = .ok (e, d)) :
    used (completeMessage m d mid) + (if onConn m.sock e then 1 else 0) = used m := by
  have hs := sent_messageRemove m.sock h
  obtain ⟨-, -, -, hq, -⟩ := messageRemove_ok h
  simp only [used, sent, completeMessage, Mosq.emit, hq]
  omega

theorem used_acknowledge (mid : UInt16) (qos : Nat) :
    used (acknowledge alloc m mid qos).1 + (if finishes m (.ok mid) qos then 1 else 0) ≤ used m := by
  unfold acknowledge
  cases h : messageRemove m.msgsOut mid qos with
  | error rc =>
    rw [finishes_error h]
    cases rc with
    | notFound => simpa using used_messageReleaseToInflight alloc m
    | _ => exact Nat.le_refl _
  | ok r =>
    rw [finishes_ok h]
    have hc := used_completeMessage m h
    have hr := used_messageReleaseToInflight alloc (completeMessage m r.2 mid)
    dsimp only
    omega

theorem used_refuseMessage (mid : UInt16) :
    used (refuseMessage alloc m mid).1 + (if finishes m (.ok mid) 2 then 1 else 0) ≤ sent m + raisedQuota m := by
  unfold refuseMessage
  cases h : messageRemove m.msgsOut mid 2 with
  | error rc =>
    have hr := used_messageReleaseToInflight alloc (incrementSendQuota m)
    simpa [finishes_error h, used_incrementSendQuota] using hr
  | ok r =>
    have hr := used_messageReleaseToInflight alloc (incrementSendQuota (completeMessage m r.2 mid))
    have hs := sent_messageRemove m.sock h
    obtain ⟨-, -, -, hq, hm⟩ := messageRemove_ok h
    have hq' : raisedQuota (completeMessage m r.2 mid) = raisedQuota m := by
      simp only [raisedQuota, completeMessage, Mosq.emit, MsgData.incrementQuota, hq, hm]
      split <;> simp [hq]
    have hs' : sent (completeMessage m r.2 mid) = r.2.inflight.countP (onConn m.sock) := rfl
    rw [finishes_ok h]
    rw [used_incrementSendQuota, hq', hs'] at hr
    unfold sent
    dsimp only
    omega

/-- A message that the server has received stays, and its part of the quota with it. -/
theorem used_receiveMessage (mid : UInt16) : used (receiveMessage alloc m mid).1 = used m := by
  have hp := fun m' : Mosq => used_congr (msgsOut_sendPubrel alloc m' mid)
      (sock_of_conn (conn_sendPubrel alloc m' mid))
  unfold receiveMessage messageOutUpdate
  cases m.msgsOut.inflight.find? (·.mid = mid) with
  | none => exact hp m
  | some e =>
    dsimp only
    split
    · rename_i h
      split at h
      · cases h
      · cases h
        rw [hp]
        simp [used, sent, countP_setFirstState]
    · rename_i h
      split at h <;> cases h
    · rfl

/-- An acknowledgement raises the quota; what it finishes makes up for it. -/
theorem used_raises {p : InPacket} {mid : Except Rc UInt16} {qos : Nat} (h : raises m p = some (mid, qos)) :
    used (handlePacket alloc m p).1 + (if finishes m mid qos then 1 else 0) ≤ sent m + raisedQuota m := by
  cases p with
  | pubackcomp type mid' tail =>
    simp only [raises] at h
    split at h
    · rename_i hs
      simp only [Option.some.injEq, Prod.mk.injEq] at h
      obtain ⟨hmid, rfl⟩ := h
      have ha := fun i => used_acknowledge alloc (incrementSendQuota m) i type.qos
      simp only [used_incrementSendQuota, finishes_incrementSendQuota] at ha
      simp only [handlePacket, handlePubackcomp, hs]
      cases hr : readAck m mid' tail with
      | error rc =>
        subst hmid
        simp [hr, Except.map, finishes, used_incrementSendQuota]
      | ok r =>
        subst hmid
        simpa [hr, Except.map] using ha r.1
    · cases h
  | pubrec mid' tail =>
    simp only [raises] at h
    split at h
    · rename_i i reasonCode hr
      split at h
      · rename_i hc
        cases h
        have hf := used_refuseMessage alloc m i
        simpa only [handlePacket, handlePubrec, hc.1, ne_eq, not_true_eq_false, if_false, hr, hc.2] using hf
      · cases h
    · cases h
  | _ => cases h

/-! ## CONNACK -/

/-- The maximum that a CONNACK puts in force, with the quota of the same size. -/
def announced (m : Mosq) : InPacket → Option Nat
  | .connack (.ok _) (.ok _) properties =>
    match (if m.protocol = .mqtt5 then properties else .ok []) with
    | .error _ => none
    | .ok properties =>
      if (readPropertyString properties PropId.assignedClientIdentifier.code false).isSome ∧ m.id.isSome then none
      else some (((readPropertyInt16 properties PropId.receiveMaximum.code false).map UInt16.toNat).getD
        m.msgsOut.inflightMaximum)
  | _ => none

theorem used_handleConnack (flags reason : Except Rc UInt8) (l : Except Rc (List MosquittoProperty)) :
    used (handleConnack m flags reason l).1 = match announced m (.connack flags reason l) with
      | some max => sent m + max
      | none => used m := by
  unfold handleConnack
  cases flags with
  | error rc => rfl
  | ok f =>
    cases reason with
    | error rc => rfl
    | ok r =>
      simp only [announced]
      cases (if m.protocol = .mqtt5 then l else .ok []) with
      | error rc => dsimp only; split <;> rfl
      | ok l' =>
        cases h1 : readPropertyString l' PropId.assignedClientIdentifier.code false with
        | none => simp [h1]; rfl
        | some clientid =>
          cases h2 : m.id with
          | none => simp [h1]; rfl
          | some id => simp [h1]

/-- A packet that raises nothing and sets no maximum leaves the account as it is. -/
theorem used_handlePacket {p : InPacket} (hr : raises m p = none) (ha : announced m p = none) :
    used (handlePacket alloc m p).1 ≤ used m := by
  cases p with
  | connack flags reason l =>
    have h := used_handleConnack m flags reason l
    rw [ha] at h
    exact h.le
  | pubackcomp type mid tail =>
    simp only [raises] at hr
    split at hr
    · cases hr
    · rename_i hs
      simp [handlePacket, handlePubackcomp, hs]
  | pubrec mid tail =>
    simp only [handlePacket, handlePubrec]
    split
    · exact Nat.le_refl _
    · rename_i hs
      split
      · exact Nat.le_refl _
      · rename_i i reasonCode he
        split
        · exact (used_receiveMessage alloc m i).le
        · rename_i hc
          simp [raises, he, not_not.mp hs, hc] at hr
  | disconnect reason tail =>
    simp only [handlePacket, handleDisconnect]
    repeat' split
    all_goals first
      | exact Nat.le_refl _
      | exact used_doClientDisconnect m
  | publish p =>
    exact (used_congr (msgsOut_handlePublish ..) (sock_of_conn (conn_handlePublish ..))).le
  | pubrel flags mid tail =>
    exact (used_congr (msgsOut_handlePubrel ..) (sock_of_conn (conn_handlePubrel ..))).le
  | pingreq =>
    simp only [handlePacket]
    split
    · exact Nat.le_refl _
    · exact (used_congr (msgsOut_sendPingresp ..) (sock_of_conn (conn_sendPingresp ..))).le
  | _ =>
    simp only [handlePacket]
    repeat' split
    all_goals exact Nat.le_refl _

/-! ## Retry -/

/-- Sent on this connection, or to be sent by the next `message__retry_check`. -/
def dueOnConn (sock : Option Nat) (e : Message) : Bool :=
  onConn sock e || e.state = .publishQos1 || e.state = .publishQos2

theorem countP_cons_le {f g : Message → Bool} {x y : Message} {l l' : List Message} (hx : f x = true → g y = true)
    (h : l.countP f ≤ l'.countP g) : (x :: l).countP f ≤ (y :: l').countP g := by
  simp only [List.countP_cons]
  by_cases hf : f x = true
  · simp only [hf, hx hf, if_true]
    omega
  · rw [if_neg hf]
    omega

theorem due_of_onConn {sock : Option Nat} {e : Message} (h : onConn sock e = true) : dueOnConn sock e = true := by
  simp [dueOnConn, h]

theorem countP_retryLoop (l : List Message) :
    (retryLoop alloc m l).2.countP (onConn m.sock) ≤ l.countP (dueOnConn m.sock) := by
  induction l generalizing m with
  | nil => rfl
  | cons msg rest ih =>
    -- what a send leaves of the connection
    have hp (e : Message) := sock_of_conn (conn_sendPublish alloc m e) ▸ ih (sendPublish alloc m e).1
    have hc := sock_of_conn (conn_sendPubrec alloc m msg.mid 0) ▸ ih (sendPubrec alloc m msg.mid 0).1
    have hl := sock_of_conn (conn_sendPubrel alloc m msg.mid) ▸ ih (sendPubrel alloc m msg.mid).1
    unfold retryLoop
    split
    · rename_i hs
      exact countP_cons_le (fun _ => by simp [dueOnConn, hs]) (hp _)
    · rename_i hs
      exact countP_cons_le (fun _ => by simp [dueOnConn, hs]) (hp _)
    · exact countP_cons_le (fun h => due_of_onConn h) hc
    · exact countP_cons_le (fun h => due_of_onConn h) hl
    · exact countP_cons_le (fun h => due_of_onConn h) hl
    · exact countP_cons_le (fun h => due_of_onConn h) (ih m)

/-- What a retry can send was to be retried, and the quota stays as it is. -/
theorem used_messageRetryCheck :
    used (messageRetryCheck alloc m) ≤ m.msgsOut.inflight.countP (dueOnConn m.sock) +
    m.msgsOut.inflightQuota := by
  have hs := sock_of_conn (conn_messageRetryCheck alloc m)
  have hq : (messageRetryCheck alloc m).msgsOut.inflightQuota = m.msgsOut.inflightQuota := by
    simp [messageRetryCheck]
  unfold used sent
  rw [hs, hq]
  exact Nat.add_le_add_right (countP_retryLoop alloc m m.msgsOut.inflight) _

/-! ## Connecting -/

/-- The quota that `message__reconnect_reset` leaves: every message takes a part of it. -/
theorem resetOutLoop_quota (quota : Nat) (l : List Message) : (resetOutLoop quota l).1 = quota - l.length := by
  induction l generalizing quota with
  | nil => rfl
  | cons msg rest ih =>
    cases quota with
    | zero => simp [resetOutLoop, ih]
    | succ quota => simp [resetOutLoop, ih]

theorem resetOutLoop_onConn (sock : Option Nat) (quota : Nat) (l : List Message) :
    (resetOutLoop quota l).2.countP (onConn sock) = l.countP (onConn sock) := by
  induction l generalizing quota with
  | nil => rfl
  | cons msg rest ih =>
    cases quota <;> (simp only [resetOutLoop, List.countP_cons, ih, onConn_state]; rfl)

theorem used_messageReconnectReset :
    used (messageReconnectReset m) = sent m + (m.msgsOut.inflightMaximum - m.msgsOut.inflight.length) := by
  simp only [used, sent, messageReconnectReset, resetOut, resetOutLoop_quota, resetOutLoop_onConn]

end Artemisia.Client
