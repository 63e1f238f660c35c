/-
  Artemisia.Client.Counted — the counter and the entries of the two stores, in each function that touches them.

  `queue_len` is kept beside the list by hand: each function that links an entry in or out also counts, and a
  reset counts anew. So a store is counted when the two agree, and that is what each function has to keep.

  Proved:
  - `MsgData.Counted.…`, `InStore.…`:     what each operation on a store keeps.
  - `outStore_handlePacket`:              no packet that is read breaks the messages out.
  - `outStore_publish`, `outStore_connackSwitch`, `outStore_reset`: nor does anything else that touches them.
-/
import Artemisia.Client.Sends

namespace Artemisia.Client

open Artemisia.Property

/-! ## The stores -/

/-- The counter says how many entries there are. -/
def MsgData.Counted (d : MsgData) : Prop := d.queueLen = d.inflight.length

structure OutStore (d : MsgData) : Prop where
  counted : d.Counted
  entries : StoreOk d.inflight

/-- An entry of the messages in has sent its PUBREC and waits for the PUBREL. -/
structure InStore (d : MsgData) : Prop where
  counted : d.Counted
  entries : ∀ e ∈ d.inflight, e.qos = 2 ∧ e.state = .waitForPubrel

section Operations

variable {d d' : MsgData}

/-- The quota and the maximum are nothing that a store is judged by. -/
theorem MsgData.Counted.congr (h : d.Counted) (hq : d'.queueLen = d.queueLen)
    (hl : d'.inflight.length = d.inflight.length) :
    d'.Counted := by
  unfold MsgData.Counted at h ⊢
  rw [hq, h, hl]

theorem MsgData.Counted.append (h : d.Counted) (msg : Message) : (d.append msg).Counted := by
  unfold MsgData.Counted at h ⊢
  simp [MsgData.append, h]

/-- `message__remove` takes one entry out and counts one down. -/
theorem MsgData.Counted.remove {mid : UInt16} {qos : Nat} {msg : Message} (h : d.Counted)
    (e : messageRemove d mid qos = .ok (msg, d')) : d'.Counted := by
  obtain ⟨hf, -, -⟩ := messageRemove_ok e
  have hlen : (d.inflight.eraseP (·.mid = mid)).length = d.inflight.length - 1 :=
    List.length_eraseP_of_mem (List.mem_of_find?_eq_some hf) (by simpa using List.find?_some hf)
  unfold messageRemove at e
  rw [hf] at e
  dsimp only at e
  split at e
  · cases e
  · cases e
    show d.queueLen - 1 = _
    rw [h, hlen]

theorem frame_incrementQuota : d.incrementQuota.queueLen = d.queueLen ∧
    d.incrementQuota.inflight = d.inflight := by
  unfold MsgData.incrementQuota
  split <;> exact ⟨rfl, rfl⟩

theorem frame_decrementQuota : d.decrementQuota.queueLen = d.queueLen ∧
    d.decrementQuota.inflight = d.inflight := by
  unfold MsgData.decrementQuota
  split <;> exact ⟨rfl, rfl⟩

theorem OutStore.congr (h : OutStore d) (hq : d'.queueLen = d.queueLen) (hl : d'.inflight = d.inflight) :
    OutStore d' :=
  ⟨h.counted.congr hq (congrArg List.length hl), hl ▸ h.entries⟩

theorem InStore.congr (h : InStore d) (hq : d'.queueLen = d.queueLen) (hl : d'.inflight = d.inflight) :
    InStore d' :=
  ⟨h.counted.congr hq (congrArg List.length hl), hl ▸ h.entries⟩

theorem InStore.incrementQuota (h : InStore d) : InStore d.incrementQuota :=
  h.congr frame_incrementQuota.1 frame_incrementQuota.2

theorem InStore.decrementQuota (h : InStore d) : InStore d.decrementQuota :=
  h.congr frame_decrementQuota.1 frame_decrementQuota.2

theorem InStore.append {msg : Message} (h : InStore d) (hq : msg.qos = 2) (hs : msg.state = .waitForPubrel) :
    InStore (d.append msg) := by
  refine ⟨h.counted.append msg, fun e he => ?_⟩
  rcases List.mem_append.mp he with he | he
  · exact h.entries e he
  · rw [List.mem_singleton.mp he]
    exact ⟨hq, hs⟩

theorem InStore.remove {mid : UInt16} {qos : Nat} {msg : Message} (h : InStore d)
    (e : messageRemove d mid qos = .ok (msg, d')) : InStore d' := by
  obtain ⟨-, -, hl, -⟩ := messageRemove_ok e
  refine ⟨h.counted.remove e, fun x hx => h.entries x ?_⟩
  rw [hl] at hx
  exact List.mem_of_mem_eraseP hx

/-- A reset counts every message in, and keeps them all: they are all of QoS 2. -/
theorem InStore.reset (h : InStore d) : InStore (resetIn d) := by
  have hkept : d.inflight.filter (·.qos = 2) = d.inflight :=
    List.filter_eq_self.mpr fun e he => by simp [(h.entries e he).1]
  refine ⟨?_, fun e he => h.entries e (List.mem_of_mem_filter he)⟩
  show d.inflight.length = (d.inflight.filter (·.qos = 2)).length
  rw [hkept]

end Operations

variable (alloc : Alloc) (m : Mosq)

/-! ## The messages out -/

theorem counted_reset : (messageReconnectReset m).msgsOut.Counted := by
  show m.msgsOut.inflight.length = (resetOutLoop m.msgsOut.inflightMaximum m.msgsOut.inflight).2.length
  rw [resetOutLoop_eq, List.length_append, List.length_map, List.length_map, List.length_take, List.length_drop]
  omega

theorem queueLen_sendPublish (msg : Message) :
    (sendPublish alloc m msg).1.msgsOut.queueLen = m.msgsOut.queueLen := by
  rw [msgsOut_sendPublish]

theorem queueLen_releaseLoop (l : List Message) :
    (releaseLoop alloc m l).1.msgsOut.queueLen = m.msgsOut.queueLen := by
  induction l generalizing m with
  | nil => rfl
  | cons cur rest ih =>
    have hs := queueLen_sendPublish alloc m cur.released
    unfold releaseLoop
    repeat' split
    · rename_i m' e
      rw [e] at hs
      exact (ih _).trans (frame_decrementQuota.1.trans hs)
    · rename_i m' rc _ e
      rw [e] at hs
      exact hs
    · exact ih m
    · rfl

theorem counted_release (h : m.msgsOut.Counted) : (messageReleaseToInflight alloc m).1.msgsOut.Counted := by
  have hl : (releaseLoop alloc m m.msgsOut.inflight).2.1.length = m.msgsOut.inflight.length := by
    simpa using congrArg List.length (sends_releaseLoop alloc m m.msgsOut.inflight).2
  exact h.congr (queueLen_releaseLoop alloc m _) hl

theorem counted_incrementSendQuota (h : m.msgsOut.Counted) : (incrementSendQuota m).msgsOut.Counted :=
  h.congr frame_incrementQuota.1 (congrArg List.length frame_incrementQuota.2)

theorem counted_acknowledge (mid : UInt16) (qos : Nat) (h : m.msgsOut.Counted) :
    (acknowledge alloc m mid qos).1.msgsOut.Counted := by
  unfold acknowledge
  split
  · rename_i e
    exact counted_release alloc _ (h.remove e)
  · exact counted_release alloc m h
  · exact h

theorem counted_handlePubackcomp (type : Ack) (mid : Except Rc UInt16) (tail : Except Rc UInt8)
    (h : m.msgsOut.Counted) :
    (handlePubackcomp alloc m type mid tail).1.msgsOut.Counted := by
  have hinc := counted_incrementSendQuota m h
  unfold handlePubackcomp
  split
  · exact h
  · split
    · exact hinc
    · exact counted_acknowledge alloc _ _ _ hinc

theorem length_setFirstState (mid : UInt16) (state : MsgState) (l : List Message) :
    (setFirstState mid state l).length = l.length := by
  simpa using congrArg List.length (contents_setFirstState mid state l)

theorem counted_receiveMessage (mid : UInt16) (h : m.msgsOut.Counted) :
    (receiveMessage alloc m mid).1.msgsOut.Counted := by
  unfold receiveMessage messageOutUpdate
  split
  · rename_i e
    rw [msgsOut_sendPubrel]
    split at e
    · cases e
    · split at e
      · cases e
      · cases e
        exact h.congr rfl (length_setFirstState ..)
  · rw [msgsOut_sendPubrel]
    exact h
  · exact h

theorem counted_refuseMessage (mid : UInt16) (h : m.msgsOut.Counted) :
    (refuseMessage alloc m mid).1.msgsOut.Counted := by
  unfold refuseMessage
  split
  · rename_i e
    exact counted_release alloc _ (counted_incrementSendQuota _ (h.remove e))
  · exact counted_release alloc _ (counted_incrementSendQuota m h)

theorem counted_handlePubrec (mid : Except Rc UInt16) (tail : Except Rc UInt8) (h : m.msgsOut.Counted) :
    (handlePubrec alloc m mid tail).1.msgsOut.Counted := by
  unfold handlePubrec
  split
  · exact h
  · split
    · exact h
    · split
      · exact counted_receiveMessage alloc m _ h
      · exact counted_refuseMessage alloc m _ h

theorem frame_handleConnack (flags reason : Except Rc UInt8) (l : Except Rc (List MosquittoProperty)) :
    (handleConnack m flags reason l).1.msgsOut.queueLen = m.msgsOut.queueLen ∧
      (handleConnack m flags reason l).1.msgsOut.inflight = m.msgsOut.inflight := by
  unfold handleConnack
  repeat' split
  all_goals exact ⟨rfl, rfl⟩

theorem outStore_handlePacket (p : InPacket) (h : OutStore m.msgsOut) :
    OutStore (handlePacket alloc m p).1.msgsOut := by
  refine ⟨?_, storeOk_handlePacket alloc m p h.entries⟩
  cases p with
  | pubackcomp type mid tail => exact counted_handlePubackcomp alloc m type mid tail h.counted
  | pubrec mid tail => exact counted_handlePubrec alloc m mid tail h.counted
  | connack flags reason l =>
    obtain ⟨hq, hl⟩ := frame_handleConnack m flags reason l
    exact h.counted.congr hq (congrArg List.length hl)
  | disconnect reason tail =>
    simp only [handlePacket, handleDisconnect]
    repeat' split
    all_goals exact h.counted
  | _ =>
    simp only [handlePacket]
    repeat' split
    all_goals simpa using h.counted

theorem outStore_connackSwitch (reason : UInt8) (h : OutStore m.msgsOut) :
    OutStore (connackSwitch alloc m reason).1.msgsOut := by
  have hretry (m : Mosq) (h : OutStore m.msgsOut) : (messageRetryCheck alloc m).msgsOut.Counted := by
    have hq : (retryLoop alloc m m.msgsOut.inflight).1.msgsOut.queueLen = m.msgsOut.queueLen := by
      rw [msgsOut_retryLoop]
    have hl : (retryLoop alloc m m.msgsOut.inflight).2.length = m.msgsOut.inflight.length := by
      simpa using congrArg List.length (sends_retryLoop alloc m h.entries).2
    exact h.counted.congr hq hl
  refine ⟨?_, storeOk_connackSwitch alloc m reason h.entries⟩
  unfold connackSwitch
  split
  · dsimp only
    split
    · exact hretry (m.setState .active) h
    · exact hretry m h
  · split
    · exact h.counted
    · exact h.counted

theorem outStore_publish (a : PublishArgs) (h : OutStore m.msgsOut) :
    OutStore (mosquittoPublishV5 alloc m a).1.msgsOut := by
  refine ⟨?_, storeOk_publish alloc m a h.entries⟩
  unfold mosquittoPublishV5
  split
  · dsimp only
    split
    · rw [msgsOut_sendPublish]
      exact h.counted
    · split
      · exact counted_release alloc _ (h.counted.append _)
      · exact h.counted
  · exact h.counted

theorem outStore_reset (h : OutStore m.msgsOut) : OutStore (messageReconnectReset m).msgsOut :=
  ⟨counted_reset m, storeOk_reset m h.entries⟩

end Artemisia.Client
