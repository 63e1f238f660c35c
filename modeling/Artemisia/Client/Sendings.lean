/-
  Artemisia.Client.Sendings — which messages out a release and a retry send, and what they leave of the store.

  A release sends messages that have never been sent, in their order and as long as there is quota and the
  send does not fail; a retry those that a reset has left to be sent again, and passes over what cannot be sent.

  Proved:
  - `passes_release`, `passes_retry`: entry by entry, what becomes of the store, and which PUBLISHes are
                                      handed over.
  - `packet_store`:                   what the handler of a packet does with the store before it comes to
                                      a release.
  - `release_split`:                  what a release leaves unsent comes last.
-/
import Artemisia.Client.Handed
import Artemisia.Client.Quota

namespace Artemisia.Client

open Artemisia.Property

/-! ## PUBLISHes -/

/-- A PUBLISH of QoS 1 or 2 that is handed to `packet__queue`: the message it is for, its DUP flag, and the
    socket. -/
structure Sending where
  uid : Nat
  qos : Nat
  dup : Bool
  sock : Option Nat
  deriving DecidableEq

def sendingOf (sock : Option Nat) : Message × Packet → Option Sending
  | (e, .publish _ _ _ qos _ dup _) => if qos = 0 then none else some ⟨e.uid, qos, dup, sock⟩
  | _ => none

def sendingsOf (sock : Option Nat) (l : List (Message × Packet)) : List Sending := l.filterMap (sendingOf sock)

/-- To be sent by the next `message__retry_check`. -/
def due (e : Message) : Bool := e.state = .publishQos1 || e.state = .publishQos2

theorem due_state {e e' : Message} (h : e.state = e'.state) : due e = due e' := by
  rw [due, due, h]

/-- A release or a retry may send it. -/
def ready (e : Message) : Bool := e.state = .invalid || due e

/-- The PUBLISH of an entry: a retry sets the DUP flag. -/
def Message.sending (sock : Option Nat) (e : Message) : Sending :=
  ⟨e.uid, e.qos, if e.state = .invalid then e.dup else true, sock⟩

@[simp] theorem sending_uid (sock : Option Nat) (e : Message) : (e.sending sock).uid = e.uid := rfl

@[simp] theorem sending_qos (sock : Option Nat) (e : Message) : (e.sending sock).qos = e.qos := rfl

@[simp] theorem sending_sock (sock : Option Nat) (e : Message) : (e.sending sock).sock = sock := rfl

/-- The messages that a release sends. -/
def takesOn (alloc : Alloc) (m : Mosq) (l : List Message) : List Message :=
  (released m.msgsOut.inflightQuota l).takeWhile fun e => canPublish alloc m e.released

/-- A retry can queue the PUBLISH: there is memory for it. One that is too large ends the process. -/
def canRetry (alloc : Alloc) (m : Mosq) (e : Message) : Bool := canPublish alloc m { e with dup := true }

/-- The messages that a retry sends a PUBLISH for. -/
def retried (alloc : Alloc) (m : Mosq) (l : List Message) : List Message := l.filter fun e => due e &&
    canRetry alloc m e

/-! ## What becomes of an entry -/

structure Unsent (e' e : Message) : Prop where
  uid : e'.uid = e.uid
  qos : e'.qos = e.qos
  state : ready e' = true → e'.state = e.state ∧ (e.state = .invalid → e'.dup = e.dup)

structure Resent (e' e : Message) : Prop where
  uid : e'.uid = e.uid
  qos : e'.qos = e.qos
  state : ready e' = true → e'.state = e.state ∧ e.state ≠ .invalid

/-- A store before and after, with the entries that were sent, as they were before. -/
inductive Passes (sock : Option Nat) : List Message → List Message → List Message → Prop where
  | nil : Passes sock [] [] []
  | drop {e : Message} {l l' h : List Message} : Passes sock l l' h → Passes sock (e :: l) l' h
  | keep {e e' : Message} {l l' h : List Message} : Unsent e' e → Passes sock l l' h →
      Passes sock (e :: l) (e' :: l') h
  | sent {e e' : Message} {l l' h : List Message} : sock ≠ none → ready e = true → Resent e' e →
      Passes sock l l' h →
      Passes sock (e :: l) (e' :: l') (e :: h)

theorem Unsent.refl (e : Message) : Unsent e e := ⟨rfl, rfl, fun _ => ⟨rfl, fun _ => rfl⟩⟩

theorem Unsent.trans {e e' e'' : Message} (h' : Unsent e'' e') (h : Unsent e' e) : Unsent e'' e := by
  refine ⟨h'.uid.trans h.uid, h'.qos.trans h.qos, fun hr => ?_⟩
  obtain ⟨hs', hd'⟩ := h'.state hr
  have hr' : ready e' = true := by simpa [ready, due, hs'] using hr
  obtain ⟨hs, hd⟩ := h.state hr'
  exact ⟨hs'.trans hs, fun hi => (hd' (hs.trans hi)).trans (hd hi)⟩

section Rules

variable {sock : Option Nat} {l l' h : List Message}

theorem Passes.refl (l : List Message) : Passes sock l l [] := by
  induction l with
  | nil => exact .nil
  | cons e l ih => exact .keep (.refl e) ih

theorem Passes.sublist (hp : Passes sock l l' h) : h.Sublist l := by
  induction hp with
  | nil => exact .slnil
  | drop _ ih => exact ih.cons _
  | keep _ _ ih => exact ih.cons _
  | sent _ _ _ _ ih => exact ih.cons_cons _

theorem Passes.uids (hp : Passes sock l l' h) : (l'.map Message.uid).Sublist (l.map Message.uid) := by
  induction hp with
  | nil => exact .slnil
  | drop _ ih => exact ih.cons _
  | keep hu _ ih =>
    rw [List.map_cons, List.map_cons, hu.uid]
    exact ih.cons_cons _
  | sent _ _ hu _ ih =>
    rw [List.map_cons, List.map_cons, hu.uid]
    exact ih.cons_cons _

theorem Passes.ready (hp : Passes sock l l' h) : ∀ e ∈ h, sock ≠ none ∧ Client.ready e = true := by
  induction hp with
  | nil => simp
  | drop _ ih => exact ih
  | keep _ _ ih => exact ih
  | sent hs hr _ _ ih => exact List.forall_mem_cons.mpr ⟨⟨hs, hr⟩, ih⟩

/-- Of the PUBLISHes of a pass, those before one are of older messages. -/
theorem Passes.split (hp : Passes sock l l' h) (hu : (l.map Message.uid).Pairwise (· < ·))
    {pre post : List Sending}
    {y : Sending} (hy : h.map (Message.sending sock) = pre ++ y :: post) :
    ∃ e ∈ h, y = e.sending sock ∧ ∀ z ∈ pre, z.uid < e.uid := by
  obtain ⟨hpre, hrest, rfl, rfl, hcons⟩ := List.map_eq_append_iff.mp hy
  obtain ⟨e, hpost, rfl, rfl, -⟩ := List.map_eq_cons_iff.mp hcons
  have hord := hu.sublist (hp.sublist.map Message.uid)
  rw [List.map_append, List.map_cons, List.pairwise_append] at hord
  refine ⟨e, List.mem_append_right _ (List.mem_cons_self ..), rfl, List.forall_mem_map.mpr fun e' he' => ?_⟩
  exact hord.2.2 _ (List.mem_map_of_mem he') _ (List.mem_cons_self ..)

/-- A message that has been taken out before is not sent. -/
theorem Passes.of_sublist {l0 : List Message} (hs : l.Sublist l0) (hp : Passes sock l l' h) :
    Passes sock l0 l' h := by
  induction hs generalizing l' h with
  | slnil => exact hp
  | cons e _ ih => exact .drop (ih hp)
  | cons_cons e _ ih =>
    cases hp with
    | drop hp => exact .drop (ih hp)
    | keep hu hp => exact .keep hu (ih hp)
    | sent hsock hr hu hp => exact .sent hsock hr hu (ih hp)

theorem passes_setFirstState (mid : UInt16) (l : List Message) :
    Passes sock l (setFirstState mid .waitForPubcomp l) [] := by
  induction l with
  | nil => exact .nil
  | cons msg rest ih =>
    unfold setFirstState
    split
    · exact .keep ⟨rfl, rfl, fun hr => by simp [Client.ready, due] at hr⟩ (.refl rest)
    · exact .keep (.refl msg) ih

/-- Each entry is one that was there, and was sent if it is among those. -/
theorem Passes.exists (hp : Passes sock l l' h) (hd : (l.map Message.uid).Pairwise (· < ·)) :
    ∀ e' ∈ l', ∃ e ∈ l, (Unsent e' e ∧ ∀ x ∈ h, x.uid ≠ e.uid) ∨ (Resent e' e ∧ e ∈ h) := by
  induction hp with
  | nil => simp
  | @drop e l l' h hp ih =>
    rw [List.map_cons, List.pairwise_cons] at hd
    intro e' he'
    obtain ⟨x, hx, hor⟩ := ih hd.2 e' he'
    exact ⟨x, List.mem_cons_of_mem _ hx, hor⟩
  | @keep e e1 l l' h hu hp ih =>
    rw [List.map_cons, List.pairwise_cons] at hd
    intro e' he'
    rcases List.mem_cons.mp he' with rfl | he'
    · refine ⟨e, List.mem_cons_self .., .inl ⟨hu, fun x hx => ?_⟩⟩
      exact (hd.1 x.uid (List.mem_map_of_mem (hp.sublist.subset hx))).ne'
    · obtain ⟨x, hx, hor⟩ := ih hd.2 e' he'
      exact ⟨x, List.mem_cons_of_mem _ hx, hor⟩
  | @sent e e1 l l' h hs hr hu hp ih =>
    rw [List.map_cons, List.pairwise_cons] at hd
    intro e' he'
    rcases List.mem_cons.mp he' with rfl | he'
    · exact ⟨e, List.mem_cons_self .., .inr ⟨hu, List.mem_cons_self ..⟩⟩
    · obtain ⟨x, hx, hor⟩ := ih hd.2 e' he'
      refine ⟨x, List.mem_cons_of_mem _ hx, ?_⟩
      rcases hor with ⟨hx', hne⟩ | ⟨hx', hmem⟩
      · refine .inl ⟨hx', List.forall_mem_cons.mpr ⟨?_, hne⟩⟩
        exact (hd.1 x.uid (List.mem_map_of_mem hx)).ne
      · exact .inr ⟨hx', List.mem_cons_of_mem _ hmem⟩

/-- Each entry that was sent is still there, as one that has been. -/
theorem Passes.handed (hp : Passes sock l l' h) : ∀ x ∈ h, ∃ x' ∈ l', Resent x' x := by
  induction hp with
  | nil => simp
  | drop _ ih => exact ih
  | keep _ _ ih =>
    intro x hx
    obtain ⟨x', hx', hr⟩ := ih x hx
    exact ⟨x', List.mem_cons_of_mem _ hx', hr⟩
  | @sent e e' l l' h _ _ hu _ ih =>
    intro x hx
    rcases List.mem_cons.mp hx with rfl | hx
    · exact ⟨e', List.mem_cons_self .., hu⟩
    · obtain ⟨x', hx', hr⟩ := ih x hx
      exact ⟨x', List.mem_cons_of_mem _ hx', hr⟩

/-- What has been sent is no message that has not. -/
theorem Resent.state_ne {e' e : Message} (h : Resent e' e) : e'.state ≠ .invalid := by
  intro hs
  obtain ⟨he, hne⟩ := h.state (by simp [Client.ready, hs])
  exact hne (he.symm.trans hs)

end Rules

/-! ## Release -/

section Release

variable (alloc : Alloc) (m : Mosq)

theorem canPublish_congr {m m' : Mosq} (hs : m'.sock = m.sock) (hl : m'.limits = m.limits) (e : Message) :
    canPublish alloc m' e = canPublish alloc m e := by
  obtain ⟨hp, hz⟩ := Prod.mk.inj hl
  have hlen : publishLength m' e = publishLength m e := by simp only [publishLength, hp]
  have ho : checkOversize m' (publishLength m e).1 = checkOversize m (publishLength m e).1 := by
    simp only [checkOversize, hz]
  rw [canPublish, canPublish, decide_eq_decide]
  simp only [publishPacket, hlen, ho, hs]

theorem not_ready_released {e : Message} (h : OutOk e) : ready e.released = false := by
  rcases h with ⟨hq, -⟩ | ⟨hq, -⟩
  · simp [ready, due, Message.released, hq]
  · simp [ready, due, Message.released, hq]

theorem passes_releaseLoop {l : List Message} (h : StoreOk l) :
    Passes m.sock l (releaseLoop alloc m l).2.1 (takesOn alloc m l) ∧
      sendingsOf m.sock (releaseHands alloc m l) = (takesOn alloc m l).map (Message.sending m.sock) := by
  induction l generalizing m with
  | nil => exact ⟨by simpa [takesOn, released] using .nil, by simp [takesOn, released, releaseHands, sendingsOf]⟩
  | cons cur rest ih =>
    obtain ⟨hcur, hrest⟩ := storeOk_cons.mp h
    rcases Nat.eq_zero_or_pos m.msgsOut.inflightQuota with hq | hq
    · have hnone : takesOn alloc m (cur :: rest) = [] := by simp [takesOn, released, hq]
      rw [releaseLoop_full _ hq, hnone]
      exact ⟨.refl _, by simp [releaseHands, hq, sendingsOf]⟩
    by_cases hi : cur.qos > 0 ∧ cur.state = .invalid
    · obtain ⟨q, hq'⟩ := Nat.exists_eq_succ_of_ne_zero hq.ne'
      have hnot := not_ready_released hcur
      cases hc : canPublish alloc m cur.released with
      | true =>
        have hsock : m.sock ≠ none := by
          intro hs
          simp [canPublish, hs] at hc
        have hd : (decrementSendQuota (packetQueue m (publishPacket m cur.released))).msgsOut.inflightQuota =
            q := by
          simp [decrementSendQuota, MsgData.decrementQuota, hq']
        have htakes : takesOn alloc m (cur :: rest) =
            cur :: takesOn alloc (decrementSendQuota (packetQueue m (publishPacket m cur.released))) rest := by
          simp only [takesOn, hq', released_take hi, List.takeWhile_cons, hc, hd]
          rfl
        obtain ⟨hp, hs⟩ := ih (decrementSendQuota (packetQueue m (publishPacket m cur.released))) hrest
        rw [releaseLoop_send hq hi hc, htakes]
        refine ⟨.sent hsock (by simp [ready, hi.2]) ⟨rfl, rfl, fun hr => ?_⟩ hp, ?_⟩
        · have : ready cur.released = true := hr
          rw [hnot] at this
          cases this
        · have hone : sendingOf m.sock (cur.released, publishPacket m cur.released) =
              some (cur.sending m.sock) := by
            have hne : cur.qos ≠ 0 := hi.1.ne'
            simp [sendingOf, publishPacket, Message.sending, Message.released, hne, hi.2]
          rw [releaseHands, if_pos hq, if_pos hi, if_pos hc, sendingsOf, List.filterMap_cons_some hone,
            List.map_cons]
          exact congrArg _ hs
      | false =>
        obtain ⟨rc, -, e⟩ := releaseLoop_fail rest hq hi hc
        have hnone : takesOn alloc m (cur :: rest) = [] := by
          rw [takesOn, hq', released_take hi, List.takeWhile_cons_of_neg (by simp [hc])]
        rw [e, hnone]
        refine ⟨.keep ⟨rfl, rfl, fun hr => ?_⟩ (.refl rest), by simp [releaseHands, hq, hi, hc, sendingsOf]⟩
        rw [hnot] at hr
        cases hr
    · have hskip : takesOn alloc m (cur :: rest) = takesOn alloc m rest := by
        rw [takesOn, released_keep hi, takesOn]
      obtain ⟨hp, hs⟩ := ih m hrest
      rw [releaseLoop_keep hq hi, hskip]
      refine ⟨.keep (.refl cur) hp, ?_⟩
      rw [releaseHands, if_pos hq, if_neg hi]
      exact hs

theorem passes_release (h : StoreOk m.msgsOut.inflight) :
    Passes m.sock m.msgsOut.inflight (messageReleaseToInflight alloc m).1.msgsOut.inflight
    (takesOn alloc m m.msgsOut.inflight) ∧
      sendingsOf m.sock (releaseHands alloc m m.msgsOut.inflight) =
        (takesOn alloc m m.msgsOut.inflight).map (Message.sending m.sock) :=
  passes_releaseLoop alloc m h

/-- A release sends what has never been sent. -/
theorem takesOn_invalid {e : Message} {l : List Message} (h : e ∈ takesOn alloc m l) : e.state = .invalid := by
  have hmem : e ∈ l.filter fun e => e.qos > 0 ∧ e.state = .invalid :=
    List.mem_of_mem_take ((List.takeWhile_sublist _).subset h)
  exact (of_decide_eq_true (List.mem_filter.mp hmem).2).2

/-- What a release leaves unsent comes last, as it was. -/
theorem release_split {l : List Message} (h : StoreOk l) : ∃ l1 l2, (releaseLoop alloc m l).2.1 = l1 ++ l2 ∧
    l2.Sublist l ∧
    ∀ e ∈ l1, e.state ≠ .invalid := by
  induction l generalizing m with
  | nil => exact ⟨[], [], rfl, .slnil, by simp⟩
  | cons cur rest ih =>
    obtain ⟨hcur, hrest⟩ := storeOk_cons.mp h
    have hpos : cur.qos > 0 := by
      rcases hcur with ⟨hq, -⟩ | ⟨hq, -⟩
      · omega
      · omega
    rcases Nat.eq_zero_or_pos m.msgsOut.inflightQuota with hq | hq
    · rw [releaseLoop_full _ hq]
      exact ⟨[], cur :: rest, rfl, .refl _, by simp⟩
    by_cases hi : cur.qos > 0 ∧ cur.state = .invalid
    · have hnot : cur.released.state ≠ .invalid := by
        intro hs
        have := not_ready_released hcur
        simp [ready, hs] at this
      cases hc : canPublish alloc m cur.released with
      | true =>
        obtain ⟨l1, l2, hl, hsub, hl1⟩ :=
          ih (decrementSendQuota (packetQueue m (publishPacket m cur.released))) hrest
        rw [releaseLoop_send hq hi hc]
        refine ⟨{ cur.released with sentOn := m.sock } :: l1, l2, by rw [hl]; rfl, hsub.cons _, ?_⟩
        exact List.forall_mem_cons.mpr ⟨hnot, hl1⟩
      | false =>
        obtain ⟨rc, -, e⟩ := releaseLoop_fail rest hq hi hc
        rw [e]
        exact ⟨[cur.released], rest, rfl, List.sublist_cons_self .., by simpa using hnot⟩
    · obtain ⟨l1, l2, hl, hsub, hl1⟩ := ih m hrest
      rw [releaseLoop_keep hq hi]
      refine ⟨cur :: l1, l2, by rw [hl]; rfl, hsub.cons _,
        List.forall_mem_cons.mpr ⟨fun hs => hi ⟨hpos, hs⟩, hl1⟩⟩

end Release

/-! ## Retry -/

section Retry

variable (alloc : Alloc) (m : Mosq)

theorem sock_sendPublish (e : Message) : (sendPublish alloc m e).1.sock = m.sock :=
  sock_of_conn (conn_sendPublish ..)

/-- What a retry sends does not change what it can send. -/
theorem retried_congr {m m' : Mosq} (hs : m'.sock = m.sock) (hl : m'.limits = m.limits) (l : List Message) :
    retried alloc m' l = retried alloc m l := by
  have hc : canRetry alloc m' = canRetry alloc m := funext fun e => canPublish_congr alloc hs hl _
  rw [retried, hc]
  rfl

theorem retried_skip {e : Message} {l : List Message} (h : due e = false) :
    retried alloc m (e :: l) = retried alloc m l := by
  simp [retried, h]

theorem retryLoop_due {msg : Message} (rest : List Message) (hd : due msg = true) :
    let msg' := { msg with dup := true }
    let s := sendPublish alloc m msg'
    retryLoop alloc m (msg :: rest) = ((retryLoop alloc s.1 rest).1,
        (if s.2 = .success then { msg' with sentOn := m.sock } else msg') :: (retryLoop alloc s.1 rest).2) ∧
      retryHands alloc m (msg :: rest) =
        (if s.2 = .success then [(msg', publishPacket m msg')] else []) ++ retryHands alloc s.1 rest := by
  have hs : msg.state = .publishQos1 ∨ msg.state = .publishQos2 := by simpa [due] using hd
  dsimp only
  constructor
  · rw [retryLoop]
    split
    · rfl
    · rfl
    all_goals simp_all
  · rw [retryHands]
    split
    · rfl
    · rfl
    all_goals simp_all

/-- A retry answers what is not due with an acknowledgement, if with anything. -/
theorem retryLoop_other {msg : Message} (rest : List Message) (hd : due msg = false) : ∃ m' msg' l,
    retryLoop alloc m (msg :: rest) = ((retryLoop alloc m' rest).1, msg' :: (retryLoop alloc m' rest).2) ∧
      retryHands alloc m (msg :: rest) = l ++ retryHands alloc m' rest ∧ m'.sock = m.sock ∧ m'.limits = m.limits ∧
        (msg' = msg ∨ (msg' = { msg with dup := true } ∧ msg.state ≠ .invalid)) ∧ sendingsOf m.sock l = [] := by
  have hrec := sock_of_conn (conn_sendPubrec alloc m msg.mid 0)
  have hrel := sock_of_conn (conn_sendPubrel alloc m msg.mid)
  have hnone {p : Packet} {b : Prop} [Decidable b] (hp : p.isPublish = false) :
      sendingsOf m.sock (if b then [(msg, p)] else []) = [] := by
    split
    · cases p <;> first | rfl | cases hp
    · rfl
  by_cases h1 : msg.state = .waitForPubrel
  · refine ⟨(sendPubrec alloc m msg.mid 0).1, { msg with dup := true }, _, by simp only [retryLoop, h1],
      by simp only [retryHands, h1]; rfl, hrec, limits_sendPubrec _ _, .inr ⟨rfl, by simp [h1]⟩,
      hnone (p := .pubrec msg.mid 0) rfl⟩
  by_cases h2 : msg.state = .resendPubrel ∨ msg.state = .waitForPubcomp
  · refine ⟨(sendPubrel alloc m msg.mid).1, { msg with dup := true },
      if (sendPubrel alloc m msg.mid).2 = .success then [(msg, .pubrel msg.mid)] else [], ?_, ?_, hrel,
      limits_sendPacket _ _, .inr ⟨rfl, ?_⟩, hnone (p := .pubrel msg.mid) rfl⟩
    · rcases h2 with h2 | h2 <;> simp only [retryLoop, h2]
    · rcases h2 with h2 | h2 <;> simp only [retryHands, h2]
    · rcases h2 with h2 | h2 <;> simp [h2]
  · refine ⟨m, msg, [], ?_, ?_, rfl, rfl, .inl rfl, rfl⟩
    · rw [retryLoop]
      split
      all_goals simp_all [due]
    · rw [retryHands]
      split
      all_goals simp_all [due]

/-- A message that is due is sent again, or passed over. -/
theorem passes_due {msg : Message} {rest l' : List Message} (hq : msg.qos ≠ 0) (hd : due msg = true)
    (hp : Passes m.sock rest l' (retried alloc m rest)) :
    let msg' := { msg with dup := true }
    Passes m.sock (msg :: rest) ((if (sendPublish alloc m msg').2 = .success then
      { msg' with sentOn := m.sock } else msg') :: l')
      (retried alloc m (msg :: rest)) ∧
    sendingsOf m.sock (if (sendPublish alloc m msg').2 = .success then [(msg', publishPacket m msg')] else []) ++
      (retried alloc m rest).map (Message.sending m.sock) =
        (retried alloc m (msg :: rest)).map (Message.sending m.sock) := by
  have hi : msg.state ≠ .invalid := by
    intro hs
    simp [due, hs] at hd
  dsimp only
  cases hc : canRetry alloc m msg with
  | true =>
    have hc' : canPublish alloc m { msg with dup := true } = true := hc
    have hsock : m.sock ≠ none := by
      intro hs
      simp [canPublish, hs] at hc'
    have hcons : retried alloc m (msg :: rest) = msg :: retried alloc m rest := by simp [retried, hd, hc]
    rw [sendPublish_ok hc', if_pos rfl, if_pos rfl, hcons]
    refine ⟨.sent hsock (by simp [ready, hd]) ⟨rfl, rfl, fun _ => ⟨rfl, hi⟩⟩ hp, ?_⟩
    simp [sendingsOf, sendingOf, publishPacket, Message.sending, hq, hi]
  | false =>
    have hc' : canPublish alloc m { msg with dup := true } = false := hc
    obtain ⟨rc, hne, e⟩ := sendPublish_fail hc'
    have hcons : retried alloc m (msg :: rest) = retried alloc m rest := by simp [retried, hc]
    rw [e, if_neg hne, if_neg hne, hcons]
    exact ⟨.keep ⟨rfl, rfl, fun _ => ⟨rfl, fun hs => absurd hs hi⟩⟩ hp, rfl⟩

theorem passes_retryLoop {l : List Message} (h : StoreOk l) :
    Passes m.sock l (retryLoop alloc m l).2 (retried alloc m l) ∧
      sendingsOf m.sock (retryHands alloc m l) = (retried alloc m l).map (Message.sending m.sock) := by
  induction l generalizing m with
  | nil => exact ⟨.nil, rfl⟩
  | cons msg rest ih =>
    obtain ⟨hmsg, hrest⟩ := storeOk_cons.mp h
    have hqos : msg.qos ≠ 0 := by
      rcases hmsg with ⟨hq, -⟩ | ⟨hq, -⟩
      · omega
      · omega
    -- the rest, when this much has been sent
    have hnext {m' : Mosq} (hs : m'.sock = m.sock) (hl : m'.limits = m.limits) :
        Passes m.sock rest (retryLoop alloc m' rest).2 (retried alloc m rest) ∧
          sendingsOf m.sock (retryHands alloc m' rest) = (retried alloc m rest).map (Message.sending m.sock) := by
      rw [← hs, ← retried_congr alloc hs hl]
      exact ih m' hrest
    cases hd : due msg with
    | true =>
      obtain ⟨hl, hh⟩ := retryLoop_due alloc m rest hd
      obtain ⟨hp, hs⟩ := hnext (sock_sendPublish alloc m { msg with dup := true }) (limits_sendPublish _)
      obtain ⟨hp', hs'⟩ := passes_due alloc m hqos hd hp
      rw [hl, hh]
      refine ⟨hp', ?_⟩
      rw [sendingsOf, List.filterMap_append, ← hs', ← hs]
      rfl
    | false =>
      obtain ⟨m', msg', l, hl, hh, hsock, hlim, hmsg', hnone⟩ := retryLoop_other alloc m rest hd
      obtain ⟨hp, hs⟩ := hnext hsock hlim
      rw [hl, hh, retried_skip alloc m hd]
      refine ⟨.keep ?_ hp, ?_⟩
      · rcases hmsg' with hm | ⟨hm, hi⟩
        · rw [hm]
          exact .refl msg
        · rw [hm]
          exact ⟨rfl, rfl, fun _ => ⟨rfl, fun h => absurd h hi⟩⟩
      · rw [sendingsOf, List.filterMap_append]
        rw [sendingsOf] at hnone
        rw [hnone]
        exact hs

theorem states_retryLoop (l : List Message) :
    (retryLoop alloc m l).2.map (fun e => (e.qos, e.state)) = l.map fun e => (e.qos, e.state) := by
  induction l generalizing m with
  | nil => rfl
  | cons msg rest ih =>
    cases hd : due msg with
    | true =>
      rw [(retryLoop_due alloc m rest hd).1, List.map_cons, List.map_cons, ih]
      split
      · rfl
      · rfl
    | false =>
      obtain ⟨m', msg', l, hl, -, -, -, hmsg' | ⟨hmsg', -⟩, -⟩ := retryLoop_other alloc m rest hd
      · rw [hl, List.map_cons, List.map_cons, ih, hmsg']
      · rw [hl, List.map_cons, List.map_cons, ih, hmsg']

end Retry

/-! ## Packets -/

section Packets

variable (alloc : Alloc) (m : Mosq)

/-- What the handler of a packet makes of the store: it comes to a release, after it has taken a message out
    or not; or to none, and then a message of QoS 2 has been received at most. -/
inductive PacketStore (p : InPacket) : Prop where
  | none : packetRelease m p = .none → (handlePacket alloc m p).1.msgsOut.inflight = m.msgsOut.inflight →
      PacketStore p
  | received (mid : UInt16) : packetRelease m p = .none →
      (handlePacket alloc m p).1.msgsOut.inflight = setFirstState mid .waitForPubcomp m.msgsOut.inflight →
        PacketStore p
  | released (m1 : Mosq) : packetRelease m p = some m1 →
      (handlePacket alloc m p).1.msgsOut.inflight = (messageReleaseToInflight alloc m1).1.msgsOut.inflight →
      m1.sock = m.sock → m1.limits = m.limits →
      (m1.msgsOut.inflight = m.msgsOut.inflight ∨
        ∃ mid, m1.msgsOut.inflight = m.msgsOut.inflight.eraseP (·.mid = mid)) →
      PacketStore p

theorem store_handlePubackcomp (type : Ack) (mid : Except Rc UInt16) (tail : Except Rc UInt8) :
    PacketStore alloc m (.pubackcomp type mid tail) := by
  have hq := inflight_incrementSendQuota m
  by_cases hs : m.state = .active
  · cases hr : readAck m mid tail with
    | error rc => exact .none (by simp [packetRelease, hs, hr]) (by simp [handlePacket, handlePubackcomp, hs, hr])
    | ok r =>
      cases he : messageRemove (incrementSendQuota m).msgsOut r.1 type.qos with
      | ok x =>
        obtain ⟨-, -, hl, -, -⟩ := messageRemove_ok he
        refine .released (completeMessage (incrementSendQuota m) x.2 r.1) (by simp [packetRelease, hs, hr, he])
          (by simp [handlePacket, handlePubackcomp, acknowledge, hs, hr, he]) rfl rfl (.inr ⟨r.1, ?_⟩)
        rw [← hq]
        exact hl
      | error rc =>
        by_cases hn : rc = .notFound
        · subst hn
          exact .released (incrementSendQuota m) (by simp [packetRelease, hs, hr, he])
            (by simp [handlePacket, handlePubackcomp, acknowledge, hs, hr, he]) rfl rfl (.inl hq)
        · refine .none ?_ ?_
          · simp only [packetRelease, hs, hr, he, ne_eq, not_true_eq_false, if_false]
          · simp only [handlePacket, handlePubackcomp, acknowledge, hs, hr, he, ne_eq,
              not_true_eq_false, if_false]
            exact hq
  · exact .none (by simp [packetRelease, hs]) (by simp [handlePacket, handlePubackcomp, hs])

theorem store_handlePubrec (mid : Except Rc UInt16) (tail : Except Rc UInt8) :
    PacketStore alloc m (.pubrec mid tail) := by
  have hq := inflight_incrementSendQuota m
  by_cases hs : m.state = .active
  · cases hr : readAck m mid tail with
    | error rc => exact .none (by simp [packetRelease, hs, hr]) (by simp [handlePacket, handlePubrec, hs, hr])
    | ok r =>
      by_cases hc : r.2 < 0x80 ∨ m.protocol ≠ .mqtt5
      · have hnone : packetRelease m (.pubrec mid tail) = .none := by simp [packetRelease, hs, hr, hc]
        have hstore : (handlePacket alloc m (.pubrec mid tail)).1 = (receiveMessage alloc m r.1).1 := by
          simp [handlePacket, handlePubrec, hs, hr, hc]
        unfold receiveMessage messageOutUpdate at hstore
        cases hf : m.msgsOut.inflight.find? (·.mid = r.1) with
        | none =>
          refine .none hnone ?_
          rw [hstore, hf]
          simp
        | some e =>
          by_cases he : e.qos = 2
          · refine .received r.1 hnone ?_
            rw [hstore, hf]
            simp [he]
          · refine .none hnone ?_
            rw [hstore, hf]
            simp [he]
      · cases he : messageRemove m.msgsOut r.1 2 with
        | ok x =>
          obtain ⟨-, -, hl, -, -⟩ := messageRemove_ok he
          refine .released (incrementSendQuota (completeMessage m x.2 r.1)) ?_ ?_ rfl rfl (.inr ⟨r.1, ?_⟩)
          · simp [packetRelease, hs, hr, hc, he]
          · simp [handlePacket, handlePubrec, refuseMessage, hs, hr, hc, he]
          · rw [inflight_incrementSendQuota]
            exact hl
        | error rc =>
          refine .released (incrementSendQuota m) ?_ ?_ rfl rfl (.inl hq)
          · simp [packetRelease, hs, hr, hc, he]
          · simp [handlePacket, handlePubrec, refuseMessage, hs, hr, hc, he]
  · exact .none (by simp [packetRelease, hs]) (by simp [handlePacket, handlePubrec, hs])

theorem packet_store (p : InPacket) : PacketStore alloc m p := by
  cases p with
  | pubackcomp type mid tail => exact store_handlePubackcomp alloc m type mid tail
  | pubrec mid tail => exact store_handlePubrec alloc m mid tail
  | connack flags reason l => exact .none rfl (msgsOut_handleConnack m flags reason l)
  | disconnect reason tail =>
    refine .none rfl ?_
    simp only [handlePacket, handleDisconnect]
    repeat' split
    all_goals simp
  | _ =>
    refine .none rfl ?_
    simp only [handlePacket]
    repeat' split
    all_goals simp

/-- Without a release a packet hands over a PUBREL at most. -/
theorem sendings_unreleased {p : InPacket} (h : packetRelease m p = .none) :
    sendingsOf m.sock (packetHands alloc m p) = [] := by
  unfold packetHands
  rw [h]
  dsimp only
  split
  · split
    · rfl
    · rfl
  · rfl

theorem packetHands_released {m1 : Mosq} {p : InPacket} (h : packetRelease m p = some m1) :
    packetHands alloc m p = releaseHands alloc m1 m1.msgsOut.inflight := by
  unfold packetHands
  rw [h]

end Packets

end Artemisia.Client
