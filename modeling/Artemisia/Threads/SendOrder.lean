/-
  Artemisia.Threads.SendOrder — are the messages of a QoS first sent on a connection in the order of their
  publish calls?

  A release sends what has never been sent, and does not look at what waits to be sent again until the CONNACK;
  the retry passes over what it cannot send and goes on with what comes after it.

  Proved:
  - `behind_release`, `behind_retry`: what a release or a retry passes over is not older than what it sends.
  - `sent_in_order`:                  so over a run whose steps all meet `KeepsOrder`.
  - `overtaken_in_window`:            a message that is published between the new socket and its CONNACK
                                      goes first.
-/
import Artemisia.Threads.Connected
import Artemisia.Threads.Sendings
import Mathlib.Data.List.Nodup

namespace Artemisia.Threads

open Artemisia.Property Artemisia.Client

/-! ## The order -/

/-- A PUBLISH of the message has been handed over on this socket. -/
def sentOver (sock : Option Nat) (uid : Nat) (log : List Sending) : Bool := log.any fun z =>
    z.sock = sock ∧ z.uid = uid

/-- It is no newer than what has been sent of its QoS on this socket. -/
def NewestOn (sock : Option Nat) (qos uid : Nat) (log : List Sending) : Prop :=
  ∀ z ∈ log, z.sock = sock → z.qos = qos → z.uid < uid

/-- Each PUBLISH is one of a message that has been sent on its connection, or comes after all those of its QoS
    that were published before. -/
def InOrder (x : Sys × List Sending) : Prop :=
  Each (fun y t => sentOver y.sock y.uid t = true ∨ NewestOn y.sock y.qos y.uid t) x.2

/-! ## The condition -/

/-- A message that is sent again, and has not been yet on this connection. -/
def owes (sock : Option Nat) (log : List Sending) (e : Message) : Bool := due e ∧ sentOver sock e.uid log = false

/-- A release sends nothing that is newer than such a message of its QoS. -/
def releasesInOrder (alloc : Alloc) (m : Mosq) (log : List Sending) : Bool :=
  (takesOn alloc m m.msgsOut.inflight).all fun e => m.msgsOut.inflight.all fun d =>
    owes m.sock log d ∧ d.qos = e.qos → ¬ d.uid < e.uid

/-- Nor does a retry that passes over it for want of memory. -/
def retriesInOrder (alloc : Alloc) (m : Mosq) (l : List Message) (log : List Sending) : Bool :=
  (Client.retried alloc m l).all fun e => l.all fun d =>
    owes m.sock log d ∧ d.qos = e.qos ∧ canRetry alloc m d = false → ¬ d.uid < e.uid

/-- From `packet__cleanup_all` to the end of the old connection. -/
def clearing : RecPc → Bool
  | .reset | .close => true
  | _ => false

/-- No thread is there. -/
def Clear (s : Sys) : Prop := ∀ side, (pcOf s side).any clearing = false

instance (s : Sys) : Decidable (Clear s) :=
  decidable_of_iff ((pcOf s .queue).any clearing = false ∧ (pcOf s .loop).any clearing = false)
    ⟨fun h side => by cases side; exacts [h.1, h.2], fun h => ⟨h .queue, h .loop⟩⟩

def KeepsOrder (x : Sys × List Sending) (a : Act) : Bool :=
  (sendings x.1 a = [] ∨ Clear x.1) ∧ (releaseAt x.1 a).all (fun r => releasesInOrder r.1 r.2 x.2) ∧
    (retryAt x.1 a).all (fun alloc => retriesInOrder alloc x.1.m x.1.m.msgsOut.inflight x.2)

/-! ## What is passed over -/

/-- What is left to be sent and was not sent is newer than what was, or has been sent on this connection
    before. -/
def Behind (sock : Option Nat) (log new : List Sending) (l : List Message) : Prop :=
  ∀ e ∈ l, ready e = true → (∀ z ∈ new, z.uid ≠ e.uid) →
    sentOver sock e.uid log = true ∨ ∀ z ∈ new, z.qos = e.qos → z.uid < e.uid

/-- In the messages out, after one of a QoS that has never been sent there are only such, and those that have been
    received. -/
def UnsentLast (l : List Message) : Prop :=
  l.Pairwise fun e e' => e.qos = e'.qos → e.state = .invalid → e'.state = .invalid ∨ received e' = true

theorem pairwise_uid {R : Message → Message → Prop} {l : List Message} (hr : l.Pairwise R)
    (hu : (l.map Message.uid).Pairwise (· < ·)) {e x : Message} (he : e ∈ l) (hx : x ∈ l)
    (hlt : e.uid < x.uid) : R e x := by
  induction l with
  | nil => cases he
  | cons y l ih =>
    rw [List.pairwise_cons] at hr
    rw [List.map_cons, List.pairwise_cons] at hu
    have hafter : ∀ z ∈ l, y.uid < z.uid := fun z hz => hu.1 z.uid (List.mem_map_of_mem hz)
    rcases List.mem_cons.mp he with rfl | he1
    · rcases List.mem_cons.mp hx with rfl | hx1
      · exact absurd hlt (Nat.lt_irrefl _)
      · exact hr.1 x hx1
    · rcases List.mem_cons.mp hx with rfl | hx1
      · exact absurd hlt (Nat.not_lt.mpr (hafter e he1).le)
      · exact ih hr.2 hu.2 he1 hx1

theorem eq_of_uid {l : List Message} (hu : (l.map Message.uid).Pairwise (· < ·)) {e x : Message} (he : e ∈ l)
    (hx : x ∈ l)
    (h : e.uid = x.uid) : e = x :=
  List.inj_on_of_nodup_map (hu.imp Nat.ne_of_lt) he hx h

section Passed

variable {alloc : Alloc} {m : Mosq} {log : List Sending} {l : List Message}

/-- What a pass has not sent has never been sent, or waits to be sent again. -/
theorem behind_passes {sock : Option Nat} {l' h : List Message} (hp : Passes sock l l' h)
    (hu : (l.map Message.uid).Pairwise (· < ·))
    (hfresh : ∀ e' ∈ l', e'.state = .invalid → ∀ x ∈ h, x.qos = e'.qos → ¬ e'.uid < x.uid)
    (howed : ∀ e ∈ l, e ∉ h → owes sock log e = true → ∀ x ∈ h, x.qos = e.qos → ¬ e.uid < x.uid) :
    Behind sock log (h.map (Message.sending sock)) l' := by
  intro e' he' hr hne
  simp only [List.forall_mem_map, sending_uid, sending_qos] at hne ⊢
  obtain ⟨e, he, ⟨hsame, hother⟩ | ⟨hsent, hmem⟩⟩ := hp.exists hu e' he'
  · by_cases hi : e'.state = .invalid
    · right
      intro x hx hq
      have hle := hfresh e' he' hi x hx hq
      have := hne x hx
      omega
    · have hd : due e = true := by
        rw [← due_state (hsame.state hr).1]
        simpa [ready, hi] using hr
      cases hs : sentOver sock e'.uid log with
      | true => exact .inl rfl
      | false =>
        right
        intro x hx hq
        have howes : owes sock log e = true := by simp [owes, hd, ← hsame.uid, hs]
        have hle := howed e he (fun hmem => hother e hmem rfl) howes x hx (hq.trans hsame.qos)
        have := hother x hx
        rw [hsame.uid]
        omega
  · exact absurd hsent.uid.symm (hne e hmem)

/-- A release sends the first ones of those that have never been sent. -/
theorem behind_release (h : StoreOk m.msgsOut.inflight)
    (hu : (m.msgsOut.inflight.map Message.uid).Pairwise (· < ·))
    (hg : releasesInOrder alloc m log = true) :
    Behind m.sock log ((takesOn alloc m m.msgsOut.inflight).map (Message.sending m.sock))
      (releaseLoop alloc m m.msgsOut.inflight).2.1 := by
  have hp := (passes_releaseLoop alloc m h).1
  have hord := hu.sublist hp.uids
  refine behind_passes hp hu (fun e' he' hi x hx _ => ?_) (fun e he _ howes x hx hq => ?_)
  · -- what was sent stands before what was not
    obtain ⟨x', hx', hresent⟩ := hp.handed x hx
    obtain ⟨l1, l2, hl, hsub, hl1⟩ := release_split alloc m h
    rw [hl] at he' hx' hord
    have he2 : e' ∈ l2 := (List.mem_append.mp he').resolve_left fun h1 => hl1 e' h1 hi
    have hx1 : x' ∈ l1 := by
      refine (List.mem_append.mp hx').resolve_right fun h2 => hresent.state_ne ?_
      rw [eq_of_uid hu (hsub.subset h2) (hp.sublist.subset hx) hresent.uid]
      exact takesOn_invalid alloc m hx
    rw [List.map_append, List.pairwise_append] at hord
    rw [← hresent.uid]
    exact Nat.lt_asymm (hord.2.2 _ (List.mem_map_of_mem hx1) _ (List.mem_map_of_mem he2))
  · exact of_decide_eq_true (List.all_eq_true.mp (List.all_eq_true.mp hg x hx) e he) ⟨howes, hq.symm⟩

theorem mem_retried {e : Message} : e ∈ Client.retried alloc m l ↔ e ∈ l ∧ due e = true ∧
    canRetry alloc m e = true := by
  simp [Client.retried, List.mem_filter]

/-- A retry sends nothing that comes after what has never been sent. -/
theorem behind_retry (h : StoreOk l) (hu : (l.map Message.uid).Pairwise (· < ·)) (hl : UnsentLast l)
    (hg : retriesInOrder alloc m l log = true) :
    Behind m.sock log ((Client.retried alloc m l).map (Message.sending m.sock)) (retryLoop alloc m l).2 := by
  have hp := (passes_retryLoop alloc m h).1
  refine behind_passes hp hu (fun e' he' hi x hx hq hlt => ?_) (fun e he hnot howes x hx hq => ?_)
  · obtain ⟨hxl, hxd, -⟩ := mem_retried.mp hx
    obtain ⟨e, he, ⟨hsame, -⟩ | ⟨hsent, -⟩⟩ := hp.exists hu e' he'
    · have hstate := (hsame.state (by simp [ready, hi])).1
      rw [hsame.uid] at hlt
      rcases pairwise_uid hl hu he hxl hlt (hsame.qos.symm.trans hq.symm) (hstate.symm.trans hi) with hs | hs
      · simp [due, hs] at hxd
      · rcases (by simpa [received] using hs : x.state = .waitForPubcomp ∨ x.state = .resendPubrel) with hs | hs
        · simp [due, hs] at hxd
        · simp [due, hs] at hxd
    · exact hsent.state_ne hi
  · have hcan : canRetry alloc m e = false := by
      rw [Bool.eq_false_iff]
      intro hc
      rw [owes, Bool.decide_and, Bool.and_eq_true, decide_eq_true_eq] at howes
      exact hnot (mem_retried.mpr ⟨he, howes.1, hc⟩)
    exact of_decide_eq_true (List.all_eq_true.mp (List.all_eq_true.mp hg x hx) e he) ⟨howes, hq.symm, hcan⟩

/-- What the socket and the limits say is all that a retry looks at. -/
theorem retriesInOrder_congr {m' : Mosq} (hs : m'.sock = m.sock) (hl : m'.limits = m.limits) :
    retriesInOrder alloc m' l log = retriesInOrder alloc m l log := by
  have hc : canRetry alloc m' = canRetry alloc m := funext fun e => canPublish_congr alloc hs hl _
  rw [retriesInOrder, retried_congr alloc hs hl, hs, hc]
  rfl

end Passed

/-! ## What has never been sent -/

theorem unsentLast_states {l l' : List Message} (h : UnsentLast l)
    (hs : l'.map (fun e => (e.qos, e.state)) = l.map fun e => (e.qos, e.state)) : UnsentLast l' := by
  have hiff (l : List Message) : UnsentLast l ↔ (l.map fun e => (e.qos, e.state)).Pairwise fun p q =>
      p.1 = q.1 → p.2 = .invalid → q.2 = .invalid ∨
        (decide (q.2 = .waitForPubcomp) || decide (q.2 = .resendPubrel)) = true := by
    rw [List.pairwise_map]
    rfl
  rw [hiff, hs, ← hiff]
  exact h

theorem mem_setFirstState {mid : UInt16} {state : MsgState} {l : List Message} {e : Message}
    (h : e ∈ setFirstState mid state l) : e ∈ l ∨ e.state = state := by
  induction l with
  | nil => cases h
  | cons msg rest ih =>
    unfold setFirstState at h
    split at h
    · rcases List.mem_cons.mp h with rfl | h
      · exact .inr rfl
      · exact .inl (List.mem_cons_of_mem _ h)
    · rcases List.mem_cons.mp h with rfl | h
      · exact .inl (List.mem_cons_self ..)
      · exact (ih h).imp (List.mem_cons_of_mem _) id

theorem unsentLast_setFirstState {mid : UInt16} {l : List Message} (h : UnsentLast l) :
    UnsentLast (setFirstState mid .waitForPubcomp l) := by
  induction l with
  | nil => exact h
  | cons msg rest ih =>
    obtain ⟨hmsg, hrest⟩ := List.pairwise_cons.mp h
    unfold setFirstState
    split
    · exact List.pairwise_cons.mpr ⟨fun _ _ _ hs => (by cases hs), hrest⟩
    · refine List.pairwise_cons.mpr ⟨fun e he hq hs => ?_, ih hrest⟩
      rcases mem_setFirstState he with he | he
      · exact hmsg e he hq hs
      · exact .inr (by simp [received, he])

theorem unsentLast_release {alloc : Alloc} {m : Mosq} {l : List Message} (hs : StoreOk l) (h : UnsentLast l) :
    UnsentLast (releaseLoop alloc m l).2.1 := by
  obtain ⟨l1, l2, hl, hsub, hl1⟩ := release_split alloc m hs
  rw [hl]
  refine List.pairwise_append.mpr ⟨?_, h.sublist hsub, fun e he _ _ _ hi => absurd hi (hl1 e he)⟩
  exact List.pairwise_of_forall_mem_list fun e he _ _ _ hi => absurd hi (hl1 e he)

/-- A reset leaves a message of QoS 2 that has never been sent as it is, and one that has been received. -/
theorem unsentLast_reset {max : Nat} {l : List Message} (hs : StoreOk l) (h : UnsentLast l) :
    UnsentLast (resetOutLoop max l).2 := by
  rw [resetOutLoop_eq]
  refine List.pairwise_append.mpr ⟨?_, ?_, ?_⟩
  · refine List.pairwise_map.mpr (List.Pairwise.imp_of_mem ?_ (h.sublist (List.take_sublist ..)))
    intro e e' he he' hr hq hi
    have hq2 : e.qos = 2 := by
      rcases hs e (List.mem_of_mem_take he) with ⟨hq1, -⟩ | ⟨hq2, -⟩
      · have : resetOutState e = .publishQos1 := by simp [resetOutState, hq1]
        rw [show resetOutState e = .invalid from hi] at this
        cases this
      · exact hq2
    have hq2' : e'.qos = 2 := hq.symm.trans hq2
    rcases hr hq (invalid_resetOutState hi) with hs' | hs'
    · exact .inl (by simp [resetOutState, hq2', hs'])
    · right
      rcases (by simpa [received] using hs' : e'.state = .waitForPubcomp ∨
          e'.state = .resendPubrel) with hs' | hs'
      · simp [received, resetOutState, hq2', hs']
      · simp [received, resetOutState, hq2', hs']
  · exact List.pairwise_of_forall_mem_list fun e he e' he' _ _ => by
      obtain ⟨x, -, rfl⟩ := List.mem_map.mp he'
      exact .inl rfl
  · intro e _ e' he' _ _
    obtain ⟨x, -, rfl⟩ := List.mem_map.mp he'
    exact .inl rfl

section Steps

variable {s s' : Sys} {a : Act} {l : List Message}

theorem unsentLast_stored (h : UnsentLast s.m.msgsOut.inflight) :
    UnsentLast (s.m.msgsOut.inflight ++ stored s a) := by
  refine List.pairwise_append.mpr ⟨h, ?_, fun _ _ e' he' _ _ => .inl (stored_uid he').2.1⟩
  exact List.pairwise_of_forall_mem_list fun _ _ e' he' _ _ => .inl (stored_uid he').2.1

theorem unsentLast_step (hm : SendMoves s a l) (hs : StoreOk s.m.msgsOut.inflight)
    (h : UnsentLast s.m.msgsOut.inflight) :
    UnsentLast l := by
  cases hm with
  | same _ _ hl =>
    rw [hl]
    exact h
  | received mid _ _ hl =>
    rw [hl]
    exact unsentLast_setFirstState h
  | released alloc m _ _ hl _ hm =>
    have hsub := released_sublist hm
    rw [hl]
    exact unsentLast_release (fun e he => storeOk_stored (a := a) hs e (hsub.subset he))
      ((unsentLast_stored h).sublist hsub)
  | retried alloc m _ _ _ _ _ hl =>
    rw [hl]
    exact unsentLast_states h (states_retryLoop alloc m _)
  | reset _ _ _ hl =>
    rw [hl]
    exact unsentLast_reset hs h

end Steps

/-! ## One step -/

structure Ordered (x : Sys × List Sending) : Prop where
  numbers : Numbers x
  created : Created x.1
  numbered : Numbered x.1
  onSocket : ∀ z ∈ x.2, ∃ c, z.sock = some c ∧ c < x.1.m.conns
  unsentLast : UnsentLast x.1.m.msgsOut.inflight
  /-- What is to be sent is newer than what has been sent on the connection, or has been sent on it. -/
  newest : Clear x.1 → ∀ e ∈ x.1.m.msgsOut.inflight, ready e = true →
    sentOver x.1.m.sock e.uid x.2 = true ∨ NewestOn x.1.m.sock e.qos e.uid x.2
  inOrder : InOrder x

section Run

variable {x y : Sys × List Sending} {a : Act}

/-- A step leaves both threads out of there with the same connection if it was so before, or there is no
    connection, or a new one. -/
theorem step_cover {s s' : Sys} (hi : Created s) (h : step s a = some s') (hc : Clear s') :
    (s'.m.sock = s.m.sock ∧ Clear s ∧ resets s a = false) ∨ s'.m.sock = none ∨ s'.m.sock = some s.m.conns := by
  have hother := call_other hi (c := .act a) h
  -- the thread itself is not there
  have hclear (hp : (pcOf s (sideOf (.act a))).any clearing = false) : Clear s := by
    intro side
    rcases side_cases (sideOf (.act a)) side with hs | hs
    · rw [hs]
      exact hp
    · rw [hs, ← hother]
      exact hc _
  have hreset (hr : ∀ env l, recAt s a ≠ some (env, .reset, l)) : resets s a = false := by
    rw [Bool.eq_false_iff]
    intro hres
    obtain ⟨env, l, hat⟩ := resets_recAt hres
    exact hr env l hat
  cases call_sides (c := .act a) h with
  | piece b env pc l next hb hat hm hp hp' =>
    cases hb
    have hnot := hc (sideOf (.act a))
    rw [hp'] at hnot
    have hsame (hsock : s'.m.sock = s.m.sock) (hpc : clearing pc = false) :
        s'.m.sock = s.m.sock ∧ Clear s ∧ resets s a = false := by
      refine ⟨hsock, hclear (by rw [hp]; exact hpc), hreset fun env' l' hat' => ?_⟩
      rw [hat] at hat'
      cases hat'
      cases hpc
    generalize s'.m = m' at hm hsame ⊢
    cases hm with
    | start => cases hnot
    | reset => cases hnot
    | close => exact .inr (.inl rfl)
    | opened ho => exact .inr (.inr rfl)
    | sent hs => exact .inl (hsame (sock_of_conn (conn_sendConnect ..)) rfl)
    | unsent rc hs => exact .inl (hsame (sock_of_conn (conn_sendConnect ..)) rfl)
    | failed rc => exact .inr (.inl rfl)
    | unopened rc hp ho => exact .inr (.inl rfl)
    | _ => exact .inl (hsame rfl rfl)
  | away ha hp hsock hconns =>
    have hnone := pcOf_away (c := .act a) h ha
    rcases hsock with hsock | hsock
    · refine .inl ⟨hsock, hclear (by rw [hnone]; rfl), hreset fun env l hat => ?_⟩
      rw [ha a rfl] at hat
      cases hat
    · exact .inr (.inl hsock)

theorem conns_step {s s' : Sys} (h : step s a = some s') : s.m.conns ≤ s'.m.conns := by
  cases call_sides (c := .act a) h with
  | piece b env pc l next hb hat hm hp hp' =>
    generalize s'.m = m' at hm ⊢
    cases hm with
    | opened ho => exact Nat.le_succ _
    | sent hs => exact (conns_of_conn (conn_sendConnect ..)).ge
    | unsent rc hs => exact (conns_of_conn (conn_sendConnect ..)).ge
    | _ => exact Nat.le_refl _
  | away ha hp hsock hconns => exact hconns.ge

/-- What a step hands over goes to a socket. -/
theorem sendings_sock {s s' : Sys} (hs : StoreOk s.m.msgsOut.inflight) (hn : Numbered s) (h : Moves s a s') :
    ∀ z ∈ sendings s a, ∃ c, z.sock = some c ∧ c < s.m.conns := by
  intro z hz
  cases hr : resets s a with
  | true =>
    rw [(reset_sends h hr).1] at hz
    cases hz
  | false =>
    obtain ⟨l, hp, hh⟩ := passes_step (step_sends h) hs hr
    rw [hh] at hz
    obtain ⟨e, he, rfl⟩ := List.mem_map.mp hz
    obtain ⟨c, hc⟩ := Option.ne_none_iff_exists'.mp (hp.ready e he).1
    exact ⟨c, hc, hn c hc⟩

theorem behind_step {l : List Message} (hi : Ordered x) (hg : KeepsOrder x a = true) (hm : SendMoves x.1 a l)
    (hr : resets x.1 a = false) : Behind x.1.m.sock x.2 (sendings x.1 a) l := by
  obtain ⟨-, hrel, hret⟩ := of_decide_eq_true hg
  have hnone (h : sendings x.1 a = []) : Behind x.1.m.sock x.2 (sendings x.1 a) l := by
    intro e _ _ _
    right
    simp [h]
  cases hm with
  | same h => exact hnone h
  | received mid h => exact hnone h
  | released alloc m hat hsend hl hsock hm =>
    have hsub := released_sublist hm
    have hs : StoreOk m.msgsOut.inflight := fun e he =>
        storeOk_stored (a := a) hi.numbers.store e (hsub.subset he)
    have hu := (uids_stored (a := a) hi.numbers.uids).sublist (hsub.map _)
    rw [hat] at hrel
    have hb := behind_release hs hu hrel
    rw [hsend, hl, ← hsock, (passes_release alloc m hs).2]
    exact hb
  | retried alloc m hat hst hsock hlim hsend hl =>
    rw [hat] at hret
    have hg : retriesInOrder alloc m x.1.m.msgsOut.inflight x.2 = true := by
      rw [retriesInOrder_congr hsock hlim]
      exact hret
    have hb := behind_retry hi.numbers.store hi.numbers.uids.inOrder hi.unsentLast hg
    rw [hsend, hl, ← hsock, (passes_retryLoop alloc m hi.numbers.store).2]
    exact hb
  | reset h =>
    rw [h] at hr
    cases hr

/-- Where no thread is on its way to a new connection, this holds of the message that is stored too. -/
theorem newestOn_stored (hi : Ordered x) (hc : Clear x.1) {e : Message}
    (he : e ∈ x.1.m.msgsOut.inflight ++ stored x.1 a) (hr : ready e = true) :
    sentOver x.1.m.sock e.uid x.2 = true ∨ NewestOn x.1.m.sock e.qos e.uid x.2 := by
  rcases List.mem_append.mp he with he | he
  · exact hi.newest hc e he hr
  · right
    intro z hz _ _
    rw [(stored_uid he).1]
    exact hi.numbers.below z hz

theorem sentOver_append {sock : Option Nat} {uid : Nat} {l log : List Sending}
    (h : sentOver sock uid log = true) :
    sentOver sock uid (l ++ log) = true := by
  rw [sentOver, List.any_append, Bool.or_eq_true]
  exact .inr h

theorem inOrder_step (hi : Ordered x) (hg : KeepsOrder x a = true) {h l : List Message}
    (hp : Passes x.1.m.sock (x.1.m.msgsOut.inflight ++ stored x.1 a) l h)
    (hh : sendings x.1 a = h.map (Message.sending x.1.m.sock)) :
    Each (fun y t => sentOver y.sock y.uid t = true ∨ NewestOn y.sock y.qos y.uid t)
    ((sendings x.1 a).reverse ++ x.2) := by
  refine each_append hi.inOrder (fun pre y post hy => ?_)
  have hclear : Clear x.1 := by
    refine (of_decide_eq_true hg).1.resolve_left fun hnone => ?_
    rw [hnone] at hy
    cases pre <;> cases hy
  rw [hh] at hy
  obtain ⟨e, hmem, rfl, hlt⟩ := hp.split (uids_stored hi.numbers.uids) hy
  rcases newestOn_stored hi hclear (hp.sublist.subset hmem) (hp.ready e hmem).2 with hsent | hnew
  · exact .inl (sentOver_append hsent)
  · right
    intro z hz hsock hq
    rcases List.mem_append.mp hz with hz | hz
    · exact hlt z (List.mem_reverse.mp hz)
    · exact hnew z hz hsock hq

/-- After a step on the same connection. -/
theorem newestOn_step (hi : Ordered x) (hc : Clear x.1) {h l : List Message}
    (hp : Passes x.1.m.sock (x.1.m.msgsOut.inflight ++ stored x.1 a) l h)
    (hh : sendings x.1 a = h.map (Message.sending x.1.m.sock)) (hb : Behind x.1.m.sock x.2 (sendings x.1 a) l) :
    ∀ e ∈ l, ready e = true → sentOver x.1.m.sock e.uid ((sendings x.1 a).reverse ++ x.2) = true ∨
      NewestOn x.1.m.sock e.qos e.uid ((sendings x.1 a).reverse ++ x.2) := by
  intro e' he' hr
  obtain ⟨e, he, ⟨hsame, hne⟩ | ⟨hsent, hmem⟩⟩ := hp.exists (uids_stored hi.numbers.uids) e' he'
  · have hre : ready e = true := by
      rw [ready, ← (hsame.state hr).1, ← due_state (hsame.state hr).1]
      exact hr
    have hnot : ∀ z ∈ sendings x.1 a, z.uid ≠ e'.uid := by
      rw [hh, List.forall_mem_map, hsame.uid]
      exact hne
    have hold := newestOn_stored hi hc he hre
    rw [← hsame.uid, ← hsame.qos] at hold
    rcases hb e' he' hr hnot with hsent | hlt
    · exact .inl (sentOver_append hsent)
    · rcases hold with hsent | hnew
      · exact .inl (sentOver_append hsent)
      · right
        intro z hz hsock hq
        rcases List.mem_append.mp hz with hz | hz
        · exact hlt z (List.mem_reverse.mp hz) hq
        · exact hnew z hz hsock hq
  · left
    rw [sentOver, List.any_eq_true]
    refine ⟨e.sending x.1.m.sock, List.mem_append_left _ (List.mem_reverse.mpr ?_), by simp [hsent.uid]⟩
    rw [hh]
    exact List.mem_map_of_mem hmem

theorem step_inOrder (hi : Ordered x) (hg : KeepsOrder x a = true) (h : sendStep x a = some y) : Ordered y := by
  have hn := step_numbers hi.numbers h
  obtain ⟨hst, hlog⟩ := Machine.recorded_some.mp h
  rw [noteSendings] at hlog
  have hm := step_moves hst
  have hold : ∀ z ∈ y.2, ∃ c, z.sock = some c ∧ c < x.1.m.conns := by
    intro z hz
    rw [hlog] at hz
    rcases List.mem_append.mp hz with hz | hz
    · exact sendings_sock hi.numbers.store hi.numbered hm z (List.mem_reverse.mp hz)
    · exact hi.onSocket z hz
  refine ⟨hn, call_created hi.created (c := .act a) hst, step_numbered hi.numbered (step_flag hm), fun z hz => ?_,
    unsentLast_step (step_sends hm) hi.numbers.store hi.unsentLast, fun hc => ?_, ?_⟩
  · obtain ⟨c, hsock, hlt⟩ := hold z hz
    exact ⟨c, hsock, hlt.trans_le (conns_step hst)⟩
  · rcases step_cover hi.created hst hc with ⟨hsock, hclear, hr⟩ | hsock
    · obtain ⟨l, hp, hh⟩ := passes_step (step_sends hm) hi.numbers.store hr
      rw [hsock, hlog]
      exact newestOn_step hi hclear hp hh (behind_step hi hg (step_sends hm) hr)
    · -- nothing has been handed over on this connection
      intro e he _
      right
      intro z hz hz'
      obtain ⟨c, hc', hlt⟩ := hold z hz
      rcases hsock with hsock | hsock
      · rw [hc', hsock] at hz'
        cases hz'
      · rw [hc', hsock, Option.some.injEq] at hz'
        omega
  · unfold InOrder
    rw [hlog]
    cases hr : resets x.1 a with
    | true =>
      rw [(reset_sends hm hr).1]
      exact hi.inOrder
    | false =>
      obtain ⟨l, hp, hh⟩ := passes_step (step_sends hm) hi.numbers.store hr
      exact inOrder_step hi hg hp hh

end Run

/-! ## Runs -/

/-- In a run whose steps all meet the condition, the messages of QoS 1, and those of QoS 2, are first sent on each
    connection in the order of their publish calls. -/
theorem sent_in_order {x : Sys × List Sending} {id : Option Bytes} {cleanStart : Bool}
    (h : Machine.Reach sendStep (· = sendInit id cleanStart) (fun x a => KeepsOrder x a = true) x) :
    InOrder x := by
  have hi : Ordered x := by
    refine h.inv (fun x hx => ?_) (fun _ _ _ hi hg hs => step_inOrder hi hg hs)
    have hn := init_numbers hx
    subst hx
    exact ⟨hn, Created.init id cleanStart, fun c hc => (by cases hc), by simp [sendInit], .nil,
      fun _ e he => (by cases he), trivial⟩
  exact hi.inOrder

/-- A message is not acknowledged when the connection is lost, and another is published before the reset. -/
def resentInOrder : List Act :=
  established [] ++ [publishes] ++ loses ++ [publishes, tick, tick, tick] ++ reconnects

theorem sent_in_order_resent : ∃ x, Machine.run sendStep (sendInit none true) resentInOrder = some x ∧
    x.2.map (fun y => (y.uid, y.sock)) = [(1, some 1), (0, some 1), (0, some 0)] ∧ InOrder x := by
  have hm : Machine.Meets sendStep (fun x a => KeepsOrder x a = true) (sendInit none true) resentInOrder := by
    decide +kernel
  have hr : (Machine.run sendStep (sendInit none true) resentInOrder).map (fun x => x.2.map fun y =>
      (y.uid, y.sock)) =
      some [(1, some 1), (0, some 1), (0, some 0)] := by decide
  obtain ⟨x, hx, hreach, hl⟩ := Machine.reach_of_map (· = sendInit none true) rfl hm hr
  exact ⟨x, hx, hl, sent_in_order hreach⟩

/-- The second message is published when the new connection has sent its CONNECT. -/
def inWindow : List Act :=
  established [] ++ [publishes] ++ loses ++ List.replicate 6 tick ++ [publishes] ++ writes ++ ends ++
    reads (connack 0 []) ++ [tick]

/-- It is sent at once, and the first one when the CONNACK has come. -/
theorem overtaken_in_window : ¬ ∀ x, Machine.Reach sendStep (· = sendInit none true) Machine.anyAct x →
    InOrder x := by
  intro h
  have hr : (Machine.run sendStep (sendInit none true) inWindow).map Prod.snd =
      some [⟨0, 1, true, some 1⟩, ⟨1, 1, false, some 1⟩, ⟨0, 1, false, some 0⟩] := by decide
  obtain ⟨x, hreach, hl⟩ := Machine.reach_of_map_any (· = sendInit none true) rfl hr
  have hord := h x hreach
  rw [InOrder, hl] at hord
  rcases hord.1 with hsent | hnew
  · exact absurd hsent (by decide)
  · exact absurd (hnew ⟨1, 1, false, some 1⟩ (by simp) rfl rfl) (by decide)

end Artemisia.Threads
