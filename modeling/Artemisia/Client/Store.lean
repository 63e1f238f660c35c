/-
  Artemisia.Client.Store — the messages out: which functions do not touch their store, what the others make of
  its entries, and which states these are in.

  Proved:
  - `later_…`:         whatever is called, each entry follows one that was there; a publish call adds one.
  - `resetOutLoop_eq`: what a reset makes of the entries.
  - `storeOk_…`:       every entry of QoS 1 or 2 stays in one of the states its QoS allows, whatever is called.
-/
import Mathlib.Data.List.Forall2
import Artemisia.Client.Frames

namespace Artemisia.Client

open Artemisia.Property

variable (alloc : Alloc) (m : Mosq)

/-! ## Functions that leave the messages out alone -/

@[simp] theorem msgsOut_emit (e : Event) : (m.emit e).msgsOut = m.msgsOut := rfl
@[simp] theorem msgsOut_packetQueue (p : Packet) : (packetQueue m p).msgsOut = m.msgsOut := rfl
@[simp] theorem msgsOut_incrementReceiveQuota : (incrementReceiveQuota m).msgsOut = m.msgsOut := rfl
@[simp] theorem msgsOut_decrementReceiveQuota : (decrementReceiveQuota m).msgsOut = m.msgsOut := rfl
@[simp] theorem msgsOut_messageQueueIn (msg : Message) : (messageQueueIn m msg).msgsOut = m.msgsOut := rfl
@[simp] theorem msgsOut_socketClose : m.socketClose.msgsOut = m.msgsOut := rfl
@[simp] theorem msgsOut_socketOpen : m.socketOpen.msgsOut = m.msgsOut := rfl
@[simp] theorem msgsOut_setState (c : ClientState) : (m.setState c).msgsOut = m.msgsOut := rfl
@[simp] theorem msgsOut_doClientDisconnect : (doClientDisconnect m).msgsOut = m.msgsOut := rfl
@[simp] theorem msgsOut_packetCleanupAll : (packetCleanupAll m).msgsOut = m.msgsOut := rfl

@[simp] theorem msgsOut_sendPacket (n : Nat) (p : Packet) : (sendPacket alloc m n p).1.msgsOut = m.msgsOut := by
  unfold sendPacket
  split <;> simp

@[simp] theorem msgsOut_sendPuback (mid : UInt16) (r : UInt8) :
    (sendPuback alloc m mid r).1.msgsOut = m.msgsOut := by
  simp [sendPuback, sendCommandWithMid]

@[simp] theorem msgsOut_sendPubcomp (mid : UInt16) : (sendPubcomp alloc m mid).1.msgsOut = m.msgsOut := by
  simp [sendPubcomp, sendCommandWithMid]

@[simp] theorem msgsOut_sendPubrec (mid : UInt16) (r : UInt8) :
    (sendPubrec alloc m mid r).1.msgsOut = m.msgsOut := by
  simp only [sendPubrec, sendCommandWithMid, msgsOut_sendPacket]
  split <;> simp

@[simp] theorem msgsOut_sendPubrel (mid : UInt16) : (sendPubrel alloc m mid).1.msgsOut = m.msgsOut := by
  simp [sendPubrel, sendCommandWithMid]

@[simp] theorem msgsOut_sendPingresp : (sendPingresp alloc m).1.msgsOut = m.msgsOut := by
  simp [sendPingresp, sendSimpleCommand]

@[simp] theorem msgsOut_sendPingreq : (sendPingreq alloc m).1.msgsOut = m.msgsOut := by
  have h := msgsOut_sendPacket alloc m 0 .pingreq
  unfold sendPingreq sendSimpleCommand
  split
  · rename_i m' e
    simpa [e] using h
  · exact h

@[simp] theorem msgsOut_sendPublish (msg : Message) : (sendPublish alloc m msg).1.msgsOut = m.msgsOut := by
  cases hc : canPublish alloc m msg with
  | true => rw [sendPublish_ok hc]; rfl
  | false =>
    obtain ⟨rc, -, e⟩ := sendPublish_fail hc
    rw [e]

@[simp] theorem msgsOut_sendDisconnect (r : UInt8) (l : List MosquittoProperty) :
    (sendDisconnect alloc m r l).1.msgsOut = m.msgsOut := by simp [sendDisconnect]

@[simp] theorem msgsOut_disconnectSend (r : UInt8) (l : List MosquittoProperty) :
    (disconnectSend alloc m r l).1.msgsOut = m.msgsOut := by
  unfold disconnectSend
  split <;> simp

@[simp] theorem msgsOut_adoptReceiveMaximum (l : List MosquittoProperty) :
    (adoptReceiveMaximum m l).msgsOut = m.msgsOut := by
  obtain ⟨maximum, quota, e⟩ := adoptReceiveMaximum_eq m l
  rw [e]

@[simp] theorem msgsOut_sendConnect (l : List MosquittoProperty) :
    (sendConnect alloc m l).1.msgsOut = m.msgsOut := by
  unfold sendConnect
  split
  · rfl
  · dsimp only
    split <;> simp

@[simp] theorem msgsOut_handlePublish (p : PublishIn) : (handlePublish alloc m p).1.msgsOut = m.msgsOut := by
  unfold handlePublish acceptPublish
  repeat' split
  all_goals simp

@[simp] theorem msgsOut_handlePubrel (flags : UInt8) (mid : Except Rc UInt16) (tail : Except Rc UInt8) :
    (handlePubrel alloc m flags mid tail).1.msgsOut = m.msgsOut := by
  unfold handlePubrel releaseMessage
  dsimp only
  repeat' split
  all_goals simp

@[simp] theorem msgsOut_retryLoop (l : List Message) : (retryLoop alloc m l).1.msgsOut = m.msgsOut := by
  induction l generalizing m with
  | nil => rfl
  | cons msg rest ih =>
    unfold retryLoop
    split <;> simp [ih]

@[simp] theorem msgsOut_packetWriteLoop (stop : Rc) (n : Nat) :
    (packetWriteLoop stop n m).1.msgsOut = m.msgsOut := by
  induction n generalizing m with
  | zero => unfold packetWriteLoop; split <;> rfl
  | succ n ih =>
    unfold packetWriteLoop
    split
    · rfl
    · rfl
    · rw [ih]
      split <;> rfl

@[simp] theorem msgsOut_takeNext : (takeNext m).msgsOut = m.msgsOut := by
  unfold takeNext
  split <;> rfl

@[simp] theorem msgsOut_packetWrite (stop : Rc) (n : Nat) : (packetWrite stop n m).1.msgsOut = m.msgsOut := by
  unfold packetWrite
  repeat' split
  all_goals simp

theorem inflight_setupMosquitto (c : ConnectConfig) :
    (setupMosquitto m c).msgsOut.inflight = m.msgsOut.inflight := by
  obtain ⟨username, password, e⟩ := setupMosquitto_eq m c
  rw [e]
  dsimp only
  split <;> rfl

theorem inflight_connectBind (env : RecEnv) (c : ConnectConfig) :
    (connectBind env m c).1.msgsOut.inflight = m.msgsOut.inflight := by
  rcases connectBind_cases m env c with ⟨e, -⟩ | ⟨id, e⟩
  · rw [e]
  · rw [e]
    rfl

/-! ## What becomes of the entries -/

/-- What any call but a reset may make of a message out. -/
structure Follows (e' e : Message) : Prop where
  uid : e'.uid = e.uid
  mid : e'.mid = e.mid
  qos : e'.qos = e.qos
  state : e'.state = e.state ∨ (e.state = .invalid ∧ e'.state = e.released.state) ∨
    (e.qos = 2 ∧ e'.state = .waitForPubcomp)

/-- The entries of a store later on: each follows one of those before, in their order. -/
def Later : List Message → List Message → Prop := List.SublistForall₂ Follows

theorem Follows.of_state {e e' : Message} (h : e'.state = e.state) (hu : e'.uid = e.uid) (hm : e'.mid = e.mid)
    (hq : e'.qos = e.qos) : Follows e' e := ⟨hu, hm, hq, .inl h⟩

instance : Std.Refl Follows := ⟨fun _ => .of_state rfl rfl rfl rfl⟩

theorem Follows.trans {e e' e'' : Message} (h' : Follows e'' e') (h : Follows e' e) : Follows e'' e := by
  refine ⟨h'.uid.trans h.uid, h'.mid.trans h.mid, h'.qos.trans h.qos, ?_⟩
  rcases h'.state with hs' | ⟨hi, hs'⟩ | ⟨hq, hs'⟩
  · rw [hs']
    exact h.state
  · -- an entry is only released once, or its QoS is one that a release leaves as it is
    have hrel : e'.released.state = e.released.state ∨ e.state ≠ .invalid := by
      by_cases he : e.state = .invalid
      · exact .inl (by simp [Message.released, h.qos, hi, he])
      · exact .inr he
    rcases h.state with hs | ⟨he, -⟩ | ⟨-, hs⟩
    · have he : e.state = .invalid := hs ▸ hi
      exact .inr (.inl ⟨he, hs'.trans (hrel.resolve_right (fun hne => hne he))⟩)
    · exact .inr (.inl ⟨he, hs'.trans (hrel.resolve_right (fun hne => hne he))⟩)
    · rw [hs] at hi
      cases hi
  · exact .inr (.inr ⟨h.qos ▸ hq, hs'⟩)

instance : IsTrans Message Follows := ⟨fun _ _ _ => Follows.trans⟩

theorem Later.refl (l : List Message) : Later l l := Std.Refl.refl (r := List.SublistForall₂ Follows) l

theorem Later.trans {l l' l'' : List Message} (h' : Later l'' l') (h : Later l' l) : Later l'' l :=
  IsTrans.trans (r := List.SublistForall₂ Follows) _ _ _ h' h

theorem Later.of_eq {l l' : List Message} (h : l' = l) : Later l' l := h ▸ .refl l

theorem Later.cons {e e' : Message} {l l' : List Message} (he : Follows e' e) (h : Later l' l) :
    Later (e' :: l') (e :: l) :=
  List.SublistForall₂.cons he h

theorem Later.append (l l' : List Message) : Later l (l ++ l') := by
  induction l with
  | nil => exact .nil
  | cons e l ih => exact .cons (Std.Refl.refl e) ih

/-- Each entry follows one that was there. -/
theorem Later.exists {l l' : List Message} (h : Later l' l) : ∀ e' ∈ l', ∃ e ∈ l, Follows e' e := by
  induction h with
  | nil => simp
  | cons hr _ ih =>
    rintro e' (_ | ⟨_, he⟩)
    · exact ⟨_, List.mem_cons_self .., hr⟩
    · obtain ⟨e, hmem, hf⟩ := ih e' he
      exact ⟨e, List.mem_cons_of_mem _ hmem, hf⟩
  | cons_right _ ih =>
    intro e' he
    obtain ⟨e, hmem, hf⟩ := ih e' he
    exact ⟨e, List.mem_cons_of_mem _ hmem, hf⟩

theorem later_uids {l l' : List Message} (h : Later l' l) : (l'.map Message.uid).Sublist (l.map Message.uid) := by
  induction h with
  | nil => exact List.nil_sublist _
  | cons hr _ ih =>
    rw [List.map_cons, List.map_cons, hr.uid]
    exact ih.cons_cons _
  | cons_right _ ih => exact ih.cons _

theorem later_releaseLoop (l : List Message) : Later (releaseLoop alloc m l).2.1 l := by
  induction l generalizing m with
  | nil => exact .refl []
  | cons cur rest ih =>
    rcases Nat.eq_zero_or_pos m.msgsOut.inflightQuota with hq | hq
    · rw [releaseLoop_full _ hq]
      exact .refl _
    by_cases hi : cur.qos > 0 ∧ cur.state = .invalid
    · have hf (sock : Option Nat) : Follows { cur.released with sentOn := sock } cur :=
        ⟨rfl, rfl, rfl, .inr (.inl ⟨hi.2, rfl⟩)⟩
      cases hc : canPublish alloc m cur.released with
      | true =>
        rw [releaseLoop_send hq hi hc]
        exact .cons (hf _) (ih _)
      | false =>
        obtain ⟨rc, -, e⟩ := releaseLoop_fail rest hq hi hc
        rw [e]
        exact .cons (hf _) (.refl rest)
    · rw [releaseLoop_keep hq hi]
      exact .cons (.of_state rfl rfl rfl rfl) (ih m)

theorem later_release : Later (messageReleaseToInflight alloc m).1.msgsOut.inflight m.msgsOut.inflight :=
  later_releaseLoop alloc m _

theorem later_retryLoop (l : List Message) : Later (retryLoop alloc m l).2 l := by
  induction l generalizing m with
  | nil => exact .refl []
  | cons msg rest ih =>
    unfold retryLoop
    split
    all_goals refine .cons ?_ (ih _)
    all_goals first
      | exact .of_state rfl rfl rfl rfl
      | (split <;> exact .of_state rfl rfl rfl rfl)

theorem later_remove {d d' : MsgData} {mid : UInt16} {qos : Nat} {msg : Message}
    (e : messageRemove d mid qos = .ok (msg, d')) : Later d'.inflight d.inflight := by
  unfold messageRemove at e
  split at e
  · cases e
  · split at e
    · cases e
    · cases e
      exact List.eraseP_sublist.sublistForall₂

theorem later_setFirstState {mid : UInt16} {l : List Message}
    (hq : ∀ e, l.find? (·.mid = mid) = some e → e.qos = 2) :
    Later (setFirstState mid .waitForPubcomp l) l := by
  induction l with
  | nil => exact .refl []
  | cons msg rest ih =>
    by_cases hm : msg.mid = mid
    · have hqos : msg.qos = 2 := hq msg (by simp [hm])
      rw [setFirstState, if_pos hm]
      exact .cons ⟨rfl, rfl, rfl, .inr (.inr ⟨hqos, rfl⟩)⟩ (.refl rest)
    · rw [setFirstState, if_neg hm]
      exact .cons (.of_state rfl rfl rfl rfl) (ih (fun e he => hq e (by simpa [hm] using he)))

theorem later_outUpdate {d d' : MsgData} {mid : UInt16} {rc : Rc}
    (e : messageOutUpdate d mid .waitForPubcomp 2 = (d', rc)) : Later d'.inflight d.inflight := by
  unfold messageOutUpdate at e
  split at e
  · cases e
    exact .refl _
  · rename_i msg hf
    split at e
    · cases e
      exact .refl _
    · rename_i hq
      cases e
      refine later_setFirstState (fun x hx => ?_)
      rw [hf, Option.some.injEq] at hx
      exact hx ▸ not_not.mp hq

@[simp] theorem inflight_incrementSendQuota : (incrementSendQuota m).msgsOut.inflight = m.msgsOut.inflight := by
  simp only [incrementSendQuota, MsgData.incrementQuota]
  split <;> rfl

theorem later_acknowledge (mid : UInt16) (qos : Nat) :
    Later (acknowledge alloc m mid qos).1.msgsOut.inflight m.msgsOut.inflight := by
  unfold acknowledge
  split
  · rename_i e
    exact (later_release alloc _).trans (later_remove e)
  · exact later_release alloc m
  · exact .refl _

theorem later_handlePubackcomp (type : Ack) (mid : Except Rc UInt16) (tail : Except Rc UInt8) :
    Later (handlePubackcomp alloc m type mid tail).1.msgsOut.inflight m.msgsOut.inflight := by
  have hq := inflight_incrementSendQuota m
  unfold handlePubackcomp
  split
  · exact .refl _
  · split
    · exact .of_eq hq
    · exact (later_acknowledge alloc _ _ _).trans (.of_eq hq)

theorem later_receiveMessage (mid : UInt16) :
    Later (receiveMessage alloc m mid).1.msgsOut.inflight m.msgsOut.inflight := by
  unfold receiveMessage
  split
  · rename_i e
    rw [msgsOut_sendPubrel]
    exact later_outUpdate e
  · rw [msgsOut_sendPubrel]
    exact .refl _
  · exact .refl _

theorem later_refuseMessage (mid : UInt16) :
    Later (refuseMessage alloc m mid).1.msgsOut.inflight m.msgsOut.inflight := by
  unfold refuseMessage
  split
  · rename_i e
    refine (later_release alloc _).trans ?_
    rw [inflight_incrementSendQuota]
    exact later_remove e
  · refine (later_release alloc _).trans ?_
    rw [inflight_incrementSendQuota]
    exact .refl _

theorem later_handlePubrec (mid : Except Rc UInt16) (tail : Except Rc UInt8) :
    Later (handlePubrec alloc m mid tail).1.msgsOut.inflight m.msgsOut.inflight := by
  unfold handlePubrec
  split
  · exact .refl _
  · split
    · exact .refl _
    · split
      · exact later_receiveMessage alloc m _
      · exact later_refuseMessage alloc m _

theorem msgsOut_handleConnack (flags reason : Except Rc UInt8) (l : Except Rc (List MosquittoProperty)) :
    (handleConnack m flags reason l).1.msgsOut.inflight = m.msgsOut.inflight := by
  unfold handleConnack
  repeat' split
  all_goals rfl

theorem later_handlePacket (p : InPacket) :
    Later (handlePacket alloc m p).1.msgsOut.inflight m.msgsOut.inflight := by
  cases p with
  | pubackcomp type mid tail => exact later_handlePubackcomp alloc m type mid tail
  | pubrec mid tail => exact later_handlePubrec alloc m mid tail
  | connack flags reason l => exact .of_eq (msgsOut_handleConnack m flags reason l)
  | disconnect reason tail =>
    simp only [handlePacket, handleDisconnect]
    repeat' split
    all_goals exact .refl _
  | _ =>
    refine .of_eq ?_
    simp only [handlePacket]
    repeat' split
    all_goals simp

theorem later_connackSwitch (reason : UInt8) :
    Later (connackSwitch alloc m reason).1.msgsOut.inflight m.msgsOut.inflight := by
  unfold connackSwitch
  split
  · dsimp only
    split <;> exact later_retryLoop alloc _ _
  · split <;> exact .refl _

/-- A publish call may put its message at the end. -/
theorem later_publish (a : PublishArgs) :
    Later (mosquittoPublishV5 alloc m a).1.msgsOut.inflight (m.msgsOut.inflight ++
      if publishChecks m a = .success ∧ a.qos ≠ 0 then [messageOf m a (midGenerate m).2] else []) := by
  unfold mosquittoPublishV5
  cases hc : publishChecks m a with
  | success =>
    by_cases h0 : a.qos = 0
    · simp only [h0, ne_eq, not_true_eq_false, and_false, if_true, if_false, List.append_nil, msgsOut_sendPublish]
      exact .refl _
    · simp only [h0, ne_eq, not_false_eq_true, and_self, if_false, if_true]
      cases a.copies with
      | true => exact later_release alloc _
      | false => exact .append _ _
  | _ =>
    simp only [reduceCtorEq, false_and, if_false, List.append_nil]
    exact .refl _

/-- A reset keeps every entry, and its state by whether it still fits the quota. -/
theorem resetOutLoop_eq (quota : Nat) (l : List Message) :
    (resetOutLoop quota l).2 = (l.take quota).map (fun e => { e with state := resetOutState e }) ++
      (l.drop quota).map (fun e => { e with state := .invalid }) := by
  induction l generalizing quota with
  | nil => simp [resetOutLoop]
  | cons msg rest ih =>
    cases quota with
    | zero => simp [resetOutLoop, ih]
    | succ quota => simp [resetOutLoop, ih]

/-- The pieces of a reconnect other than the reset leave the entries alone. -/
theorem inflight_reconnectStep (env : RecEnv) (l : List MosquittoProperty) {pc : RecPc} (h : pc ≠ .reset) :
    (reconnectStep env l m pc).1.msgsOut.inflight = m.msgsOut.inflight := by
  cases pc with
  | reset => exact absurd rfl h
  | _ =>
    simp only [reconnectStep]
    repeat' split
    all_goals simp

/-! ## The states of the entries -/

/-- What the state of a message out can be. -/
def OutOk (e : Message) : Prop :=
  (e.qos = 1 ∧ (e.state = .invalid ∨ e.state = .publishQos1 ∨ e.state = .waitForPuback)) ∨
  (e.qos = 2 ∧ (e.state = .invalid ∨ e.state = .publishQos2 ∨ e.state = .waitForPubrec ∨ e.state = .waitForPubcomp
    ∨ e.state = .resendPubrel))

def StoreOk (l : List Message) : Prop := ∀ e ∈ l, OutOk e

theorem StoreOk.nil : StoreOk [] := by simp [StoreOk]

theorem storeOk_cons {e : Message} {l : List Message} : StoreOk (e :: l) ↔ OutOk e ∧ StoreOk l := by
  simp [StoreOk]

theorem storeOk_append {l l' : List Message} : StoreOk (l ++ l') ↔ StoreOk l ∧ StoreOk l' := by
  simp only [StoreOk, List.mem_append]
  exact ⟨fun h => ⟨fun e he => h e (.inl he), fun e he => h e (.inr he)⟩, fun h e he => he.elim (h.1 e) (h.2 e)⟩

theorem OutOk.follows {e e' : Message} (h : OutOk e) (hf : Follows e' e) : OutOk e' := by
  rcases hf.state with hs | ⟨-, hs⟩ | ⟨hq, hs⟩
  · simpa [OutOk, hf.qos, hs] using h
  · rcases h with ⟨hq, -⟩ | ⟨hq, -⟩ <;> simp [OutOk, hf.qos, hs, Message.released, hq]
  · exact .inr ⟨hf.qos.trans hq, by simp [hs]⟩

theorem StoreOk.later {l l' : List Message} (h : StoreOk l) (hl : Later l' l) : StoreOk l' := by
  intro e' he'
  obtain ⟨e, he, hf⟩ := hl.exists e' he'
  exact (h e he).follows hf

theorem OutOk.reset {e : Message} (h : OutOk e) : OutOk { e with state := resetOutState e } := by
  rcases h with ⟨hq, hs⟩ | ⟨hq, hs⟩
  · simp [OutOk, resetOutState, hq]
  · rcases hs with hs | hs | hs | hs | hs <;> simp [OutOk, resetOutState, hq, hs]

theorem OutOk.invalid {e : Message} (h : OutOk e) : OutOk { e with state := .invalid } := by
  rcases h with ⟨hq, -⟩ | ⟨hq, -⟩ <;> simp [OutOk, hq]

theorem storeOk_reset (h : StoreOk m.msgsOut.inflight) : StoreOk (messageReconnectReset m).msgsOut.inflight := by
  show StoreOk (resetOutLoop m.msgsOut.inflightMaximum m.msgsOut.inflight).2
  rw [resetOutLoop_eq, storeOk_append]
  constructor
  · intro e' he'
    obtain ⟨e, he, rfl⟩ := List.mem_map.mp he'
    exact (h e (List.mem_of_mem_take he)).reset
  · intro e' he'
    obtain ⟨e, he, rfl⟩ := List.mem_map.mp he'
    exact (h e (List.mem_of_mem_drop he)).invalid

theorem storeOk_handlePacket (p : InPacket) (h : StoreOk m.msgsOut.inflight) :
    StoreOk (handlePacket alloc m p).1.msgsOut.inflight :=
  h.later (later_handlePacket alloc m p)

theorem storeOk_connackSwitch (reason : UInt8) (h : StoreOk m.msgsOut.inflight) :
    StoreOk (connackSwitch alloc m reason).1.msgsOut.inflight :=
  h.later (later_connackSwitch alloc m reason)

theorem outOk_messageOf {a : PublishArgs} (mid : UInt16) (hc : publishChecks m a = .success) (h0 : a.qos ≠ 0) :
    OutOk (messageOf m a mid) := by
  have hr : ¬ (a.qos < 0 ∨ a.qos > 2) := by
    intro h
    simp [publishChecks, h] at hc
  have : a.qos = 1 ∨ a.qos = 2 := by omega
  rcases this with h | h <;> simp [OutOk, messageOf, h]

theorem storeOk_publish (a : PublishArgs) (h : StoreOk m.msgsOut.inflight) :
    StoreOk (mosquittoPublishV5 alloc m a).1.msgsOut.inflight := by
  refine StoreOk.later (storeOk_append.mpr ⟨h, ?_⟩) (later_publish alloc m a)
  split
  · rename_i hc
    exact storeOk_cons.mpr ⟨outOk_messageOf m _ hc.1 hc.2, StoreOk.nil⟩
  · exact StoreOk.nil

theorem storeOk_reconnectStep (env : RecEnv) (l : List MosquittoProperty) (pc : RecPc)
    (h : StoreOk m.msgsOut.inflight) :
    StoreOk (reconnectStep env l m pc).1.msgsOut.inflight := by
  by_cases hpc : pc = .reset
  · subst hpc
    exact storeOk_reset m h
  · rw [inflight_reconnectStep m env l hpc]
    exact h

end Artemisia.Client
