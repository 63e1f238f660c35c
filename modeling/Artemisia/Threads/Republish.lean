/-
  Artemisia.Threads.Republish — is a message of QoS 2 published again after its PUBREC?

  `message__reconnect_reset` forgets how far a message is when it does not fit the send maximum any more: it
  becomes one that has never been sent, and `message__release_to_inflight` publishes it again.

  Proved:
  - `step_received`:         a step that meets `Keeps` leaves a message that has been received in one of
                             two states.
  - `received_final`:        so over a run: after its PUBREC only PUBRELs are handed over for it.
  - `shrunk_republishes`:    a Receive Maximum that shrinks from one connection to the next has it
                             published again.
-/
import Artemisia.Threads.Flow
import Artemisia.Threads.Outflow

namespace Artemisia.Threads

open Artemisia.Property Artemisia.Client

/-! ## What a step makes of the store -/

/-- The messages that a step puts into the store. -/
def stored (s : Sys) : Act → List Message
  | .publish _ a => if publishChecks s.m a = .success ∧ a.qos ≠ 0 then [messageOf s.m a (midGenerate s.m).2]
      else []
  | _ => []

/-- `message__reconnect_reset` comes next in the thread that takes the step. -/
def resets (s : Sys) : Act → Bool
  | .queue _ => match s.queue with
    | .rec_ .reset _ => true
    | _ => false
  | .loop (.tick _) => match s.loop with
    | .rec_ .reset => true
    | _ => false
  | _ => false

/-- A PUBREC has been handled for the message, and its PUBCOMP has not. -/
def received (e : Message) : Bool := e.state = .waitForPubcomp || e.state = .resendPubrel

/-- What a reset finds past the send maximum has not been received. -/
def Keeps (s : Sys) (a : Act) : Bool :=
  !resets s a || (s.m.msgsOut.inflight.drop s.m.msgsOut.inflightMaximum).all (fun e => !received e)

/-- The messages out after a step: what was there or is stored, or all of it reset. -/
def StoreMoves (s : Sys) (a : Act) (l : List Message) : Prop :=
  Later l (s.m.msgsOut.inflight ++ stored s a) ∨
    (resets s a = true ∧ stored s a = [] ∧
      l = (resetOutLoop s.m.msgsOut.inflightMaximum s.m.msgsOut.inflight).2)

/-- A step that stores nothing. -/
theorem StoreMoves.later {s : Sys} {a : Act} {l : List Message} (hs : stored s a = [])
    (h : Later l s.m.msgsOut.inflight) :
    StoreMoves s a l := by
  refine .inl ?_
  rw [hs, List.append_nil]
  exact h

theorem storeMoves_rec {s : Sys} {a : Act} {env : RecEnv} {l : List MosquittoProperty} {m : Mosq} {pc : RecPc}
    {next : RecPc ⊕ Rc} (h : RecMoves env l s.m pc m next) (hs : stored s a = [])
    (hr : pc = .reset → resets s a = true) :
    StoreMoves s a m.msgsOut.inflight := by
  cases h with
  | reset => exact .inr ⟨hr rfl, hs, rfl⟩
  | sent => exact .later hs (.of_eq (by rw [msgsOut_sendConnect]))
  | unsent => exact .later hs (.of_eq (by rw [msgsOut_sendConnect]))
  | _ => exact .later hs (.refl _)

theorem step_store {s s' : Sys} {a : Act} (h : Moves s a s') : StoreMoves s a s'.m.msgsOut.inflight := by
  cases h with
  | connect c hq => exact .later rfl (.of_eq (inflight_setupMosquitto s.m _))
  | publish alloc a hq ha => exact .inl (later_publish alloc s.m a)
  | bind env c hq => exact .later rfl (.of_eq (inflight_connectBind s.m env c))
  | queueRec env pc pc' l m hq e => exact storeMoves_rec e rfl (fun hpc => by simp [resets, hq, hpc])
  | queueRecEnd env pc l m rc hq e => exact storeMoves_rec e rfl (fun hpc => by simp [resets, hq, hpc])
  | discSend env r l hq => exact .later rfl (.of_eq (by simp))
  | packet i n p again alloc hl hs hp t ht =>
    rw [outflow_readMoves ht]
    exact .later rfl (later_handlePacket alloc s.m p)
  | connack r max turn env hl => exact .later rfl (later_connackSwitch env.alloc s.m r)
  | write i n taken e again m rc hl he =>
    have hm := msgsOut_packetWrite s.m e.rc taken
    rw [he] at hm
    exact .later rfl (.of_eq (congrArg MsgData.inflight hm))
  | writeDisconnect i n taken e again m hl he =>
    have hm := msgsOut_packetWrite s.m e.rc taken
    rw [he] at hm
    exact .later rfl (.of_eq (congrArg MsgData.inflight hm))
  | ping alloc hl hs ht => exact .later rfl (.of_eq (by simp))
  | loopRec env pc pc' m hl e => exact storeMoves_rec e rfl (fun hpc => by simp [resets, hl, hpc])
  | loopRecEnd env pc m rc hl e => exact storeMoves_rec e rfl (fun hpc => by simp [resets, hl, hpc])
  | _ => exact .later rfl (.refl _)

/-! ## The numbers of the messages -/

/-- The entries are numbered in order, below the next number. -/
structure UidsBelow (n : Nat) (l : List Message) : Prop where
  inOrder : (l.map Message.uid).Pairwise (· < ·)
  below : ∀ e ∈ l, e.uid < n

theorem uidsBelow_nil (n : Nat) : UidsBelow n [] := ⟨.nil, fun e he => by cases he⟩

theorem UidsBelow.mono {n n' : Nat} {l : List Message} (h : UidsBelow n l) (hn : n ≤ n') : UidsBelow n' l :=
  ⟨h.inOrder, fun e he => (h.below e he).trans_le hn⟩

theorem UidsBelow.later {n : Nat} {l l' : List Message} (h : UidsBelow n l) (hl : Later l' l) :
    UidsBelow n l' := by
  refine ⟨h.inOrder.sublist (later_uids hl), fun e' he' => ?_⟩
  obtain ⟨e, he, hf⟩ := hl.exists e' he'
  rw [hf.uid]
  exact h.below e he

theorem UidsBelow.snoc {n : Nat} {l : List Message} {e : Message} (h : UidsBelow n l) (he : e.uid = n) :
    UidsBelow (n + 1) (l ++ [e]) := by
  refine ⟨?_, fun x hx => ?_⟩
  · rw [List.map_append, List.pairwise_append]
    refine ⟨h.inOrder, List.pairwise_singleton .., fun u hu v hv => ?_⟩
    obtain ⟨x, hx, rfl⟩ := List.mem_map.mp hu
    obtain rfl : v = e.uid := by simpa using hv
    rw [he]
    exact h.below x hx
  · rcases List.mem_append.mp hx with hx | hx
    · exact (h.below x hx).trans (Nat.lt_succ_self n)
    · rw [List.mem_singleton.mp hx, he]
      exact Nat.lt_succ_self n

theorem uids_resetOutLoop (quota : Nat) (l : List Message) :
    (resetOutLoop quota l).2.map Message.uid = l.map Message.uid := by
  rw [resetOutLoop_eq, List.map_append, List.map_map, List.map_map]
  conv_rhs => rw [← List.take_append_drop quota l, List.map_append]
  rfl

theorem UidsBelow.of_uids {n : Nat} {l l' : List Message} (h : UidsBelow n l)
    (hu : l'.map Message.uid = l.map Message.uid) :
    UidsBelow n l' := by
  refine ⟨hu ▸ h.inOrder, fun e' he' => ?_⟩
  obtain ⟨e, he, hx⟩ := List.mem_map.mp (hu ▸ List.mem_map_of_mem he' : e'.uid ∈ l.map Message.uid)
  exact hx ▸ h.below e he

theorem step_uids {s s' : Sys} {a : Act} (h : Moves s a s') (hn : UidsBelow s.m.published s.m.msgsOut.inflight) :
    UidsBelow s'.m.published s'.m.msgsOut.inflight := by
  have hp : s'.m.published = s.m.published + publishesNow s a := congrArg Outflow.published (step_outflow h)
  rw [hp]
  rcases step_store h with hl | ⟨-, -, hl⟩
  · refine UidsBelow.later ?_ hl
    cases a with
    | publish alloc a =>
      by_cases hc : publishChecks s.m a = .success
      · by_cases h0 : a.qos = 0
        · simpa [stored, publishesNow, hc, h0] using hn.mono (Nat.le_succ _)
        · have := hn.snoc (show (messageOf s.m a (midGenerate s.m).2).uid = s.m.published from rfl)
          simpa [stored, publishesNow, hc, h0] using this
      · simpa [stored, publishesNow, hc] using hn
    | _ =>
      simp only [stored, List.append_nil]
      exact hn
  · rw [hl]
    exact (UidsBelow.of_uids hn (uids_resetOutLoop ..)).mono (Nat.le_add_right ..)

/-! ## One step -/

/-- The entry with this number, if it is there, has been received, under its packet id. -/
def Received (uid : Nat) (mid : UInt16) (l : List Message) : Prop :=
  ∀ e ∈ l, e.uid = uid → e.mid = mid ∧ e.qos = 2 ∧ received e = true

theorem Received.later {uid : Nat} {mid : UInt16} {l l' : List Message} (h : Received uid mid l)
    (hl : Later l' l) :
    Received uid mid l' := by
  intro e' he' hu
  obtain ⟨e, he, hf⟩ := hl.exists e' he'
  obtain ⟨hm, hq, hr⟩ := h e he (hf.uid ▸ hu)
  refine ⟨hf.mid.trans hm, hf.qos.trans hq, ?_⟩
  rcases hf.state with hs | ⟨hi, -⟩ | ⟨-, hs⟩
  · simpa [received, hs] using hr
  · simp [received, hi] at hr
  · simp [received, hs]

theorem Received.reset {uid : Nat} {mid : UInt16} {l : List Message} {quota : Nat} (h : Received uid mid l)
    (hk : (l.drop quota).all (fun e => !received e) = true) : Received uid mid (resetOutLoop quota l).2 := by
  rw [resetOutLoop_eq]
  intro e' he' hu
  rcases List.mem_append.mp he' with he' | he'
  · obtain ⟨e, he, rfl⟩ := List.mem_map.mp he'
    obtain ⟨hm, hq, hr⟩ := h e (List.mem_of_mem_take he) hu
    refine ⟨hm, hq, ?_⟩
    have hs : e.state = .waitForPubcomp ∨ e.state = .resendPubrel := by simpa [received] using hr
    rcases hs with hs | hs <;> simp [received, resetOutState, hq, hs]
  · -- past the maximum there is no message that has been received
    obtain ⟨e, he, rfl⟩ := List.mem_map.mp he'
    obtain ⟨-, -, hr⟩ := h e (List.mem_of_mem_drop he) hu
    have := List.all_eq_true.mp hk e he
    simp [hr] at this

theorem step_received {s s' : Sys} {a : Act} {uid : Nat} {mid : UInt16} (h : Moves s a s') (hg : Keeps s a = true)
    (hu : uid < s.m.published) (hr : Received uid mid s.m.msgsOut.inflight) :
    Received uid mid s'.m.msgsOut.inflight := by
  rcases step_store h with hl | ⟨hreset, -, hl⟩
  · refine Received.later (fun e he hx => ?_) hl
    rcases List.mem_append.mp he with he | he
    · exact hr e he hx
    · -- a message that is stored has a number of its own
      cases a with
      | publish alloc a =>
        simp only [stored] at he
        split at he
        · rw [List.mem_singleton.mp he] at hx
          exact absurd hx (show s.m.published ≠ uid by omega)
        · cases he
      | _ => cases he
  · rw [hl]
    simp only [Keeps, hreset, Bool.not_true, Bool.false_or] at hg
    exact hr.reset hg

/-! ## The PUBREC and what comes after it -/

theorem received_setFirstState {mid : UInt16} {l : List Message} {e : Message}
    (hf : l.find? (·.mid = mid) = some e)
    (hq : e.qos = 2) (hp : (l.map Message.uid).Pairwise (· < ·)) :
    Received e.uid mid (setFirstState mid .waitForPubcomp l) := by
  induction l with
  | nil => cases hf
  | cons msg rest ih =>
    rw [List.map_cons, List.pairwise_cons] at hp
    obtain ⟨hfirst, hrest⟩ := hp
    -- no other entry has the number
    have hother : ∀ x ∈ rest, msg.uid < x.uid := fun x hx => hfirst x.uid (List.mem_map_of_mem hx)
    by_cases hm : msg.mid = mid
    · obtain rfl : msg = e := by simpa [hm] using hf
      rw [setFirstState, if_pos hm]
      intro x hx hu
      rcases List.mem_cons.mp hx with rfl | hx
      · exact ⟨hm, hq, rfl⟩
      · exact absurd hu (hother x hx).ne'
    · have hf' : rest.find? (·.mid = mid) = some e := by simpa [hm] using hf
      rw [setFirstState, if_neg hm]
      intro x hx hu
      rcases List.mem_cons.mp hx with rfl | hx
      · exact absurd hu (hother e (List.mem_of_find?_eq_some hf')).ne
      · exact ih hf' hrest x hx hu

theorem receivedFor_some {m : Mosq} {p : InPacket} {e : Message} (h : receivedFor m p = some e) :
    ∃ mid tail r, p = .pubrec mid tail ∧ m.state = .active ∧ readAck m mid tail = .ok (e.mid, r) ∧
      (r < 0x80 ∨ m.protocol ≠ .mqtt5) ∧ m.msgsOut.inflight.find? (·.mid = e.mid) = some e ∧ e.qos = 2 := by
  unfold receivedFor at h
  split at h
  · rename_i mid tail
    split at h
    · cases h
    · rename_i hs
      split at h
      · cases h
      · rename_i i r hr
        split at h
        · rename_i hc
          obtain ⟨hf, hq⟩ := Option.filter_eq_some_iff.mp h
          obtain rfl : e.mid = i := by simpa using List.find?_some hf
          exact ⟨mid, tail, r, rfl, not_not.mp hs, hr, hc, hf, by simpa using hq⟩
        · cases h
  · cases h

theorem received_pubrec (alloc : Alloc) {m : Mosq} {p : InPacket} {e : Message} (h : receivedFor m p = some e)
    (hp : (m.msgsOut.inflight.map Message.uid).Pairwise (· < ·)) :
    Received e.uid e.mid (handlePacket alloc m p).1.msgsOut.inflight := by
  obtain ⟨mid, tail, r, rfl, hs, hr, hc, hf, hq⟩ := receivedFor_some h
  have hupdate : messageOutUpdate m.msgsOut e.mid .waitForPubcomp 2 =
      ({ m.msgsOut with inflight := setFirstState e.mid .waitForPubcomp m.msgsOut.inflight }, .success) := by
    simp [messageOutUpdate, hf, hq]
  have hstore : (handlePacket alloc m (.pubrec mid tail)).1.msgsOut.inflight =
      setFirstState e.mid .waitForPubcomp m.msgsOut.inflight := by
    simp [handlePacket, handlePubrec, hs, hr, hc, receiveMessage, hupdate]
  rw [hstore]
  exact received_setFirstState hf hq hp

theorem later_packetRelease {m m' : Mosq} {p : InPacket} (h : packetRelease m p = some m') :
    Later m'.msgsOut.inflight m.msgsOut.inflight := by
  have hq := inflight_incrementSendQuota m
  unfold packetRelease at h
  dsimp only at h
  repeat' split at h
  all_goals cases h
  · rename_i e
    exact (later_remove e).trans (.of_eq hq)
  · exact .of_eq hq
  · rename_i e
    refine Later.trans (.of_eq (inflight_incrementSendQuota _)) ?_
    exact later_remove e
  · exact .of_eq hq

section Handed

variable {alloc : Alloc} {m : Mosq} {uid : Nat} {mid : UInt16} {x : Message × Packet}

theorem not_releaseHands {l : List Message} (hr : Received uid mid l) (h : x ∈ releaseHands alloc m l) :
    x.1.uid ≠ uid := by
  intro hx
  obtain ⟨e, he, hu, hs⟩ := releaseHands_unsent h
  obtain ⟨-, -, hrec⟩ := hr e he (hu.trans hx)
  simp [received, hs] at hrec

theorem not_publishHands {a : PublishArgs} (hr : Received uid mid m.msgsOut.inflight) (hu : uid < m.published)
    (h : x ∈ publishHands alloc m a) : x.1.uid ≠ uid := by
  have hne : m.published ≠ uid := hu.ne'
  unfold publishHands at h
  split at h
  · rename_i m' hm'
    unfold publishRelease at hm'
    split at hm'
    · cases hm'
      have hstored : Received uid mid (m.msgsOut.inflight ++ [messageOf m a (midGenerate m).2]) := by
        intro e he hx
        rcases List.mem_append.mp he with he | he
        · exact hr e he hx
        · rw [List.mem_singleton.mp he] at hx
          exact absurd hx hne
      exact not_releaseHands hstored h
    · cases hm'
  · dsimp only at h
    split at h
    · rw [List.mem_singleton.mp h]
      exact hne
    · cases h

theorem packetHands_pubrel {p : InPacket} (hr : Received uid mid m.msgsOut.inflight)
    (h : x ∈ packetHands alloc m p)
    (hx : x.1.uid = uid) : x.2 = .pubrel mid := by
  unfold packetHands at h
  split at h
  · rename_i m' hm'
    exact absurd hx (not_releaseHands (hr.later (later_packetRelease hm')) h)
  · split at h
    · rename_i e he
      obtain ⟨-, -, -, -, -, -, -, hf, -⟩ := receivedFor_some he
      split at h
      · rw [List.mem_singleton.mp h] at hx ⊢
        rw [(hr e (List.mem_of_find?_eq_some hf) hx).1]
      · cases h
    · cases h

theorem connackHands_pubrel {reason : UInt8} (hr : Received uid mid m.msgsOut.inflight)
    (h : x ∈ connackHands alloc m reason) (hx : x.1.uid = uid) : x.2 = .pubrel mid := by
  unfold connackHands at h
  split at h
  · obtain ⟨e, he, hu, hdue⟩ := retryHands_due h
    have hmem : e ∈ m.msgsOut.inflight := by
      revert he
      split <;> exact id
    obtain ⟨hm, -, hrec⟩ := hr e hmem (hu.trans hx)
    rcases hdue with hp | ⟨h1, h2⟩
    · rw [hp, hm]
    · simp [received, h1, h2] at hrec
  · cases h

/-- Whatever the step, only PUBRELs are handed over for a message that has been received. -/
theorem handed_pubrel {s : Sys} (b : Act) (hr : Received uid mid s.m.msgsOut.inflight) (hu : uid < s.m.published)
    (h : x ∈ handed s b) (hx : x.1.uid = uid) : x.2 = .pubrel mid := by
  cases b with
  | publish alloc a => exact absurd hx (not_publishHands hr hu h)
  | loop ev =>
    cases ev with
    | packet p again alloc => exact packetHands_pubrel hr h hx
    | tick env =>
      simp only [handed] at h
      split at h
      · exact connackHands_pubrel hr h hx
      · cases h
    | _ => cases h
  | _ => cases h

end Handed

/-! ## Runs -/

/-- In this step a PUBREC with a reason code below 0x80 is handled for the queued message. -/
def Receives (s0 s1 : Sys) (e : Message) : Prop :=
  ∃ p again alloc, step s0 (.loop (.packet p again alloc)) = some s1 ∧ receivedFor s0.m p = some e

theorem init_uids {s : Sys} (h : IsInit s) : UidsBelow s.m.published s.m.msgsOut.inflight := by
  obtain ⟨id, cleanStart, rfl⟩ := h
  exact uidsBelow_nil _

/-- The number of a message that has been received is taken, and the message stays received. -/
theorem received_after {s0 s1 s : Sys} {e : Message} (h0 : Machine.Reach step IsInit Machine.anyAct s0)
    (he : Receives s0 s1 e) (h : Machine.Reach step (· = s1) (fun s a => Keeps s a = true) s) :
    e.uid < s.m.published ∧ Received e.uid e.mid s.m.msgsOut.inflight := by
  have hn := h0.inv (fun _ => init_uids) (fun _ _ _ hi _ hs => step_uids (step_moves hs) hi)
  obtain ⟨p, again, alloc, hs, hp⟩ := he
  have hgrow {t t' : Sys} {a : Act} (hm : Moves t a t') : t.m.published ≤ t'.m.published := by
    rw [show t'.m.published = t.m.published + publishesNow t a from congrArg Outflow.published (step_outflow hm)]
    exact Nat.le_add_right ..
  refine h.inv (I := fun t => e.uid < t.m.published ∧ Received e.uid e.mid t.m.msgsOut.inflight) (fun t ht => ?_)
    (fun t a t' hi hg hst => ?_)
  · subst ht
    have hm := step_moves hs
    have hmem : e ∈ s0.m.msgsOut.inflight := by
      obtain ⟨-, -, -, -, -, -, -, hf, -⟩ := receivedFor_some hp
      exact List.mem_of_find?_eq_some hf
    refine ⟨(hn.below e hmem).trans_le (hgrow hm), ?_⟩
    cases hm with
    | packet i n p again alloc hl hsock hst t ht =>
      rw [outflow_readMoves ht]
      exact received_pubrec alloc hp hn.inOrder
  · have hm := step_moves hst
    exact ⟨hi.1.trans_le (hgrow hm), step_received hm hg hi.1 hi.2⟩

/-- The PUBLISHes of a step are all among what is handed over for the messages; and after the PUBREC of a
    message, if every reset keeps what has been received, only PUBRELs are handed over for it. -/
theorem received_final {s0 s1 s s' : Sys} {e : Message} {b : Act}
    (h0 : Machine.Reach step IsInit Machine.anyAct s0)
    (he : Receives s0 s1 e) (h : Machine.Reach step (· = s1) (fun s a => Keeps s a = true) s)
    (hb : step s b = some s') :
    s'.m.outflow.pubs = (publishesOf (handed s b)).reverse ++ s.m.outflow.pubs ∧
      ∀ x ∈ handed s b, x.1.uid = e.uid → x.2 = .pubrel e.mid := by
  obtain ⟨hu, hr⟩ := received_after h0 he h
  exact ⟨congrArg Outflow.pubs (step_outflow (step_moves hb)), fun x hx => handed_pubrel b hr hu hx⟩

def publishesQos2 : Act :=
  .publish RecEnv.good.alloc
    { topic := some (.of [116]), payload := [], qos := 2, retain := false, properties := [],
      clientGenerated := false }

/-- The connection is lost, and the CONNACK of the new one comes with this Receive Maximum. -/
def reopens (max : UInt16) : List Act :=
  loses ++ List.replicate 6 tick ++ writes ++ ends ++ reads (connack 0 (receiveMaximum max))

/-- Two messages are on their way in a window of two. -/
def twoOut : List Act :=
  established (receiveMaximum 2) ++ [publishesQos2, publishesQos2] ++ writes ++ ends ++
    [.loop (.select (.ready true))]

def pubrecIn : InPacket := .pubrec (.ok 2) (.ok 0)

/-- What is handed over in the step `b`, after the two messages, the PUBREC and the actions given: whether
    they meet the condition, and for each packet its message and whether it is a PUBLISH. -/
def afterPubrec (as : List Act) (b : Act) (s0 : Sys) : Option (Nat × Bool × List (Nat × Bool)) := do
  let e ← receivedFor s0.m pubrecIn
  let s1 ← step s0 (.loop (.packet pubrecIn true RecEnv.good.alloc))
  let s ← Machine.run step s1 as
  let _ ← step s b
  some (e.uid, decide (Machine.Meets step (fun s a => Keeps s a = true) s1 as),
    (handed s b).map fun x => (x.1.uid, x.2.isPublish))

theorem afterPubrec_some {as : List Act} {b : Act} {u : Nat} {ok : Bool} {l : List (Nat × Bool)}
    (h : (Machine.run step (Sys.init none true) twoOut).bind (afterPubrec as b) = some (u, ok, l)) :
    ∃ s0 s1 s s' e, Machine.Reach step IsInit Machine.anyAct s0 ∧ Receives s0 s1 e ∧ e.uid = u ∧
      Machine.run step s1 as = some s ∧ decide (Machine.Meets step (fun s a => Keeps s a = true) s1 as) = ok ∧
      step s b = some s' ∧ (handed s b).map (fun x => (x.1.uid, x.2.isPublish)) = l := by
  obtain ⟨s0, hs0, h⟩ := Option.bind_eq_some_iff.mp h
  obtain ⟨e, he, h⟩ := Option.bind_eq_some_iff.mp h
  obtain ⟨s1, hs1, h⟩ := Option.bind_eq_some_iff.mp h
  obtain ⟨s, hs, h⟩ := Option.bind_eq_some_iff.mp h
  obtain ⟨s', hs', h⟩ := Option.bind_eq_some_iff.mp h
  simp only [Option.some.injEq, Prod.mk.injEq] at h
  refine ⟨s0, s1, s, s', e, ?_, ⟨pubrecIn, true, _, hs1, he⟩, h.1, hs, h.2.1, hs', h.2.2⟩
  exact Machine.reach_of_run (.init ⟨none, true, rfl⟩) (Machine.meets_any _ _) hs0

/-- On a new connection with the same window the first message is published again, and the second released. -/
theorem received_final_reopened : ∃ s0 s1 s s' e, Receives s0 s1 e ∧
    Machine.run step s1 (idles ++ reopens 2) = some s ∧
    step s tick = some s' ∧ (handed s tick).map (fun x => (x.1.uid, x.2.isPublish)) = [(0, true), (1, false)] ∧
    e.uid = 1 ∧
    s'.m.outflow.pubs = (publishesOf (handed s tick)).reverse ++ s.m.outflow.pubs ∧
      ∀ x ∈ handed s tick, x.1.uid = e.uid → x.2 = .pubrel e.mid := by
  have hr : (Machine.run step (Sys.init none true) twoOut).bind (afterPubrec (idles ++ reopens 2) tick) =
      some (1, true, [(0, true), (1, false)]) := by decide
  obtain ⟨s0, s1, s, s', e, h0, he, hu, hs, hm, hb, hl⟩ := afterPubrec_some hr
  have hreach : Machine.Reach step (· = s1) (fun s a => Keeps s a = true) s :=
    Machine.reach_of_run (.init rfl) (of_decide_eq_true hm) hs
  exact ⟨s0, s1, s, s', e, he, hs, hb, hl, hu, received_final h0 he hreach hb⟩

/-- The Receive Maximum shrinks to one, and the connection is lost once more. -/
def shrunk : List Act := idles ++ reopens 1 ++ [tick] ++ idles ++ reopens 1 ++ [tick] ++ idles

/-- The next publish call has the second message published again. -/
theorem shrunk_republishes : ¬ ∀ s0 s1 s s' e b, Machine.Reach step IsInit Machine.anyAct s0 → Receives s0 s1 e →
    Machine.Reach step (· = s1) Machine.anyAct s → step s b = some s' →
      ∀ x ∈ handed s b, x.1.uid = e.uid → x.2 = .pubrel e.mid := by
  intro h
  have hr : (Machine.run step (Sys.init none true) twoOut).bind (afterPubrec shrunk publishesQos2) =
      some (1, false, [(1, true)]) := by decide
  obtain ⟨s0, s1, s, s', e, h0, he, hu, hs, -, hb, hl⟩ := afterPubrec_some hr
  have hreach : Machine.Reach step (· = s1) Machine.anyAct s :=
    Machine.reach_of_run (.init rfl) (Machine.meets_any _ _) hs
  obtain ⟨x, hx, hshape⟩ : ∃ x ∈ handed s publishesQos2, (x.1.uid, x.2.isPublish) = (1, true) :=
    List.mem_map.mp (by rw [hl]; exact List.mem_singleton_self _)
  rw [Prod.mk.injEq] at hshape
  have := h s0 s1 s s' e publishesQos2 h0 he hreach hb x hx (hshape.1.trans hu.symm)
  rw [this] at hshape
  cases hshape.2

end Artemisia.Threads
