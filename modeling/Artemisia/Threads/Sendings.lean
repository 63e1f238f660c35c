/-
  Artemisia.Threads.Sendings — a run with the PUBLISHes of QoS 1 and 2 that it hands to `packet__queue`.

  Proved:
  - `step_sends`:  where a step takes the PUBLISHes it hands over from.
  - `passes_step`: unless it is a reset, what it makes of each message out.
  - `queued_recorded`: the record is that of the PUBLISHes in the trace.
-/
import Artemisia.Client.Sendings
import Artemisia.Threads.Sides

namespace Artemisia.Threads

open Artemisia.Property Artemisia.Client

/-! ## The record -/

/-- The PUBLISHes of QoS 1 and 2 that a step hands over, in their order. -/
def sendings (s : Sys) (a : Act) : List Sending := sendingsOf s.m.sock (handed s a)

def noteSendings (s : Sys) (a : Act) (_ : Sys) (log : List Sending) : List Sending :=
  (sendings s a).reverse ++ log

/-- The record is kept newest first. -/
abbrev sendStep : Sys × List Sending → Act → Option (Sys × List Sending) := Machine.recorded step noteSendings

def sendInit (id : Option Bytes) (cleanStart : Bool) : Sys × List Sending := (Sys.init id cleanStart, [])

/-- It holds of each PUBLISH and those before it. -/
def Each (P : Sending → List Sending → Prop) : List Sending → Prop
  | [] => True
  | y :: t => P y t ∧ Each P t

instance decEach {P : Sending → List Sending → Prop} [∀ y t, Decidable (P y t)] : (l : List Sending) →
    Decidable (Each P l)
  | [] => inferInstanceAs (Decidable True)
  | _ :: t =>
    have := decEach (P := P) t
    inferInstanceAs (Decidable (_ ∧ _))

/-- The QoS and the DUP flag of a PUBLISH of QoS 1 or 2. -/
def Packet.marks : Packet → Option (Nat × Bool)
  | .publish _ _ _ qos _ dup _ => if qos = 0 then none else some (qos, dup)
  | _ => none

theorem marks_sendingsOf (sock : Option Nat) (l : List (Message × Packet)) :
    (publishesOf l).filterMap Packet.marks = (sendingsOf sock l).map fun y => (y.qos, y.dup) := by
  induction l with
  | nil => rfl
  | cons x l ih =>
    obtain ⟨e, p⟩ := x
    cases p with
    | publish mid topic payload qos retain dup properties =>
      rw [publishesOf_cons _ rfl]
      by_cases hq : qos = 0
      · simp only [sendingsOf, sendingOf, Packet.marks, hq, if_true, List.filterMap_cons]
        exact ih
      · simp only [sendingsOf, sendingOf, Packet.marks, hq, if_false, List.filterMap_cons, List.map_cons]
        exact congrArg _ ih
    | _ => exact ih

/-- What is recorded are the PUBLISHes of QoS 1 and 2 that the trace has. -/
theorem queued_recorded {x : Sys × List Sending} {id : Option Bytes} {cleanStart : Bool}
    {ok : Sys × List Sending → Act → Prop}
    (h : Machine.Reach sendStep (· = sendInit id cleanStart) ok x) :
    x.1.m.outflow.pubs.filterMap Packet.marks = x.2.map fun y => (y.qos, y.dup) := by
  refine h.inv (I := fun x => x.1.m.outflow.pubs.filterMap Packet.marks = x.2.map fun y => (y.qos, y.dup))
    (fun x hx => by rw [hx]; rfl) (fun x a y hi _ hs => ?_)
  obtain ⟨hst, hlog⟩ := Machine.recorded_some.mp hs
  have hpubs : y.1.m.outflow.pubs = (publishesOf (handed x.1 a)).reverse ++ x.1.m.outflow.pubs :=
    congrArg Outflow.pubs (step_outflow (step_moves hst))
  rw [hpubs, hlog, List.filterMap_append, hi, List.filterMap_reverse, marks_sendingsOf x.1.m.sock, noteSendings,
    List.map_append, List.map_reverse]
  rfl

/-! ## Where PUBLISHes come from -/

/-- The client when a step comes to `message__release_to_inflight`. -/
def releaseAt (s : Sys) : Act → Option (Alloc × Mosq)
  | .publish alloc a => (publishRelease s.m a).map (alloc, ·)
  | .loop (.packet p _ alloc) => (packetRelease s.m p).map (alloc, ·)
  | _ => none

/-- A step comes to `message__retry_check`. -/
def retryAt (s : Sys) : Act → Option Alloc
  | .loop (.tick env) => match s.loop with
    | .connack 0 _ _ => some env.alloc
    | _ => none
  | _ => none

/-- What a step makes of the messages out, with what it hands over. -/
inductive SendMoves (s : Sys) (a : Act) (l : List Message) : Prop where
  | same : sendings s a = [] → stored s a = [] → l = s.m.msgsOut.inflight → SendMoves s a l
  | received (mid : UInt16) : sendings s a = [] → stored s a = [] →
      l = setFirstState mid .waitForPubcomp s.m.msgsOut.inflight → SendMoves s a l
  | released (alloc : Alloc) (m : Mosq) : releaseAt s a = some (alloc, m) →
      sendings s a = sendingsOf s.m.sock (releaseHands alloc m m.msgsOut.inflight) →
      l = (messageReleaseToInflight alloc m).1.msgsOut.inflight → m.sock = s.m.sock →
      (m.msgsOut.inflight = s.m.msgsOut.inflight ++ stored s a ∨
        (stored s a = [] ∧ ∃ mid, m.msgsOut.inflight =
          s.m.msgsOut.inflight.eraseP (·.mid = mid))) → SendMoves s a l
  | retried (alloc : Alloc) (m : Mosq) : retryAt s a = some alloc → stored s a = [] → m.sock = s.m.sock →
      m.limits = s.m.limits → sendings s a = sendingsOf s.m.sock (retryHands alloc m s.m.msgsOut.inflight) →
      l = (retryLoop alloc m s.m.msgsOut.inflight).2 → SendMoves s a l
  | reset : resets s a = true → sendings s a = [] → stored s a = [] →
      l = (resetOutLoop s.m.msgsOut.inflightMaximum s.m.msgsOut.inflight).2 → SendMoves s a l

theorem sends_publish {s : Sys} {alloc : Alloc} {a : PublishArgs}
    (ha : (mosquittoPublishV5 alloc s.m a).2 ≠ .aborted) :
    SendMoves s (.publish alloc a) (mosquittoPublishV5 alloc s.m a).1.msgsOut.inflight := by
  by_cases hc : publishChecks s.m a = .success
  · by_cases h0 : a.qos = 0
    · have hrel : publishRelease s.m a = none := by simp [publishRelease, h0]
      refine .same ?_ (by simp [stored, h0]) ?_
      · simp only [sendings, handed, publishHands, hrel]
        split
        · simp [sendingsOf, sendingOf, publishPacket, messageOf, h0]
        · rfl
      · simp [mosquittoPublishV5, hc, h0]
        rfl
    · have hcopies := copies_of_published hc h0 ha
      have hrel : publishRelease s.m a =
          some { drawn s.m with msgsOut := s.m.msgsOut.append (messageOf s.m a (midGenerate s.m).2) } := by
        rw [publishRelease, if_pos ⟨hc, h0, hcopies⟩]
        rfl
      have hstored : stored s (.publish alloc a) = [messageOf s.m a (midGenerate s.m).2] := by
        rw [stored, if_pos ⟨hc, h0⟩]
      refine .released alloc { drawn s.m with msgsOut := s.m.msgsOut.append (messageOf s.m a
                                                (midGenerate s.m).2) }
        (by simp only [releaseAt, hrel, Option.map_some]) ?_ ?_ rfl (.inl ?_)
      · simp only [sendings, handed, publishHands, hrel]
      · simp only [mosquittoPublishV5, hc, h0, hcopies, if_false, if_true]
        rfl
      · rw [hstored]
        rfl
  · have hrel : publishRelease s.m a = none := by simp [publishRelease, hc]
    refine .same ?_ (by simp [stored, hc]) ?_
    · simp [sendings, handed, publishHands, hrel, hc, sendingsOf]
    · unfold mosquittoPublishV5
      split
      · rename_i hs
        exact absurd hs hc
      · rfl

theorem sends_packet (s : Sys) (p : InPacket) (again : Bool) (alloc : Alloc) :
    SendMoves s (.loop (.packet p again alloc)) (handlePacket alloc s.m p).1.msgsOut.inflight := by
  cases packet_store alloc s.m p with
  | none hrel hl => exact .same (sendings_unreleased alloc s.m hrel) rfl hl
  | received mid hrel hl => exact .received mid (sendings_unreleased alloc s.m hrel) rfl hl
  | released m hrel hl hs hlim hm =>
    refine .released alloc m (by simp only [releaseAt, hrel, Option.map_some]) ?_ hl hs ?_
    · rw [sendings, handed, packetHands_released alloc s.m hrel]
    · rcases hm with hm | hm
      · exact .inl (hm.trans (List.append_nil _).symm)
      · exact .inr ⟨rfl, hm⟩

theorem sends_connack {s : Sys} {env : RecEnv} {r : UInt8} {max : Nat} {turn : Turn}
    (hl : s.loop = .connack r max turn) :
    SendMoves s (.loop (.tick env)) (connackSwitch env.alloc s.m r).1.msgsOut.inflight := by
  by_cases hr : r = 0
  · subst hr
    have hat : retryAt s (.loop (.tick env)) = some env.alloc := by simp [retryAt, hl]
    by_cases hs : s.m.state = .disconnecting
    · refine .retried env.alloc s.m hat rfl rfl rfl ?_ ?_
      · simp [sendings, handed, hl, connackHands, hs]
      · simp [connackSwitch, hs, messageRetryCheck]
    · refine .retried env.alloc (s.m.setState .active) hat rfl rfl rfl ?_ ?_
      · simp [sendings, handed, hl, connackHands, hs]
      · simp [connackSwitch, hs, messageRetryCheck]
  · refine .same ?_ rfl ?_
    · simp [sendings, handed, hl, connackHands, hr, sendingsOf]
    · unfold connackSwitch
      rw [if_neg hr]
      split <;> rfl

theorem sends_recMoves {s : Sys} {a : Act} {env : RecEnv} {p : List MosquittoProperty} {m : Mosq} {pc : RecPc}
    {next : RecPc ⊕ Rc} (h : RecMoves env p s.m pc m next) (hh : handed s a = []) (hs : stored s a = [])
    (hr : pc = .reset → resets s a = true) : SendMoves s a m.msgsOut.inflight := by
  have hnone : sendings s a = [] := by rw [sendings, hh]; rfl
  cases h with
  | reset => exact .reset (hr rfl) hnone hs rfl
  | sent => exact .same hnone hs (by rw [msgsOut_sendConnect])
  | unsent => exact .same hnone hs (by rw [msgsOut_sendConnect])
  | _ => exact .same hnone hs rfl

theorem step_sends {s s' : Sys} {a : Act} (h : Moves s a s') : SendMoves s a s'.m.msgsOut.inflight := by
  cases h with
  | connect c hq => exact .same rfl rfl (inflight_setupMosquitto s.m _)
  | publish alloc a hq ha => exact sends_publish ha
  | bind env c hq => exact .same rfl rfl (inflight_connectBind s.m env c)
  | queueRec env pc pc' l m hq e => exact sends_recMoves e rfl rfl (fun hpc => by simp [resets, hq, hpc])
  | queueRecEnd env pc l m rc hq e => exact sends_recMoves e rfl rfl (fun hpc => by simp [resets, hq, hpc])
  | discSend env r l hq => exact .same rfl rfl (by simp)
  | packet i n p again alloc hl hs hp t ht =>
    rw [outflow_readMoves ht]
    exact sends_packet s p again alloc
  | connack r max turn env hl => exact sends_connack hl
  | write i n taken e again m rc hl he =>
    have hm := msgsOut_packetWrite s.m e.rc taken
    rw [he] at hm
    exact .same rfl rfl (congrArg MsgData.inflight hm)
  | writeDisconnect i n taken e again m hl he =>
    have hm := msgsOut_packetWrite s.m e.rc taken
    rw [he] at hm
    exact .same rfl rfl (congrArg MsgData.inflight hm)
  | ping alloc hl hs ht => exact .same rfl rfl (by simp)
  | loopRec env pc pc' m hl e =>
    exact sends_recMoves e (by simp [handed, hl]) rfl (fun hpc => by simp [resets, hl, hpc])
  | loopRecEnd env pc m rc hl e =>
    exact sends_recMoves e (by simp [handed, hl]) rfl (fun hpc => by simp [resets, hl, hpc])
  | waitNew env hl | discCall turn env hl | rcClose rc turn env hl | rcCall rc turn env hl | kaCall rc env hl
  | check1 env hl | check2 env hl => exact .same (by simp [sendings, handed, hl, sendingsOf]) rfl rfl
  | _ => exact .same rfl rfl rfl

/-! ## What becomes of the messages out -/

theorem invalid_resetOutState {e : Message} (h : resetOutState e = .invalid) : e.state = .invalid := by
  unfold resetOutState at h
  split at h
  · cases h
  · split at h
    · split at h
      · cases h
      · cases h
      · exact h
    · exact h

section Steps

variable {s s' : Sys} {a : Act} {l : List Message}

theorem stored_uid {e : Message} (h : e ∈ stored s a) : e.uid = s.m.published ∧ e.state = .invalid ∧
    e.dup = false ∧ OutOk e := by
  cases a with
  | publish alloc a =>
    simp only [stored] at h
    split at h
    · rename_i hc
      rw [List.mem_singleton.mp h]
      exact ⟨rfl, rfl, rfl, outOk_messageOf s.m _ hc.1 hc.2⟩
    · cases h
  | _ => cases h

theorem storeOk_stored (hs : StoreOk s.m.msgsOut.inflight) : StoreOk (s.m.msgsOut.inflight ++ stored s a) :=
  storeOk_append.mpr ⟨hs, fun _ he => (stored_uid he).2.2.2⟩

/-- The message that a step stores comes last. -/
theorem uids_stored (hn : UidsBelow s.m.published s.m.msgsOut.inflight) :
    ((s.m.msgsOut.inflight ++ stored s a).map Message.uid).Pairwise (· < ·) := by
  cases a with
  | publish alloc a =>
    simp only [stored]
    split
    · exact (hn.snoc (show (messageOf s.m a (midGenerate s.m).2).uid = s.m.published from rfl)).inOrder
    · rw [List.append_nil]
      exact hn.inOrder
  | _ =>
    simp only [stored, List.append_nil]
    exact hn.inOrder

/-- What a release finds in the store. -/
theorem released_sublist {l1 : List Message} (h : l1 = s.m.msgsOut.inflight ++ stored s a ∨
    (stored s a = [] ∧ ∃ mid, l1 = s.m.msgsOut.inflight.eraseP (·.mid = mid))) :
    l1.Sublist (s.m.msgsOut.inflight ++ stored s a) := by
  rcases h with h | ⟨hst, mid, h⟩
  · rw [h]
  · rw [h, hst, List.append_nil]
    exact List.eraseP_sublist

/-- Unless it is a reset, a step passes over the store and hands over what it sends of it. -/
theorem passes_step (h : SendMoves s a l) (hs : StoreOk s.m.msgsOut.inflight) (hr : resets s a = false) :
    ∃ h, Passes s.m.sock (s.m.msgsOut.inflight ++ stored s a) l h ∧
    sendings s a = h.map (Message.sending s.m.sock) := by
  cases h with
  | same hnone hst hl =>
    refine ⟨[], ?_, hnone⟩
    rw [hst, hl, List.append_nil]
    exact .refl _
  | received mid hnone hst hl =>
    refine ⟨[], ?_, hnone⟩
    rw [hst, hl, List.append_nil]
    exact passes_setFirstState mid _
  | released alloc m hat hsend hl hsock hm =>
    have hsub := released_sublist hm
    obtain ⟨hp, hh⟩ := passes_release alloc m fun e he => storeOk_stored (a := a) hs e (hsub.subset he)
    rw [hsock] at hp hh
    exact ⟨takesOn alloc m m.msgsOut.inflight, hl ▸ hp.of_sublist hsub, hsend.trans hh⟩
  | retried alloc m hat hst hsock hlim hsend hl =>
    obtain ⟨hp, hh⟩ := passes_retryLoop alloc m hs
    rw [hsock] at hp hh
    rw [hst, hl, List.append_nil]
    exact ⟨Client.retried alloc m s.m.msgsOut.inflight, hp, hsend.trans hh⟩
  | reset hreset =>
    rw [hreset] at hr
    cases hr

theorem resets_recAt (h : resets s a = true) : ∃ env l, recAt s a = some (env, .reset, l) := by
  unfold resets at h
  split at h
  · rename_i env
    split at h
    · rename_i l hq
      exact ⟨env, l, by simp [recAt, hq]⟩
    · cases h
  · rename_i env
    split at h
    · rename_i hl
      exact ⟨env, [], by simp [recAt, hl]⟩
    · cases h
  · cases h

/-- A reset hands nothing over. -/
theorem reset_sends (h : Moves s a s') (hr : resets s a = true) : sendings s a = [] ∧
    s'.m.msgsOut.inflight = (resetOutLoop s.m.msgsOut.inflightMaximum s.m.msgsOut.inflight).2 := by
  obtain ⟨env, l, hat⟩ := resets_recAt hr
  constructor
  · cases a with
    | loop e =>
      cases e with
      | tick env =>
        simp only [resets] at hr
        split at hr
        · rename_i hl
          simp [sendings, handed, hl, sendingsOf]
        · cases hr
      | _ => cases hr
    | queue env => rfl
    | _ => cases hr
  · cases act_sides h with
    | piece b env' pc l' next hb hat' hm =>
      cases hb
      rw [hat] at hat'
      cases hat'
      generalize s'.m = m' at hm
      cases hm
      rfl
    | away hnone =>
      rw [hnone a rfl] at hat
      cases hat

end Steps

/-! ## Runs -/

theorem each_append {P : Sending → List Sending → Prop} {log h : List Sending} (hl : Each P log)
    (hh : ∀ pre y post, h = pre ++ y :: post → P y (pre.reverse ++ log)) : Each P (h.reverse ++ log) := by
  induction h generalizing log with
  | nil => exact hl
  | cons y h ih =>
    rw [List.reverse_cons, List.append_assoc]
    refine @ih (y :: log) ⟨hh [] y h rfl, hl⟩ (fun pre z post hz => ?_)
    have hz' := hh (y :: pre) z post (by rw [hz]; rfl)
    rw [List.reverse_cons, List.append_assoc] at hz'
    exact hz'

/-- The messages out and the record, by their numbers. -/
structure Numbers (x : Sys × List Sending) : Prop where
  store : StoreOk x.1.m.msgsOut.inflight
  uids : UidsBelow x.1.m.published x.1.m.msgsOut.inflight
  below : ∀ y ∈ x.2, y.uid < x.1.m.published

theorem init_numbers {x : Sys × List Sending} {id : Option Bytes} {cleanStart : Bool}
    (h : x = sendInit id cleanStart) :
    Numbers x := by
  subst h
  exact ⟨StoreOk.nil, uidsBelow_nil _, by simp [sendInit]⟩

/-- What is recorded of a step has the number of a message out. -/
theorem sendings_below {s s' : Sys} {a : Act} (hn : UidsBelow s.m.published s.m.msgsOut.inflight)
    (hs : StoreOk s.m.msgsOut.inflight) (h : Moves s a s') : ∀ y ∈ sendings s a, y.uid < s'.m.published := by
  cases hr : resets s a with
  | true => simp [(reset_sends h hr).1]
  | false =>
    obtain ⟨l, hp, hh⟩ := passes_step (step_sends h) hs hr
    intro y hy
    rw [hh] at hy
    obtain ⟨e, he, rfl⟩ := List.mem_map.mp hy
    show e.uid < _
    have hpub : s'.m.published = s.m.published + publishesNow s a := congrArg Outflow.published (step_outflow h)
    rcases List.mem_append.mp (hp.sublist.subset he) with he | he
    · have := hn.below e he
      omega
    · rw [(stored_uid he).1, hpub]
      cases a with
      | publish alloc a =>
        simp only [stored] at he
        split at he
        · rename_i hc
          simp [publishesNow, hc]
        · cases he
      | _ => cases he

theorem step_numbers {x y : Sys × List Sending} {a : Act} (hi : Numbers x) (h : sendStep x a = some y) :
    Numbers y := by
  obtain ⟨hst, hlog⟩ := Machine.recorded_some.mp h
  have hm := step_moves hst
  refine ⟨act_store hi.store hm, step_uids hm hi.uids, fun z hz => ?_⟩
  have hgrow : x.1.m.published ≤ y.1.m.published := by
    rw [show y.1.m.published = x.1.m.published + publishesNow x.1 a from congrArg Outflow.published
      (step_outflow hm)]
    exact Nat.le_add_right ..
  rw [hlog, noteSendings] at hz
  rcases List.mem_append.mp hz with hz | hz
  · exact sendings_below hi.uids hi.store hm z (List.mem_reverse.mp hz)
  · exact (hi.below z hz).trans_le hgrow

end Artemisia.Threads
