/-
  Artemisia.Threads.NoLoss — what becomes of a message that has been stored?

  It leaves the store when its acknowledgement is handled, and that is when on_publish is called. The
  handlers look for it by its packet id, and the callback of a PUBLISH of QoS 0 gives a packet id too, so this
  rests on the ids being distinct: less than 65535 are drawn while a message is out or a packet waits to
  be written.

  Proved:
  - `kept_step`:      a step that does not complete the message keeps it as it is, and does not call
                      on_publish for it.
  - `completed_step`: the step that does takes it out and calls on_publish once.
  - `completed_once`: so over a run, from the call that stores the message to its acknowledgement.
-/
import Mathlib.Data.List.Nodup
import Artemisia.Threads.PacketIds

namespace Artemisia.Threads

open Artemisia.Property Artemisia.Client

/-! ## What is asked of a run -/

/-- Less than 65535 packet ids have been drawn while any one message was out, or any one packet waited. -/
def Spaced (x : Sys × Ids) : Prop :=
  (∀ e ∈ x.1.m.msgsOut.inflight, x.2.generated - x.2.born e.uid < 65535) ∧
    ∀ w ∈ x.2.waiting, x.2.generated - w.2 < 65535

instance (x : Sys × Ids) : Decidable (Spaced x) := inferInstanceAs (Decidable (_ ∧ _))

/-- The packet is the acknowledgement of the message, and it is handled: a PUBACK at QoS 1; at QoS 2 a
    PUBCOMP, or in version 5 a PUBREC with a reason code from 0x80 on. -/
def completing (m : Mosq) (e : Message) : InPacket → Bool
  | .pubackcomp type mid tail =>
    m.state = .active && match readAck m mid tail with
    | .ok (mid, _) => mid = e.mid && type.qos = e.qos
    | .error _ => false
  | .pubrec mid tail =>
    m.state = .active && match readAck m mid tail with
    | .ok (mid, reasonCode) => if reasonCode < 0x80 ∨ m.protocol ≠ .mqtt5 then false else mid = e.mid && e.qos = 2
    | .error _ => false
  | _ => false

def completes (s : Sys) (e : Message) : Call → Bool
  | .act (.loop (.packet p _ _)) => completing s.m e p
  | _ => false

/-! ## The acknowledgement -/

section Acknowledged

variable {m : Mosq} {e : Message}

/-- The handlers find the message under its packet id. -/
theorem find_of_nodup {l : List Message} (h : (l.map Message.mid).Nodup) (he : e ∈ l) :
    l.find? (·.mid = e.mid) = some e := by
  induction l with
  | nil => cases he
  | cons x l ih =>
    rw [List.map_cons, List.nodup_cons] at h
    rcases List.mem_cons.mp he with rfl | he
    · simp
    · have hne : x.mid ≠ e.mid := fun heq => h.1 (heq ▸ List.mem_map_of_mem he)
      rw [List.find?_cons_of_neg (by simpa using hne)]
      exact ih h.2 he

theorem remove_iff (qos : Nat) (hf : m.msgsOut.inflight.find? (·.mid = e.mid) = some e) :
    (∃ x, messageRemove m.msgsOut e.mid qos = .ok x) ↔ e.qos = qos := by
  unfold messageRemove
  rw [hf]
  by_cases hq : e.qos = qos
  · simp [hq]
  · simp [hq]

/-- The packet completes what is found under its id exactly when it is the acknowledgement of that message. -/
theorem acked_iff (hf : m.msgsOut.inflight.find? (·.mid = e.mid) = some e) (p : InPacket) :
    acked m p = some e.mid ↔ completing m e p = true := by
  cases p with
  | pubackcomp type mid tail =>
    simp only [acked, completing]
    by_cases hs : m.state = .active
    · cases hr : readAck m mid tail with
      | error rc => simp [hs]
      | ok r =>
        by_cases hm : r.1 = e.mid
        · have := remove_iff type.qos hf
          cases hx : messageRemove m.msgsOut e.mid type.qos with
          | ok x => simp [hs, hm, hx, (this.mp ⟨x, hx⟩)]
          | error rc =>
            have hne : ¬ type.qos = e.qos := fun heq => by
              obtain ⟨x, hok⟩ := this.mpr heq.symm
              rw [hx] at hok
              cases hok
            simp [hs, hm, hx, hne]
        · cases hx : messageRemove m.msgsOut r.1 type.qos with
          | ok x => simp [hs, hm, hx]
          | error rc => simp [hs, hm, hx]
    · simp [hs]
  | pubrec mid tail =>
    simp only [acked, completing]
    by_cases hs : m.state = .active
    · cases hr : readAck m mid tail with
      | error rc => simp [hs]
      | ok r =>
        by_cases hc : r.2 < 0x80 ∨ m.protocol ≠ .mqtt5
        · simp [hs, hc]
        · by_cases hm : r.1 = e.mid
          · have := remove_iff 2 hf
            cases hx : messageRemove m.msgsOut e.mid 2 with
            | ok x => simp [hs, hc, hm, hx, (this.mp ⟨x, hx⟩)]
            | error rc =>
              have hne : ¬ e.qos = 2 := fun heq => by
                obtain ⟨x, hok⟩ := this.mpr heq
                rw [hx] at hok
                cases hok
              simp [hs, hc, hm, hx, hne]
          · cases hx : messageRemove m.msgsOut r.1 2 with
            | ok x => simp [hs, hc, hm, hx]
            | error rc => simp [hs, hc, hm, hx]
    · simp [hs]
  | _ => simp [acked, completing]

end Acknowledged

/-! ## One step -/

section Steps

variable {x y : Sys × Ids} {c : Call} {e : Message}

/-- Draws that are less than 65535 back give different packet ids. -/
theorem idOf_ne {a b n : Nat} (ha : 0 < a) (hb : 0 < b) (han : a ≤ n) (hbn : b ≤ n) (hda : n - a < 65535)
    (hdb : n - b < 65535) (h : a ≠ b) : idOf a ≠ idOf b := by
  rcases Nat.lt_or_gt_of_ne h with hlt | hlt
  · rw [Ne, idOf_eq_iff ha hlt.le]
    omega
  · rw [ne_comm, Ne, idOf_eq_iff hb hlt.le]
    omega

theorem Spaced.contents (hs : Spaced x) : ∀ e ∈ x.1.m.contents, x.2.generated - x.2.born e.uid < 65535 := by
  intro e he
  obtain ⟨e0, he0, rfl⟩ := List.mem_map.mp he
  exact hs.1 e0 he0

theorem spaced_nodup (hi : Counted x) (hs : Spaced x) : (x.1.m.contents.map Message.mid).Nodup := by
  have hin := hi.inOrder
  rw [List.pairwise_map] at hin
  rw [List.Nodup, List.pairwise_map]
  refine hin.imp_of_mem ?_
  intro a b ha hb hlt
  obtain ⟨hida, hposa, hlea⟩ := hi.ids a ha
  obtain ⟨hidb, hposb, hleb⟩ := hi.ids b hb
  rw [hida, hidb]
  exact idOf_ne hposa hposb hlea hleb (hs.contents a ha) (hs.contents b hb) hlt.ne

/-- What is stored under the packet id of the message is the message. -/
theorem spaced_acked (hi : Counted x) (hs : Spaced x) (he : e ∈ x.1.m.contents) :
    ackedNow x.1 c = some e.mid ↔ completes x.1 e c = true := by
  obtain ⟨e0, he0, rfl⟩ := List.mem_map.mp he
  have hnd := spaced_nodup hi hs
  rw [← mids_contents] at hnd
  have hiff (p : InPacket) : acked x.1.m p = some e0.mid ↔ completing x.1.m e0.said p = true :=
    acked_iff (find_of_nodup hnd he0) p
  cases c with
  | act a =>
    cases a with
    | loop ev =>
      cases ev with
      | packet p again alloc => exact hiff p
      | _ => simp [ackedNow, completes]
    | _ => simp [ackedNow, completes]
  | _ => simp [ackedNow, completes]

/-- A PUBLISH of QoS 0 that waits to be written does not have the packet id of a message out. -/
theorem spaced_waiting (hi : Counted x) (hs : Spaced x) (he : e ∈ x.1.m.contents) {p : Packet}
    (hp : p ∈ unwritten x.1.m) :
    p.completes ≠ some e.mid := by
  intro hc
  rw [← hi.waiting] at hp
  obtain ⟨w, hw, rfl⟩ := List.mem_map.mp hp
  obtain ⟨hle, hmid⟩ := hi.waits w hw
  obtain ⟨hid, hpos, hne⟩ := hmid e.mid hc
  obtain ⟨hide, hpose, hlee⟩ := hi.ids e he
  exact idOf_ne hpose hpos hlee hle (hs.contents e he) (hs.2 w hw) (hne e he) (hide.symm.trans hid)

/-- A step that does not complete the message keeps it as it is, and does not call on_publish for it. -/
theorem kept_step (hi : Counted x) (hs : Spaced x) (he : e ∈ x.1.m.contents) (hc : completes x.1 e c = false)
    (h : idStep x c = some y) : e ∈ y.1.m.contents ∧ ∃ f, y.1.m.fired = f ++ x.1.m.fired ∧ e.mid ∉ f := by
  obtain ⟨hst, -⟩ := Machine.recorded_some.mp h
  have hch := call_changes hi.store hst
  have hne : ackedNow x.1 c ≠ some e.mid := fun heq => by
    rw [(spaced_acked hi hs he).mp heq] at hc
    cases hc
  constructor
  · rw [changes_contents hch]
    refine List.mem_append_left _ ?_
    cases ha : ackedNow x.1 c with
    | none => exact he
    | some mid =>
      have hmid : ¬ e.mid = mid := fun heq => hne (by rw [ha, heq])
      exact (List.mem_eraseP_of_neg (by simpa using hmid)).mpr he
  · rcases changes_queue hch with ⟨k, f, -, -, hf, hp⟩ | ⟨l, -, hf, -⟩
    · refine ⟨f, hf, fun hmem => ?_⟩
      obtain ⟨p, hmem, hcomp⟩ := hp _ hmem
      exact spaced_waiting hi hs he hmem hcomp
    · refine ⟨_, hf, fun hmem => ?_⟩
      exact hne (Option.mem_toList.mp hmem)

/-- The step that completes the message takes it out, and calls on_publish once. -/
theorem completed_step (hi : Counted x) (hs : Spaced x) (he : e ∈ x.1.m.contents) (hc : completes x.1 e c = true)
    (h : idStep x c = some y) : (∀ e' ∈ y.1.m.contents, e'.uid ≠ e.uid) ∧ y.1.m.fired = e.mid :: x.1.m.fired := by
  obtain ⟨hst, -⟩ := Machine.recorded_some.mp h
  have hch := call_changes hi.store hst
  have hack := (spaced_acked hi hs he).mpr hc
  have hnone : storedNow x.1 c = [] := by
    cases c with
    | act a => cases a with
      | loop ev => rfl
      | _ => cases hack
    | _ => cases hack
  constructor
  · intro e' he' hu
    rw [changes_contents hch, hnone, List.map_nil, List.append_nil, hack] at he'
    have hmem : e' ∈ x.1.m.contents := List.mem_of_mem_eraseP he'
    -- the numbers are distinct
    have heq : e' = e := by
      have hpw := hi.uids.inOrder
      rw [List.pairwise_map] at hpw
      have hinj : (x.1.m.contents.map Message.uid).Nodup := List.pairwise_map.mpr (hpw.imp Nat.ne_of_lt)
      exact List.inj_on_of_nodup_map hinj hmem he hu
    subst heq
    have hnd := spaced_nodup hi hs
    have herase : (x.1.m.contents.eraseP (·.mid = e'.mid)).map Message.mid =
        (x.1.m.contents.map Message.mid).erase e'.mid := by
      rw [List.erase_eq_eraseP', List.eraseP_map]
      rfl
    have : e'.mid ∈ (x.1.m.contents.map Message.mid).erase e'.mid := herase ▸ List.mem_map_of_mem he'
    exact hnd.not_mem_erase this
  · rcases changes_queue hch with ⟨k, f, hne, -⟩ | ⟨l, -, hf, -⟩
    · rw [hack] at hne
      cases hne
    · rw [hf, hack]
      rfl

end Steps

/-! ## Runs -/

/-- The message is stored in this step: its content is what the publish call was given. -/
structure Stores (x y : Sys × Ids) (alloc : Alloc) (a : PublishArgs) (e : Message) : Prop where
  steps : idStep x (.act (.publish alloc a)) = some y
  stores : storedNow x.1 (.act (.publish alloc a)) = [e]

theorem Stores.given {x y : Sys × Ids} {alloc : Alloc} {a : PublishArgs} {e : Message}
    (h : Stores x y alloc a e) :
    e.topic = a.topicBytes ∧ e.payload = a.payload ∧ (e.qos : Int) = a.qos ∧ e.retain = a.retain ∧
      e.properties = a.outgoing := by
  have hst := h.stores
  simp only [storedNow, stored] at hst
  split at hst
  · rename_i hc
    have hrange : ¬ (a.qos < 0 ∨ a.qos > 2) := by
      intro hr
      simp [publishChecks, hr] at hc
    obtain rfl : _ = e := List.singleton_inj.mp hst
    exact ⟨rfl, rfl, Int.toNat_of_nonneg (by omega), rfl, rfl⟩
  · cases hst

theorem counted_reach {x : Sys × Ids} {id : Option Bytes} {cleanStart : Bool}
    (h : Machine.Reach idStep (· = idInit id cleanStart) Machine.anyAct x) : Counted x :=
  h.inv (fun _ h => h ▸ init_counted id cleanStart) (fun _ _ _ hi _ hs => counted_step hi hs)

theorem stored_out {x y : Sys × Ids} {alloc : Alloc} {a : PublishArgs} {e : Message} (hi : Counted x)
    (h : Stores x y alloc a e) : Counted y ∧ e ∈ y.1.m.contents := by
  obtain ⟨hst, -⟩ := Machine.recorded_some.mp h.steps
  refine ⟨counted_step hi h.steps, ?_⟩
  rw [changes_contents (call_changes hi.store hst), h.stores]
  have hsaid : e.said = e := by
    rcases storedNow_cases x.1 (.act (.publish alloc a)) with hs | ⟨e', hs, hsaid, -⟩
    · rw [h.stores] at hs
      cases hs
    · rw [h.stores] at hs
      rw [List.singleton_inj.mp hs]
      exact hsaid
  rw [List.map_singleton, hsaid]
  exact List.mem_append_right _ (List.mem_singleton_self e)

/-- As long as it is not completed, it is out, and on_publish is not called for it. -/
theorem out_after {x1 x : Sys × Ids} {e : Message} (h1 : Counted x1) (he : e ∈ x1.1.m.contents)
    (h : Machine.Reach idStep (· = x1) (fun x c => Spaced x ∧ completes x.1 e c = false) x) :
    Counted x ∧ e ∈ x.1.m.contents ∧ ∃ f, x.1.m.fired = f ++ x1.1.m.fired ∧ e.mid ∉ f := by
  refine h.inv (I := fun x => Counted x ∧ e ∈ x.1.m.contents ∧ ∃ f, x.1.m.fired = f ++ x1.1.m.fired ∧ e.mid ∉ f)
    (fun x hx => ?_) (fun x c y hi hg hs => ?_)
  · subst hx
    exact ⟨h1, he, [], rfl, by simp⟩
  · obtain ⟨hcount, hmem, f, hf, hnot⟩ := hi
    obtain ⟨hspaced, hcomp⟩ := hg
    obtain ⟨hmem', g, hg, hnot'⟩ := kept_step hcount hspaced hmem hcomp hs
    refine ⟨counted_step hcount hs, hmem', g ++ f, by rw [hg, hf, List.append_assoc], ?_⟩
    rw [List.mem_append]
    intro hor
    exact hor.elim hnot' hnot

/-- From the call that stores a message on, while ids are drawn sparingly, it is kept as it is and
    on_publish is not called with its packet id, until its acknowledgement is handled; then it leaves the store,
    and on_publish is called once. -/
theorem completed_once {x0 x1 x y : Sys × Ids} {alloc : Alloc} {a : PublishArgs} {e : Message} {c : Call}
    {id : Option Bytes} {cleanStart : Bool}
    (h0 : Machine.Reach idStep (· = idInit id cleanStart) Machine.anyAct x0) (he : Stores x0 x1 alloc a e)
    (h : Machine.Reach idStep (· = x1) (fun x c => Spaced x ∧ completes x.1 e c = false) x) (hs : Spaced x)
    (hc : idStep x c = some y) :
    e.topic = a.topicBytes ∧ e.payload = a.payload ∧ (e.qos : Int) = a.qos ∧ e.retain = a.retain ∧
      e.properties = a.outgoing ∧
    (∃ e' ∈ x.1.m.msgsOut.inflight, e'.said = e) ∧ (∃ f, x.1.m.fired = f ++ x1.1.m.fired ∧ e.mid ∉ f) ∧
    (completes x.1 e c = false → (∃ e' ∈ y.1.m.msgsOut.inflight, e'.said = e) ∧
      ∃ f, y.1.m.fired = f ++ x.1.m.fired ∧ e.mid ∉ f) ∧
    (completes x.1 e c = true → (∀ e' ∈ y.1.m.msgsOut.inflight, e'.uid ≠ e.uid) ∧
      y.1.m.fired = e.mid :: x.1.m.fired) := by
  obtain ⟨ht, hp, hq, hr, hl⟩ := he.given
  obtain ⟨h1, hmem1⟩ := stored_out (counted_reach h0) he
  obtain ⟨hi, hmem, hf⟩ := out_after h1 hmem1 h
  refine ⟨ht, hp, hq, hr, hl, List.mem_map.mp hmem, hf, fun hcomp => ?_, fun hcomp => ?_⟩
  · obtain ⟨hkept, hnot⟩ := kept_step hi hs hmem hcomp hc
    exact ⟨List.mem_map.mp hkept, hnot⟩
  · obtain ⟨hgone, hfired⟩ := completed_step hi hs hmem hcomp hc
    exact ⟨fun e' he' => hgone e'.said (List.mem_map_of_mem he'), hfired⟩

/-- The connection is lost and made again, and the message retried on it. -/
def reopened : List Call :=
  (reopens 5 ++ [tick] ++ idles ++ writes ++ ends ++ [Act.loop (.select (.ready true))]).map .act

def pubackIn : Call := .act (.loop (.packet (.pubackcomp .puback (.ok 1) (.ok 0)) true RecEnv.good.alloc))

/-- A message published, the run until its PUBACK, and the PUBACK: whether the run meets the condition, ids
    are spaced at its end, and the PUBACK is the acknowledgement. -/
def untilPuback (x0 : Sys × Ids) : Option (Bool × Bool × Bool) := do
  let e ← (storedNow x0.1 publishesQos1).head?
  let x1 ← idStep x0 publishesQos1
  let x ← Machine.run idStep x1 reopened
  let _ ← idStep x pubackIn
  some (decide (Machine.Meets idStep (fun x c => Spaced x ∧ completes x.1 e c = false) x1 reopened),
    decide (Spaced x),
    completes x.1 e pubackIn)

/-- A message that is sent on two connections leaves the store at its PUBACK. -/
theorem completed_once_reopened : ∃ x0 x1 x y e, Stores x0 x1 RecEnv.good.alloc argsQos1 e ∧
    Machine.run idStep x1 reopened = some x ∧ idStep x pubackIn = some y ∧
      (∀ e' ∈ y.1.m.msgsOut.inflight, e'.uid ≠ e.uid) ∧ y.1.m.fired = e.mid :: x.1.m.fired := by
  have hr : (Machine.run idStep (idInit none true) ((established []).map .act)).bind untilPuback =
      some (true, true, true) := by decide
  obtain ⟨x0, hx0, h⟩ := Option.bind_eq_some_iff.mp hr
  obtain ⟨e, he, h⟩ := Option.bind_eq_some_iff.mp h
  obtain ⟨x1, hx1, h⟩ := Option.bind_eq_some_iff.mp h
  obtain ⟨x, hx, h⟩ := Option.bind_eq_some_iff.mp h
  obtain ⟨y, hy, h⟩ := Option.bind_eq_some_iff.mp h
  simp only [Option.some.injEq, Prod.mk.injEq, decide_eq_true_eq] at h
  have hstores : Stores x0 x1 RecEnv.good.alloc argsQos1 e := by
    refine ⟨hx1, ?_⟩
    rcases storedNow_cases x0.1 publishesQos1 with hs | ⟨e', hs, -⟩
    · simp [hs] at he
    · rw [hs, List.head?_cons, Option.some.injEq] at he
      exact he ▸ hs
  have h0 : Machine.Reach idStep (· = idInit none true) Machine.anyAct x0 :=
    Machine.reach_of_run (.init rfl) (Machine.meets_any _ _) hx0
  have hreach : Machine.Reach idStep (· = x1) (fun x c => Spaced x ∧ completes x.1 e c = false) x :=
    Machine.reach_of_run (.init rfl) h.1 hx
  obtain ⟨-, -, -, -, -, -, -, -, hdone⟩ := completed_once h0 hstores hreach h.2.1 hy
  exact ⟨x0, x1, x, y, e, hstores, hx, hy, hdone h.2.2⟩

end Artemisia.Threads
