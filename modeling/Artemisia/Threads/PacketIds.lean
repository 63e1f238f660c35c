/-
  Artemisia.Threads.PacketIds — are the packet ids of the messages out distinct?

  `mosquitto__mid_generate` counts to 65535 and starts again at 1, whatever is still outstanding. Publish calls of
  QoS 0, subscribe and unsubscribe calls count as well.

  Proved:
  - `idOf_eq_iff`:     two draws give one packet id exactly when they are a multiple of 65535 apart.
  - `counted_step`:    every message out, and every PUBLISH of QoS 0 that waits to be written, has the id of
                       its draw.
  - `distinct_iff`:    over a run the ids are distinct exactly when no id is drawn for a message a
                       multiple of 65535 draws after that of one that is still there.
  - `wrapped_clashes`: one message stays unacknowledged for 65535 draws, and a second one has its id.
-/
import Artemisia.Client.Refused
import Artemisia.Threads.Calls

namespace Artemisia.Threads

open Artemisia.Property Artemisia.Client

/-! ## Draws -/

/-- The packet id of the draw with this number; 0 before the first. -/
def idOf (n : Nat) : UInt16 := if n = 0 then 0 else UInt16.ofNat ((n - 1) % 65535 + 1)

theorem idOf_toNat (n : Nat) : (idOf n).toNat = if n = 0 then 0 else (n - 1) % 65535 + 1 := by
  unfold idOf
  split
  · rfl
  · rw [UInt16.toNat_ofNat']
    omega

theorem idOf_ne_zero {n : Nat} (h : 0 < n) : idOf n ≠ 0 := by
  intro h0
  have := congrArg UInt16.toNat h0
  rw [idOf_toNat, if_neg (by omega)] at this
  simp at this

theorem midGenerate_toNat (m : Mosq) :
    (midGenerate m).2.toNat = if m.lastMid.toNat = 65535 then 1 else m.lastMid.toNat + 1 := by
  have hlt := m.lastMid.toNat_lt
  have hsum : (m.lastMid + 1).toNat = (m.lastMid.toNat + 1) % 65536 := UInt16.toNat_add ..
  have hzero : m.lastMid + 1 = 0 ↔ m.lastMid.toNat = 65535 := by
    rw [← UInt16.toNat_inj, hsum]
    simp
    omega
  unfold midGenerate
  dsimp only
  by_cases h : m.lastMid.toNat = 65535
  · rw [if_pos h, if_pos (hzero.mpr h), hzero.mpr h]
    rfl
  · rw [if_neg h, if_neg (fun e => h (hzero.mp e)), hsum]
    omega

theorem midGenerate_idOf {m : Mosq} {n : Nat} (h : m.lastMid = idOf n) : (midGenerate m).2 = idOf (n + 1) := by
  rw [← UInt16.toNat_inj, midGenerate_toNat, h, idOf_toNat, idOf_toNat, if_neg (Nat.succ_ne_zero n)]
  by_cases hn : n = 0
  · simp [hn]
  · rw [if_neg hn]
    split
    · omega
    · omega

theorem midGenerate_ne (m : Mosq) : (midGenerate m).2 ≠ m.lastMid := by
  intro h
  have := congrArg UInt16.toNat h
  rw [midGenerate_toNat] at this
  split at this
  · omega
  · omega

/-- Two draws give one packet id exactly when they are a multiple of 65535 apart. -/
theorem idOf_eq_iff {a b : Nat} (ha : 0 < a) (hab : a ≤ b) : idOf a = idOf b ↔ 65535 ∣ b - a := by
  rw [← UInt16.toNat_inj, idOf_toNat, idOf_toNat, if_neg (by omega), if_neg (by omega)]
  omega

/-! ## A run with its draws -/

/-- What is counted in a run: the packet ids drawn, the draw of each message by its number, whether an id
    drawn for a message was that of one still out, and the packets to be written, each with how many ids had been
    drawn when it was queued. -/
structure Ids where
  generated : Nat
  born : Nat → Nat
  clash : Bool
  waiting : List (Packet × Nat)

def Ids.none : Ids := ⟨0, fun _ => 0, false, []⟩

def drawnBy (s s' : Sys) (n : Nat) : Nat := if s'.m.lastMid = s.m.lastMid then n else n + 1

def noteIds (s : Sys) (c : Call) (s' : Sys) (r : Ids) : Ids where
  generated := drawnBy s s' r.generated
  born := fun uid => if (storedNow s c).any (·.uid = uid) then drawnBy s s' r.generated else r.born uid
  clash := r.clash || (storedNow s c).any fun e => s.m.msgsOut.inflight.any (·.mid = e.mid)
  waiting :=
    if (unwritten s'.m).length ≤ (unwritten s.m).length then
      r.waiting.drop ((unwritten s.m).length - (unwritten s'.m).length)
    else r.waiting ++ ((unwritten s'.m).drop (unwritten s.m).length).map (·, drawnBy s s' r.generated)

/-- The threads and the calls, with the draws beside them. -/
abbrev idStep : Sys × Ids → Call → Option (Sys × Ids) := Machine.recorded callStep noteIds

def idInit (id : Option Bytes) (cleanStart : Bool) : Sys × Ids := (Sys.init id cleanStart, Ids.none)

/-- The packet ids of the messages out are distinct and not 0, and none was drawn for a message while it was
    in use. -/
structure Distinct (x : Sys × Ids) : Prop where
  nonzero : ∀ e ∈ x.1.m.msgsOut.inflight, e.mid ≠ 0
  nodup : (x.1.m.msgsOut.inflight.map Message.mid).Nodup
  fresh : x.2.clash = false

/-- No id is drawn for a message a multiple of 65535 draws after that of a message that is still out. -/
def Apart (x : Sys × Ids) (c : Call) : Prop :=
  storedNow x.1 c ≠ [] → ∀ e ∈ x.1.m.msgsOut.inflight, ¬ 65535 ∣ x.2.generated + 1 - x.2.born e.uid

/-! ## What is counted -/

/-- Every message out has the id of its draw, and they are drawn in the order of the store; so has every
    PUBLISH that waits to be written and is complete then, and its draw is not that of a message out. -/
structure Counted (x : Sys × Ids) : Prop where
  store : StoreOk x.1.m.msgsOut.inflight
  uids : UidsBelow x.1.m.published x.1.m.contents
  counter : x.1.m.lastMid = idOf x.2.generated
  ids : ∀ e ∈ x.1.m.contents, e.mid = idOf (x.2.born e.uid) ∧ 0 < x.2.born e.uid ∧ x.2.born e.uid ≤ x.2.generated
  inOrder : (x.1.m.contents.map fun e => x.2.born e.uid).Pairwise (· < ·)
  waiting : x.2.waiting.map Prod.fst = unwritten x.1.m
  waits : ∀ w ∈ x.2.waiting, w.2 ≤ x.2.generated ∧ ∀ mid, w.1.completes = some mid →
    mid = idOf w.2 ∧ 0 < w.2 ∧ ∀ e ∈ x.1.m.contents, x.2.born e.uid ≠ w.2

section Steps

variable {s s' : Sys} {c : Call}

/-- A step stores one message at most, with the next number and the id that is drawn. -/
theorem storedNow_cases (s : Sys) (c : Call) : storedNow s c = [] ∨
    ∃ e, storedNow s c = [e] ∧ e.said = e ∧ e.uid = s.m.published ∧ e.mid = (midGenerate s.m).2 := by
  cases c with
  | act a =>
    cases a with
    | publish alloc a =>
      simp only [storedNow, stored]
      split
      · exact .inr ⟨_, rfl, rfl, rfl, rfl⟩
      · exact .inl rfl
    | _ => exact .inl rfl
  | _ => exact .inl rfl

theorem drawnBy_same {n : Nat} (h : s'.m.lastMid = s.m.lastMid) : drawnBy s s' n = n := if_pos h

theorem drawnBy_drawn {n : Nat} (h : s'.m.lastMid = (midGenerate s.m).2) : drawnBy s s' n = n + 1 :=
  if_neg (h ▸ midGenerate_ne s.m)

theorem le_drawnBy (n : Nat) : n ≤ drawnBy s s' n := by
  unfold drawnBy
  split
  · exact Nat.le_refl n
  · exact Nat.le_succ n

theorem call_uids (h : callStep s c = some s') (hn : UidsBelow s.m.published s.m.contents) :
    UidsBelow s'.m.published s'.m.contents := by
  have hmap (m : Mosq) : m.contents.map Message.uid = m.msgsOut.inflight.map Message.uid := by
    rw [Mosq.contents, List.map_map]
    rfl
  rcases call_cases h with ⟨a, rfl, hm⟩ | ⟨-, -, hasks | ⟨p, -, hasks⟩, -⟩
  · exact (step_uids hm (hn.of_uids (hmap s.m).symm)).of_uids (hmap s'.m)
  · rw [hasks]
    exact hn
  · rw [hasks]
    exact hn

theorem mem_without {o : Option UInt16} {l : List Message} {e : Message} (h : e ∈ without o l) : e ∈ l := by
  cases o with
  | none => exact h
  | some mid => exact List.mem_of_mem_eraseP h

theorem without_sublist (o : Option UInt16) (l : List Message) : (without o l).Sublist l := by
  cases o with
  | none => exact List.Sublist.refl l
  | some mid => exact List.eraseP_sublist

/-- The draws of the messages that stay are what they were. -/
theorem born_old {r : Ids} {e : Message} (h : e.uid < s.m.published) :
    (noteIds s c s' r).born e.uid = r.born e.uid := by
  show (if _ then _ else _) = _
  rcases storedNow_cases s c with hs | ⟨e', hs, -, hu, -⟩
  · rw [hs]
    rfl
  · have : ¬ e'.uid = e.uid := by omega
    rw [hs]
    simp [this]

theorem born_new {r : Ids} {e : Message} (h : storedNow s c = [e]) :
    (noteIds s c s' r).born e.uid = drawnBy s s' r.generated := by
  show (if _ then _ else _) = _
  rw [h]
  simp

/-- What the record says of the messages out after a step. -/
theorem counted_contents {r : Ids} (hi : Counted (s, r)) (h : callStep s c = some s') :
    s'.m.lastMid = idOf (noteIds s c s' r).generated ∧
    (∀ e ∈ s'.m.contents, e.mid = idOf ((noteIds s c s' r).born e.uid) ∧ 0 < (noteIds s c s' r).born e.uid ∧
      (noteIds s c s' r).born e.uid ≤ (noteIds s c s' r).generated ∧
      (e ∈ without (ackedNow s c) s.m.contents ∧ (noteIds s c s' r).born e.uid = r.born e.uid ∨
        storedNow s c ≠ [] ∧ (noteIds s c s' r).born e.uid = r.generated + 1)) ∧
    (s'.m.contents.map fun e => (noteIds s c s' r).born e.uid).Pairwise (· < ·) := by
  have hch := call_changes hi.store h
  have hcont := changes_contents hch
  have hcount : s'.m.lastMid = idOf (drawnBy s s' r.generated) := by
    rcases changes_drawn hch with ⟨hl, -⟩ | hl
    · rw [drawnBy_same hl, hl]
      exact hi.counter
    · rw [drawnBy_drawn hl, hl]
      exact midGenerate_idOf hi.counter
  have hold (e : Message) (he : e ∈ without (ackedNow s c) s.m.contents) :
      (noteIds s c s' r).born e.uid = r.born e.uid := born_old (hi.uids.below e (mem_without he))
  have hin : ((without (ackedNow s c) s.m.contents).map fun e => (noteIds s c s' r).born e.uid).Pairwise
      (· < ·) := by
    rw [List.map_congr_left hold]
    exact hi.inOrder.sublist ((without_sublist _ _).map _)
  refine ⟨hcount, ?_, ?_⟩
  · intro e he
    rw [hcont] at he
    rcases List.mem_append.mp he with he | he
    · obtain ⟨hid, hpos, hle⟩ := hi.ids e (mem_without he)
      rw [hold e he]
      exact ⟨hid, hpos, hle.trans (le_drawnBy _), .inl ⟨he, rfl⟩⟩
    · rcases storedNow_cases s c with hs | ⟨e', hs, hsaid, hu, hmid⟩
      · rw [hs] at he
        cases he
      · rw [hs, List.map_singleton, List.mem_singleton, hsaid] at he
        subst he
        rcases changes_drawn hch with ⟨-, hnone⟩ | hl
        · rw [hs] at hnone
          cases hnone
        · rw [born_new hs, drawnBy_drawn hl, hmid]
          refine ⟨midGenerate_idOf hi.counter, Nat.succ_pos _, ?_, .inr ⟨by simp [hs], rfl⟩⟩
          exact (drawnBy_drawn hl).ge
  · rw [hcont, List.map_append, List.pairwise_append]
    rcases storedNow_cases s c with hs | ⟨e', hs, hsaid, hu, hmid⟩
    · rw [hs]
      exact ⟨hin, .nil, by simp⟩
    · rw [hs, List.map_singleton, hsaid]
      refine ⟨hin, List.pairwise_singleton .., ?_⟩
      intro a ha b hb
      obtain ⟨e, he, rfl⟩ := List.mem_map.mp ha
      rw [List.map_singleton, List.mem_singleton] at hb
      rcases changes_drawn hch with ⟨-, hnone⟩ | hl
      · rw [hs] at hnone
        cases hnone
      · rw [hb, born_new hs, drawnBy_drawn hl, hold e he]
        exact Nat.lt_succ_of_le (hi.ids e (mem_without he)).2.2

/-- What is taken from the queue leaves the record. -/
theorem waiting_taken {r : Ids} {k : Nat} (hw : r.waiting.map Prod.fst = unwritten s.m)
    (h : unwritten s'.m = (unwritten s.m).drop k) : ∃ j, (noteIds s c s' r).waiting = r.waiting.drop j ∧
      (noteIds s c s' r).waiting.map Prod.fst = unwritten s'.m := by
  have hlen : (unwritten s'.m).length = (unwritten s.m).length - k := by rw [h, List.length_drop]
  have hnote : (noteIds s c s' r).waiting = r.waiting.drop ((unwritten s.m).length - (unwritten s'.m).length) :=
    if_pos (by omega)
  refine ⟨_, hnote, ?_⟩
  rw [hnote, List.map_drop, hw, h]
  by_cases hk : k ≤ (unwritten s.m).length
  · rw [List.length_drop, Nat.sub_sub_self hk]
  · rw [List.drop_eq_nil_of_le (by omega : (unwritten s.m).length ≤ k), List.length_nil, Nat.sub_zero,
      List.drop_length]

/-- What comes to the end of the queue is recorded with the number of draws. -/
theorem waiting_queued {r : Ids} {l : List Packet} (h : unwritten s'.m = unwritten s.m ++ l) :
    (noteIds s c s' r).waiting = r.waiting ++ l.map (·, drawnBy s s' r.generated) := by
  show (if _ then _ else _) = _
  rw [h, List.length_append]
  cases l with
  | nil => simp
  | cons p l => rw [if_neg (by simp), List.drop_left]

theorem counted_waiting {r : Ids} (hi : Counted (s, r)) (h : callStep s c = some s') :
    (noteIds s c s' r).waiting.map Prod.fst = unwritten s'.m ∧
    ∀ w ∈ (noteIds s c s' r).waiting, w.2 ≤ (noteIds s c s' r).generated ∧ ∀ mid, w.1.completes = some mid →
      mid = idOf w.2 ∧ 0 < w.2 ∧ ∀ e ∈ s'.m.contents, (noteIds s c s' r).born e.uid ≠ w.2 := by
  have hch := call_changes hi.store h
  obtain ⟨hcount, hborn, -⟩ := counted_contents hi h
  have hold (w : Packet × Nat) (hw : w ∈ r.waiting) : w.2 ≤ (noteIds s c s' r).generated ∧
      ∀ mid, w.1.completes = some mid →
      mid = idOf w.2 ∧ 0 < w.2 ∧ ∀ e ∈ s'.m.contents, (noteIds s c s' r).born e.uid ≠ w.2 := by
    obtain ⟨hle, hmid⟩ := hi.waits w hw
    refine ⟨hle.trans (le_drawnBy _), fun mid hc => ?_⟩
    obtain ⟨hid, hpos, hne⟩ := hmid mid hc
    refine ⟨hid, hpos, fun e he => ?_⟩
    obtain ⟨-, -, -, ⟨hmem, hb⟩ | ⟨-, hb⟩⟩ := hborn e he
    · rw [hb]
      exact hne e (mem_without hmem)
    · rw [hb]
      exact Nat.ne_of_gt (Nat.lt_succ_of_le hle)
  rcases changes_queue hch with ⟨k, f, -, hq, -, -⟩ | ⟨l, hq, -, hp⟩
  · obtain ⟨j, hj, hmap⟩ := waiting_taken hi.waiting hq
    refine ⟨hmap, fun w hw => ?_⟩
    rw [hj] at hw
    exact hold w (List.mem_of_mem_drop hw)
  · have hnote := waiting_queued (c := c) (r := r) hq
    refine ⟨?_, fun w hw => ?_⟩
    · rw [hnote, List.map_append, hi.waiting, hq, List.map_map]
      exact congrArg (unwritten s.m ++ ·) (List.map_id l)
    · rw [hnote] at hw
      rcases List.mem_append.mp hw with hw | hw
      · exact hold w hw
      · -- a PUBLISH of the call itself: its packet id has just been drawn, and it is not stored
        obtain ⟨p, hmem, rfl⟩ := List.mem_map.mp hw
        refine ⟨Nat.le_refl _, fun mid hc => ?_⟩
        obtain ⟨hmid, hl, hs⟩ := hp p hmem mid hc
        have hd : drawnBy s s' r.generated = r.generated + 1 := drawnBy_drawn (hl.trans hmid)
        refine ⟨?_, ?_, fun e he => ?_⟩
        · rw [← hl]
          exact hcount
        · show 0 < drawnBy s s' r.generated
          omega
        · show _ ≠ drawnBy s s' r.generated
          obtain ⟨-, -, -, ⟨hmem, hb⟩ | ⟨hne, -⟩⟩ := hborn e he
          · have := (hi.ids e (mem_without hmem)).2.2
            rw [hb, hd]
            dsimp only at this
            omega
          · exact absurd hs hne

theorem counted_step {x y : Sys × Ids} (hi : Counted x) (h : idStep x c = some y) : Counted y := by
  obtain ⟨s, r⟩ := x
  obtain ⟨s', r'⟩ := y
  obtain ⟨hs, hr⟩ := Machine.recorded_some.mp h
  dsimp only at hs hr
  subst hr
  obtain ⟨hcount, hborn, hin⟩ := counted_contents hi hs
  obtain ⟨hmap, hwaits⟩ := counted_waiting hi hs
  refine ⟨call_store hi.store hs, call_uids hs hi.uids, hcount, fun e he => ?_, hin, hmap, hwaits⟩
  obtain ⟨hid, hpos, hle, -⟩ := hborn e he
  exact ⟨hid, hpos, hle⟩

theorem init_counted (id : Option Bytes) (cleanStart : Bool) : Counted (idInit id cleanStart) :=
  ⟨StoreOk.nil, uidsBelow_nil _, rfl, fun e he => (by cases he), .nil, rfl, fun w hw => (by cases hw)⟩

end Steps

/-! ## Distinct ids -/

theorem mids_contents (m : Mosq) : m.msgsOut.inflight.map Message.mid = m.contents.map Message.mid := by
  rw [Mosq.contents, List.map_map]
  rfl

theorem Counted.mid {x : Sys × Ids} (hi : Counted x) {e : Message} (he : e ∈ x.1.m.msgsOut.inflight) :
    e.mid = idOf (x.2.born e.uid) ∧ 0 < x.2.born e.uid ∧ x.2.born e.uid ≤ x.2.generated :=
  hi.ids e.said (List.mem_map_of_mem he)

/-- An id that is drawn is that of a message out exactly when the draws are a multiple of 65535 apart. -/
theorem drawn_taken_iff {x : Sys × Ids} (hi : Counted x) {e : Message} (he : e ∈ x.1.m.msgsOut.inflight) :
    e.mid = (midGenerate x.1.m).2 ↔ 65535 ∣ x.2.generated + 1 - x.2.born e.uid := by
  obtain ⟨hid, hpos, hle⟩ := hi.mid he
  rw [hid, midGenerate_idOf hi.counter]
  exact idOf_eq_iff hpos (hle.trans (Nat.le_succ _))

theorem distinct_step {x y : Sys × Ids} {c : Call} (hi : Counted x) (hp : Distinct x) (h : idStep x c = some y) :
    Distinct y ↔ Apart x c := by
  have hy := counted_step hi h
  obtain ⟨s, r⟩ := x
  obtain ⟨s', r'⟩ := y
  obtain ⟨hs, hr⟩ := Machine.recorded_some.mp h
  dsimp only at hs hr
  subst hr
  have hcont := changes_contents (call_changes hi.store hs)
  have hnonzero : ∀ e ∈ s'.m.msgsOut.inflight, e.mid ≠ 0 := by
    intro e he
    obtain ⟨hid, hpos, -⟩ := hy.mid he
    rw [hid]
    exact idOf_ne_zero hpos
  have hkept : ((without (ackedNow s c) s.m.contents).map Message.mid).Nodup := by
    have hnd := hp.nodup
    rw [mids_contents] at hnd
    exact hnd.sublist ((without_sublist _ _).map _)
  rcases storedNow_cases s c with hst | ⟨e', hst, hsaid, -, hmid⟩
  · -- nothing is stored
    refine ⟨fun _ hne => absurd hst hne, fun _ => ⟨hnonzero, ?_, ?_⟩⟩
    · rw [hst, List.map_nil, List.append_nil] at hcont
      rw [mids_contents, hcont]
      exact hkept
    · show (r.clash || _) = false
      rw [hst, show r.clash = false from hp.fresh]
      rfl
  · have hfresh : (noteIds s c s' r).clash = false ↔ ∀ e ∈ s.m.msgsOut.inflight, e.mid ≠ (midGenerate s.m).2 := by
      show (r.clash || _) = false ↔ _
      rw [hst, show r.clash = false from hp.fresh, hmid.symm]
      simp
    have hapart : Apart (s, r) c ↔ ∀ e ∈ s.m.msgsOut.inflight, e.mid ≠ (midGenerate s.m).2 := by
      constructor
      · intro ha e he heq
        exact ha (by simp [hst]) e he ((drawn_taken_iff hi he).mp heq)
      · intro ha _ e he hdvd
        exact ha e he ((drawn_taken_iff hi he).mpr hdvd)
    rw [hapart, ← hfresh]
    refine ⟨fun hd => hd.fresh, fun hclash => ⟨hnonzero, ?_, hclash⟩⟩
    rw [mids_contents, hcont, hst, List.map_singleton, hsaid, List.map_append, List.nodup_append]
    refine ⟨hkept, by simp, ?_⟩
    intro a ha b hb heq
    rw [List.map_singleton, List.mem_singleton] at hb
    obtain ⟨e, he, rfl⟩ := List.mem_map.mp ha
    obtain ⟨e0, he0, rfl⟩ := List.mem_map.mp (mem_without he)
    exact hfresh.mp hclash e0 he0 (heq.trans (hb.trans hmid))

/-- Over a run the packet ids are distinct throughout exactly when the draws for messages are apart. -/
theorem distinct_iff (id : Option Bytes) (cleanStart : Bool) (cs : List Call) :
    Machine.Along idStep Distinct (idInit id cleanStart) cs ↔
    Machine.Meets idStep Apart (idInit id cleanStart) cs :=
  Machine.along_iff_meets (J := Counted) (fun _ _ _ hi h => counted_step hi h) (fun _ _ _ hi hp h =>
    distinct_step hi hp h)
    cs (init_counted id cleanStart) ⟨fun e he => (by cases he), .nil, rfl⟩

/-! ## An id that is drawn again -/

def argsQos0 : PublishArgs :=
  { topic := some (.of [116]), payload := [], qos := 0, retain := false, properties := [],
    clientGenerated := false }

def publishesQos0 : Call := .act (.publish RecEnv.good.alloc argsQos0)

/-- A client without a socket after `n` publish calls of QoS 0: each draws a packet id, and its message is
    not sent. -/
def drewQos0 : Nat → Sys → Sys
  | 0, s => s
  | n + 1, s => drewQos0 n (s.upd (drawn s.m))

/-- Such a client takes the call, and has nowhere to send the message. -/
structure Offline (s : Sys) : Prop where
  idle : s.queue = .idle
  sock : s.m.sock = none
  passes : publishChecks s.m argsQos0 = .success

theorem offline_step {s : Sys} (h : Offline s) :
    callStep s publishesQos0 = some (s.upd (drawn s.m)) ∧ Offline (s.upd (drawn s.m)) := by
  refine ⟨?_, ⟨h.idle, h.sock, h.passes⟩⟩
  have hpub : (mosquittoPublishV5 RecEnv.good.alloc s.m argsQos0).1 = drawn s.m := by
    unfold mosquittoPublishV5
    rw [h.passes]
    show (sendPublish RecEnv.good.alloc (drawn s.m) _).1 = drawn s.m
    unfold sendPublish
    rw [if_pos (show (drawn s.m).sock = none from h.sock)]
  have hreturns : (mosquittoPublishV5 RecEnv.good.alloc s.m argsQos0).2 ≠ .aborted := by
    unfold mosquittoPublishV5
    rw [h.passes]
    show (sendPublish RecEnv.good.alloc (drawn s.m) _).2 ≠ .aborted
    unfold sendPublish
    rw [if_pos (show (drawn s.m).sock = none from h.sock)]
    simp
  simp only [callStep, step, publishesQos0, h.idle, hpub, hreturns, if_false]

theorem offline_run (n : Nat) {s : Sys} (h : Offline s) :
    Machine.run callStep s (List.replicate n publishesQos0) = some (drewQos0 n s) ∧
      (drewQos0 n s).m.contents = s.m.contents ∧ Offline (drewQos0 n s) := by
  induction n generalizing s with
  | zero => exact ⟨rfl, rfl, h⟩
  | succ n ih =>
    obtain ⟨hs, ho⟩ := offline_step h
    obtain ⟨hr, hc, ho'⟩ := ih ho
    exact ⟨by rw [List.replicate_succ, Machine.run_cons hs, hr]; rfl, hc, ho'⟩

theorem lastMid_drewQos0 (n : Nat) {s : Sys} {k : Nat} (h : s.m.lastMid = idOf k) :
    (drewQos0 n s).m.lastMid = idOf (k + n) := by
  induction n generalizing s k with
  | zero => exact h
  | succ n ih =>
    have hd : (s.upd (drawn s.m)).m.lastMid = idOf (k + 1) := midGenerate_idOf h
    rw [drewQos0, ih hd]
    congr 1
    omega

theorem publishChecks_drewQos0 (n : Nat) {s : Sys} (a : PublishArgs) :
    publishChecks (drewQos0 n s).m a = publishChecks s.m a := by
  induction n generalizing s with
  | zero => rfl
  | succ n ih => exact ih

def argsQos1 : PublishArgs := { argsQos0 with qos := 1 }

def publishesQos1 : Call := .act (.publish RecEnv.good.alloc argsQos1)

/-- The message goes to the end of the store, with the id that is drawn. -/
theorem publishesQos1_stores {s : Sys} (ho : Offline s) (hc : publishChecks s.m argsQos1 = .success) :
    ∃ s', callStep s publishesQos1 = some s' ∧
      s'.m.contents.map Message.mid = s.m.contents.map Message.mid ++ [(midGenerate s.m).2] := by
  have hreturns : (mosquittoPublishV5 RecEnv.good.alloc s.m argsQos1).2 ≠ .aborted :=
    publish_returns _ _ _ (by decide) rfl (.inl ho.sock)
  refine ⟨s.upd (mosquittoPublishV5 RecEnv.good.alloc s.m argsQos1).1, ?_, ?_⟩
  · simp only [callStep, step, publishesQos1, ho.idle, hreturns, if_false]
  · have hcont : (mosquittoPublishV5 RecEnv.good.alloc s.m argsQos1).1.contents =
        s.m.contents ++ (storedNow s publishesQos1).map Message.said :=
      changes_contents (.publish RecEnv.good.alloc argsQos1 hreturns)
    have hst : storedNow s publishesQos1 = [messageOf s.m argsQos1 (midGenerate s.m).2] := if_pos ⟨hc, by decide⟩
    rw [upd_m, hcont, hst, List.map_append]
    rfl

/-- A message of QoS 1 is stored while there is no connection; then come 65534 publish calls of QoS 0, and another
    message is stored. -/
def wrapped : List Call := publishesQos1 :: (List.replicate 65534 publishesQos0 ++ [publishesQos1])

/-- Both have the packet id 1. -/
theorem wrapped_clashes : ¬ ∀ cs, Machine.Along idStep Distinct (idInit none true) cs := by
  intro h
  obtain ⟨s, hs, hoff, h1, hmids, hl⟩ : ∃ s, callStep (Sys.init none true) publishesQos1 = some s ∧ Offline s ∧
      publishChecks s.m argsQos1 = .success ∧ s.m.contents.map Message.mid = [1] ∧ s.m.lastMid = idOf 1 :=
    ⟨_, rfl, ⟨rfl, rfl, by decide⟩, by decide, by decide, by decide⟩
  obtain ⟨t, hrun, hcont, ht, hc, hmid⟩ :
      ∃ t, Machine.run callStep s (List.replicate 65534 publishesQos0) = some t ∧
      t.m.contents = s.m.contents ∧ Offline t ∧ publishChecks t.m argsQos1 = .success ∧
        (midGenerate t.m).2 = 1 := by
    obtain ⟨hr, hcont, ht⟩ := offline_run 65534 hoff
    refine ⟨_, hr, hcont, ht, (publishChecks_drewQos0 65534 argsQos1).trans h1, ?_⟩
    rw [midGenerate_idOf (lastMid_drewQos0 65534 hl)]
    decide
  obtain ⟨u, hu, hboth⟩ := publishesQos1_stores ht hc
  have hall : Machine.run callStep (Sys.init none true) wrapped = some u := by
    unfold wrapped
    rw [Machine.run_cons hs, Machine.run_append hrun, Machine.run_cons hu]
    rfl
  obtain ⟨r, hr⟩ := Machine.run_recorded noteIds Ids.none hall
  have hnd := ((h wrapped).last hr).nodup
  rw [mids_contents, hboth, hcont, hmids, hmid] at hnd
  simp at hnd

end Artemisia.Threads
