/-
  Artemisia.Threads.Delivered — does the server get each message of QoS 2 once?

  The server receives as a client does: it stores a PUBLISH unless it stores one with its packet id, and
  answers PUBREC; at a PUBREL it hands on what it stores, and answers PUBCOMP. It accepts what it is sent. What is
  on its way keeps its order, and may be lost in both directions at any time, with or without the connection.

  `given` is what the server has handed on, `sent` the messages of QoS 2 that publish calls have stored.

  Proved:
  - `upStep_delivers`:   a step that meets `Careful` keeps each packet id's handshake with the server in order.
  - `delivered_once`:    so over a run the server hands nothing on twice, and a message that has left the
                         store has been handed on.
-/
import Artemisia.Threads.PacketIds
import Artemisia.Threads.Upstream
import Mathlib.Logic.Function.Basic

namespace Artemisia.Threads

open Artemisia.Property Artemisia.Client Handshake

/-! ## The client and the server -/

structure Upstream where
  /-- On its way to the server. -/
  wire : List (UInt16 × Item Told)
  /-- On its way to the client. -/
  acks : List (UInt16 × Letter)
  stored : UInt16 → List Told
  given : List Told
  sent : List Told

def Upstream.init : Upstream := ⟨[], [], fun _ => [], [], []⟩

inductive UpMove where
  | call (c : Call)
  /-- The server reads a packet. -/
  | serve
  /-- So many packets still arrive of those on their way to the server, and to the client. -/
  | cut (arrive back : Nat)

def isAnswer : InPacket → UInt16 × Letter → Bool
  | .pubrec (.ok mid) (.ok reason), (i, .got) => mid = i && reason < 0x80
  | .pubackcomp .pubcomp (.ok mid) (.ok _), (i, .done) => mid = i
  | _, _ => false

/-- What is left of the answers after a step; a PUBREC or a PUBCOMP is the first of them. -/
def acksAfter (acks : List (UInt16 × Letter)) : Call → Option (List (UInt16 × Letter))
  | .act (.loop (.packet p _ _)) =>
    if ofReceiver p then
      match acks with
      | [] => none
      | y :: rest => if isAnswer p y then some rest else none
    else some acks
  | _ => some acks

/-- The messages of QoS 2 that a step stores. -/
def toldNow (s : Sys) (c : Call) : List Told := ((storedNow s c).filter (·.qos = 2)).map toldOf

def noteUp (s : Sys) (c : Call) (acks : List (UInt16 × Letter)) (u : Upstream) : Upstream :=
  { u with wire := u.wire ++ handedUp s c, acks := acks, sent := toldNow s c ++ u.sent }

def serve (u : Upstream) : Option Upstream :=
  match u.wire with
  | [] => none
  | (mid, .pub t) :: rest => some { u with
      wire := rest, stored := Function.update u.stored mid (stores (u.stored mid) t), acks :=
        u.acks ++ [(mid, .got)] }
  | (mid, .rel) :: rest => some { u with
      wire := rest, stored := Function.update u.stored mid [], given := u.stored mid ++ u.given
      acks := u.acks ++ [(mid, .done)] }

def upStep (x : Sys × Upstream) : UpMove → Option (Sys × Upstream)
  | .call c => match callStep x.1 c, acksAfter x.2.acks c with
    | some s, some acks => some (s, noteUp x.1 c acks x.2)
    | _, _ => none
  | .serve => (serve x.2).map fun u => (x.1, u)
  | .cut arrive back => some (x.1, { x.2 with wire := x.2.wire.take arrive, acks := x.2.acks.take back })

def upInit (id : Option Bytes) (cleanStart : Bool) : Sys × Upstream := (Sys.init id cleanStart, .init)

/-! ## What is asked of a run -/

/-- No message out has the packet id, and nothing with it is on its way. -/
def FreeId (x : Sys × Upstream) (mid : UInt16) : Prop :=
  (∀ y ∈ slots x.1.m, y.mid ≠ mid) ∧ (∀ z ∈ x.2.wire, z.1 ≠ mid) ∧ ∀ z ∈ x.2.acks, z.1 ≠ mid

instance (x : Sys × Upstream) (mid : UInt16) : Decidable (FreeId x mid) := inferInstanceAs (Decidable (_ ∧ _))

/-- A message is stored under a free packet id, and a reset keeps what has been received. -/
def Careful (x : Sys × Upstream) : UpMove → Prop
  | .call c => keepsCall x.1 c = true ∧ ∀ e ∈ storedNow x.1 c, FreeId x e.mid
  | .serve | .cut .. => True

instance (x : Sys × Upstream) : (mv : UpMove) → Decidable (Careful x mv)
  | .call _ => inferInstanceAs (Decidable (_ ∧ _))
  | .serve | .cut .. => inferInstanceAs (Decidable True)

/-! ## The invariant -/

/-- What is on its way with this packet id. -/
def under {β : Type} (l : List (UInt16 × β)) (mid : UInt16) : List β := (l.filter (·.1 = mid)).map Prod.snd

def handOf (m : Mosq) (u : Upstream) (mid : UInt16) : Hand Told :=
  ⟨phaseAt (slots m) mid, under u.acks mid, under u.wire mid, u.stored mid⟩

structure Delivers (x : Sys × Upstream) : Prop where
  store : StoreOk x.1.m.msgsOut.inflight
  uids : UidsBelow x.1.m.published x.1.m.contents
  mids : ((slots x.1.m).map Slot.mid).Nodup
  hands : ∀ mid, Receipt x.2.given (handOf x.1.m x.2 mid)
  once : x.2.given.Nodup
  known : ∀ t ∈ x.2.given, t ∈ x.2.sent
  told : ∀ mid t, (phaseAt (slots x.1.m) mid).current = some t → t ∈ x.2.sent
  below : ∀ t ∈ x.2.sent, t.uid < x.1.m.published
  unique : (x.2.sent.map Told.uid).Nodup
  /-- What has left the store has been handed on. -/
  kept : ∀ t ∈ x.2.sent, t ∈ x.2.given ∨ ∃ mid, (phaseAt (slots x.1.m) mid).current = some t

section Under

variable {β : Type} {l l' : List (UInt16 × β)} {mid k : UInt16}

@[simp] theorem under_append (l l' : List (UInt16 × β)) (k : UInt16) :
    under (l ++ l') k = under l k ++ under l' k := by
  simp [under]

theorem under_cons_same (b : β) (l : List (UInt16 × β)) (mid : UInt16) :
    under ((mid, b) :: l) mid = b :: under l mid := by
  simp [under]

theorem under_cons_other (h : k ≠ mid) (b : β) (l : List (UInt16 × β)) : under ((mid, b) :: l) k = under l k := by
  simp [under, h.symm]

theorem under_sublist (h : l'.Sublist l) (k : UInt16) : (under l' k).Sublist (under l k) := (h.filter _).map _

theorem under_nil (h : ∀ z ∈ l, z.1 ≠ k) : under l k = [] := by
  simpa [under] using fun a b hz => h (a, b) hz

theorem mem_under {b : β} (h : b ∈ under l k) : (k, b) ∈ l := by
  obtain ⟨z, hz, rfl⟩ := List.mem_map.mp h
  obtain ⟨hz, hk⟩ := List.mem_filter.mp hz
  have hk : z.1 = k := by simpa using hk
  exact hk ▸ hz

end Under

/-! ## The server's moves -/

section Serving

variable {x : Sys × Upstream} {u : Upstream} {mid : UInt16} {rest : List (UInt16 × Item Told)}

theorem slot_uids (m : Mosq) : (slots m).map (fun y => y.told.uid) = m.contents.map Message.uid := by
  rw [slots, Mosq.contents, List.map_map, List.map_map]
  rfl

/-- A message is out under one packet id only. -/
theorem Delivers.one_id (h : Delivers x) {k : UInt16} {t : Told}
    (hm : (phaseAt (slots x.1.m) mid).current = some t)
    (hk : (phaseAt (slots x.1.m) k).current = some t) : k = mid := by
  obtain ⟨y, hy, rfl, -, hyt, -⟩ := phaseAt_current hm
  obtain ⟨z, hz, rfl, -, hzt, -⟩ := phaseAt_current hk
  have hnd : ((slots x.1.m).map fun y => y.told.uid).Nodup := by
    rw [slot_uids]
    exact h.uids.inOrder.imp Nat.ne_of_lt
  have hzy : z = y := List.inj_on_of_nodup_map hnd hz hy (by rw [hyt, hzt])
  rw [hzy]

theorem serve_pub {t : Told} (h : Delivers x) (hw : x.2.wire = (mid, .pub t) :: rest)
    (hu : u = { x.2 with wire := rest, stored := Function.update x.2.stored mid (stores (x.2.stored mid) t),
                         acks := x.2.acks ++ [(mid, .got)] }) : Delivers (x.1, u) := by
  subst hu
  refine ⟨h.store, h.uids, h.mids, fun k => ?_, h.once, h.known, h.told, h.below, h.unique, h.kept⟩
  have hr := h.hands k
  by_cases hk : k = mid
  · subst hk
    have hwire : under x.2.wire k = .pub t :: under rest k := by rw [hw, under_cons_same]
    have := hr.take hwire
    simpa [handOf, under_cons_same, under] using this
  · have hwire : under rest k = under x.2.wire k := by rw [hw, under_cons_other hk]
    have hacks : under (x.2.acks ++ [(mid, Letter.got)]) k = under x.2.acks k := by
      rw [under_append, under_cons_other hk]
      exact List.append_nil _
    simpa only [handOf, hwire, hacks, Function.update_of_ne hk] using hr

theorem serve_rel (h : Delivers x) (hw : x.2.wire = (mid, .rel) :: rest)
    (hu : u = { x.2 with wire := rest, stored := Function.update x.2.stored mid [],
                         given := x.2.stored mid ++ x.2.given
                         acks := x.2.acks ++ [(mid, .done)] }) : Delivers (x.1, u) := by
  subst hu
  have hmid := h.hands mid
  have hwire : under x.2.wire mid = .rel :: under rest mid := by rw [hw, under_cons_same]
  obtain ⟨hrel, hrec⟩ := hmid.release hwire
  -- what is stored is the message that the client is releasing
  have hcur : ∀ t ∈ x.2.stored mid, (phaseAt (slots x.1.m) mid).current = some t := by
    intro t ht
    have hp : phaseAt (slots x.1.m) mid = .released t := hrel t ht
    rw [hp]
    rfl
  refine ⟨h.store, h.uids, h.mids, fun k => ?_, ?_, ?_, h.told, h.below, h.unique, fun t ht => ?_⟩
  · by_cases hk : k = mid
    · subst hk
      simpa [handOf, under_cons_same, under] using hrec
    · have hwire : under rest k = under x.2.wire k := by rw [hw, under_cons_other hk]
      have hacks : under (x.2.acks ++ [(mid, Letter.done)]) k = under x.2.acks k := by
        rw [under_append, under_cons_other hk]
        exact List.append_nil _
      have := (h.hands k).grow (d := x.2.stored mid) fun t ht hkt => hk (h.one_id (hcur t ht) hkt)
      simpa only [handOf, hwire, hacks, Function.update_of_ne hk] using this
  · refine List.nodup_append.mpr ⟨?_, h.once, fun a ha b hb => ?_⟩
    · have hone : (x.2.stored mid).length ≤ 1 := hmid.inv.single
      rcases hst : x.2.stored mid with _ | ⟨a, _ | ⟨b, l⟩⟩
      · exact List.nodup_nil
      · exact List.nodup_singleton a
      · simp [hst] at hone
    · intro hab
      exact (hmid.inv.fresh b hb).2.2 (hab ▸ ha)
  · intro t ht
    rcases List.mem_append.mp ht with ht | ht
    · exact h.told mid t (hcur t ht)
    · exact h.known t ht
  · exact (h.kept t ht).imp_left (List.mem_append_right _)

theorem delivers_serve (h : Delivers x) (hs : serve x.2 = some u) : Delivers (x.1, u) := by
  unfold serve at hs
  split at hs
  · cases hs
  · rename_i mid t rest hw
    exact serve_pub h hw (Option.some.inj hs).symm
  · rename_i mid rest hw
    exact serve_rel h hw (Option.some.inj hs).symm

theorem delivers_cut (h : Delivers x) (arrive back : Nat) :
    Delivers (x.1, { x.2 with wire := x.2.wire.take arrive, acks := x.2.acks.take back }) := by
  refine ⟨h.store, h.uids, h.mids, fun k => (h.hands k).lose ⟨rfl, ?_, ?_, .refl _⟩ rfl, h.once, h.known,
    h.told, h.below,
    h.unique, h.kept⟩
  · exact under_sublist (List.take_sublist ..) k
  · exact under_sublist (List.take_sublist ..) k

end Serving

/-! ## The client's moves -/

section Calling

variable {x : Sys × Upstream} {s' : Sys} {c : Call} {acks : List (UInt16 × Letter)}

/-- A step reads no answer, or the first of those on their way. -/
theorem acksAfter_cases {l : List (UInt16 × Letter)} (h : acksAfter l c = some acks) :
    (quietCall c = true ∧ acks = l) ∨
    (∃ mid r again alloc, c = .act (.loop (.packet (.pubrec (.ok mid) (.ok r)) again alloc)) ∧ r < 0x80 ∧
      l = (mid, .got) :: acks) ∨
    ∃ mid r again alloc, c = .act (.loop (.packet (.pubackcomp .pubcomp (.ok mid) (.ok r)) again alloc)) ∧
      l = (mid, .done) :: acks := by
  unfold acksAfter at h
  split at h
  · rename_i p again alloc
    split at h
    · cases l with
      | nil => cases h
      | cons y rest =>
        simp only at h
        split at h
        · rename_i ha
          cases h
          unfold isAnswer at ha
          split at ha
          · rename_i mid r i _
            simp only [Bool.and_eq_true, decide_eq_true_eq] at ha
            exact .inr (.inl ⟨mid, r, again, alloc, rfl, ha.2, by rw [ha.1]⟩)
          · rename_i mid r i _
            simp only [decide_eq_true_eq] at ha
            exact .inr (.inr ⟨mid, r, again, alloc, rfl, by rw [ha]⟩)
          · cases ha
        · cases h
    · rename_i hp
      cases h
      exact .inl ⟨by simpa [quietCall] using hp, rfl⟩
  · rename_i hne
    cases h
    refine .inl ⟨?_, rfl⟩
    unfold quietCall
    split
    · rename_i p again alloc
      exact absurd rfl (hne p again alloc)
    · rfl

theorem published_call (h : callStep x.1 c = some s') :
    x.1.m.published + (storedNow x.1 c).length ≤ s'.m.published := by
  rcases call_cases h with ⟨a, rfl, hm⟩ | ⟨hne, -, hasks, -⟩
  · have hp : s'.m.published = x.1.m.published + publishesNow x.1 a :=
      congrArg Outflow.published (step_outflow hm)
    rw [hp]
    cases a with
    | publish alloc a =>
      simp only [storedNow, stored, publishesNow]
      split
      · rename_i hc
        rw [if_pos hc.1]
        exact Nat.le_refl _
      · exact Nat.le_add_right ..
    | _ => exact Nat.le_add_right ..
  · have hnone : storedNow x.1 c = [] := by
      cases c with
      | act a => exact absurd rfl (hne a)
      | _ => rfl
    rw [hnone]
    rcases hasks with hm | ⟨p, -, hm⟩
    · rw [hm]
      exact Nat.le_refl _
    · rw [hm]
      exact Nat.le_refl _

theorem toldNow_uid {t : Told} (h : t ∈ toldNow x.1 c) : t.uid = x.1.m.published ∧ toldNow x.1 c = [t] ∧
    0 < (storedNow x.1 c).length := by
  unfold toldNow at h ⊢
  rcases storedNow_cases x.1 c with hst | ⟨e, hst, -, hu, -⟩
  · simp [hst] at h
  · rw [hst, List.filter_cons] at h ⊢
    split at h
    · rename_i hq
      rw [if_pos hq]
      obtain rfl := List.mem_singleton.mp h
      exact ⟨hu, rfl, Nat.one_pos⟩
    · cases h

/-- What is left once the phases have moved: the packets that are handed over, and what is stored. -/
theorem delivers_noted (h : Delivers x) (hc : callStep x.1 c = some s')
    (hmids : ((slots s'.m).map Slot.mid).Nodup)
    (hhands : ∀ k, Receipt x.2.given ⟨phaseAt (slots s'.m) k, under acks k, under x.2.wire k, x.2.stored k⟩)
    (hspeaks : ∀ z ∈ handedUp x.1 c, (phaseAt (slots s'.m) z.1).speaks z.2)
    (htold : ∀ k t, (phaseAt (slots s'.m) k).current = some t → t ∈ toldNow x.1 c ++ x.2.sent)
    (hkept : ∀ t ∈ toldNow x.1 c ++ x.2.sent, t ∈ x.2.given ∨ ∃ k, (phaseAt (slots s'.m) k).current = some t) :
    Delivers (s', noteUp x.1 c acks x.2) := by
  have hpub := published_call hc
  refine ⟨call_store h.store hc, call_uids hc h.uids, hmids, fun k => ?_, h.once,
    fun t ht => List.mem_append_right _ (h.known t ht), htold, fun t ht => ?_, ?_, hkept⟩
  · have hsend : ∀ i ∈ under (handedUp x.1 c) k, (phaseAt (slots s'.m) k).speaks i := by
      intro i hi
      exact hspeaks (k, i) (mem_under hi)
    have := (hhands k).send hsend
    simpa only [handOf, noteUp, under_append] using this
  · rcases List.mem_append.mp ht with ht | ht
    · obtain ⟨hu, -, hlen⟩ := toldNow_uid ht
      show t.uid < s'.m.published
      omega
    · have := h.below t ht
      show t.uid < s'.m.published
      omega
  · show ((toldNow x.1 c ++ x.2.sent).map Told.uid).Nodup
    cases htn : toldNow x.1 c with
    | nil => exact h.unique
    | cons t l =>
      obtain ⟨hu, hone, -⟩ := toldNow_uid (x := x) (c := c) (t := t) (by rw [htn]; exact List.mem_cons_self ..)
      rw [htn] at hone
      obtain rfl : l = [] := (List.cons.inj hone).2
      refine List.nodup_cons.mpr ⟨fun hmem => ?_, h.unique⟩
      obtain ⟨t', ht', hu'⟩ := List.mem_map.mp hmem
      have := h.below t' ht'
      omega

theorem speaks_quiet (h : Delivers x) (hc : callStep x.1 c = some s') (hq : quietCall c = true)
    (hmids : ((slots s'.m).map Slot.mid).Nodup) :
    ∀ z ∈ handedUp x.1 c, (phaseAt (slots s'.m) z.1).speaks z.2 := by
  intro z hz
  cases c with
  | act a =>
    rcases List.mem_append.mp hz with hz | hz
    · exact speaks_handed (step_moves hc) h.store h.mids hmids hz
    · -- only a PUBREC is answered without a message
      cases a with
      | loop ev => cases ev with
        | packet p again alloc => cases p with
          | pubrec mid tail => cases hq
          | _ => cases hz
        | _ => cases hz
      | _ => cases hz
  | _ => cases hz

/-- What a step that stores a message makes of the phases. -/
theorem phase_stored {e : Message} {k : UInt16} (h : Delivers x) (hsm : SlotMoves x.1 c (slots s'.m))
    (hst : storedNow x.1 c = [e]) (hsaid : e.said = e) (hfree : ∀ y ∈ slots x.1.m, y.mid ≠ e.mid) :
    phaseAt (slots s'.m) k = if e.mid = k ∧ e.qos = 2 then .offered (toldOf e) else phaseAt (slots x.1.m) k := by
  have hnew : (slotOf e).phase = .offered (toldOf e) := by
    have hr : received e = false := by rw [← hsaid]; rfl
    simp only [Slot.phase, slotOf, hr]
    rfl
  rw [phase_after hsm h.mids k, hst, List.map_singleton, phaseAt_snoc (slotOf e) hfree, hnew]
  rfl

theorem delivers_stored {e : Message} (h : Delivers x) (hc : callStep x.1 c = some s') (hq : quietCall c = true)
    (hsm : SlotMoves x.1 c (slots s'.m)) (hst : storedNow x.1 c = [e]) (hsaid : e.said = e)
    (hu : e.uid = x.1.m.published)
    (hfree : FreeId x e.mid) : Delivers (s', noteUp x.1 c x.2.acks x.2) := by
  obtain ⟨hslots, hwire, hacks⟩ := hfree
  have hphase (k : UInt16) := phase_stored (k := k) h hsm hst hsaid hslots
  have hidle : phaseAt (slots x.1.m) e.mid = .idle := phaseAt_idle fun y hy hm => absurd hm (hslots y hy)
  have htn : toldNow x.1 c = if e.qos = 2 then [toldOf e] else [] := by
    by_cases hq : e.qos = 2 <;> simp [toldNow, hst, hq]
  have hmids : ((slots s'.m).map Slot.mid).Nodup := by
    refine List.Nodup.sublist hsm.mids ?_
    rw [hst, List.map_append]
    refine List.nodup_append.mpr ⟨h.mids, List.nodup_singleton _, fun a ha b hb => ?_⟩
    obtain ⟨y, hy, rfl⟩ := List.mem_map.mp ha
    rw [List.mem_singleton.mp hb]
    exact hslots y hy
  refine delivers_noted h hc hmids (fun k => ?_) (speaks_quiet h hc hq hmids) (fun k t ht => ?_) (fun t ht => ?_)
  · rw [hphase k]
    split
    · rename_i hk
      obtain ⟨rfl, -⟩ := hk
      have hr := h.hands e.mid
      have hnew : toldOf e ∉ x.2.given := fun hmem => by
        have := h.below _ (h.known _ hmem)
        rw [show (toldOf e).uid = e.uid from rfl] at this
        omega
      refine hr.publish hidle ?_ hnew
      rw [Hand.word, show (handOf x.1.m x.2 e.mid).acks = [] from under_nil hacks,
        show (handOf x.1.m x.2 e.mid).wire = [] from under_nil hwire]
      rfl
    · exact h.hands k
  · rw [hphase k] at ht
    split at ht
    · rename_i hk
      rw [htn, if_pos hk.2]
      cases ht
      exact List.mem_append_left _ (List.mem_singleton_self _)
    · exact List.mem_append_right _ (h.told k t ht)
  · rcases List.mem_append.mp ht with ht | ht
    · rw [htn] at ht
      split at ht
      · rename_i hq
        obtain rfl := List.mem_singleton.mp ht
        exact .inr ⟨e.mid, by rw [hphase, if_pos ⟨rfl, hq⟩]; rfl⟩
      · cases ht
    · refine (h.kept t ht).imp_right fun hk => ?_
      obtain ⟨k, hk⟩ := hk
      refine ⟨k, ?_⟩
      rw [hphase k, if_neg]
      · exact hk
      · intro hmid
        rw [← hmid.1, hidle] at hk
        cases hk

theorem delivers_quiet (h : Delivers x) (hc : callStep x.1 c = some s') (hg : Careful x (.call c))
    (hq : quietCall c = true) :
    Delivers (s', noteUp x.1 c x.2.acks x.2) := by
  have hsm := slots_call hc h.store hg.1 hq
  rcases storedNow_cases x.1 c with hst | ⟨e, hst, hsaid, hu, -⟩
  · have hphase (k : UInt16) : phaseAt (slots s'.m) k = phaseAt (slots x.1.m) k := by
      rw [phase_after hsm h.mids k, hst, List.map_nil, List.append_nil]
    have hmids : ((slots s'.m).map Slot.mid).Nodup := by
      refine List.Nodup.sublist hsm.mids ?_
      rw [hst, List.map_nil, List.append_nil]
      exact h.mids
    have htn : toldNow x.1 c = [] := by simp [toldNow, hst]
    refine delivers_noted h hc hmids (fun k => ?_) (speaks_quiet h hc hq hmids) (fun k t ht => ?_)
      (fun t ht => ?_)
    · rw [hphase k]
      exact h.hands k
    · rw [hphase k] at ht
      exact List.mem_append_right _ (h.told k t ht)
    · rw [htn] at ht
      refine (h.kept t ht).imp_right fun hk => ?_
      obtain ⟨k, hk⟩ := hk
      exact ⟨k, by rw [hphase k]; exact hk⟩
  · exact delivers_stored h hc hq hsm hst hsaid hu (hg.2 e (by rw [hst]; exact List.mem_singleton_self e))

/-- The client after it has handled a packet. -/
theorem read_client {p : InPacket} {again : Bool} {alloc : Alloc}
    (hc : callStep x.1 (.act (.loop (.packet p again alloc))) = some s') :
    Moves x.1 (.loop (.packet p again alloc)) s' ∧ s'.m = (handlePacket alloc x.1.m p).1 := by
  have hm : Moves x.1 (.loop (.packet p again alloc)) s' := step_moves hc
  refine ⟨hm, ?_⟩
  cases hm with
  | packet i n p again alloc hl hsock hst t ht => exact outflow_readMoves ht

/-- An answer is taken from those on their way; but for its packet id nothing changes. -/
theorem read_answer {mid : UInt16} {a : Letter} {ph : UInt16 → Phase Told} (h : Delivers x)
    (hacks : x.2.acks = (mid, a) :: acks)
    (hother : ∀ k, k ≠ mid → ph k = phaseAt (slots x.1.m) k)
    (hsame : ph mid = phaseAt (slots x.1.m) mid ∨
      Receipt x.2.given ⟨ph mid, under acks mid, under x.2.wire mid, x.2.stored mid⟩) (k : UInt16) :
    Receipt x.2.given ⟨ph k, under acks k, under x.2.wire k, x.2.stored k⟩ := by
  have hlose (k : UInt16) (hk : ph k = phaseAt (slots x.1.m) k) :
      Receipt x.2.given ⟨ph k, under acks k, under x.2.wire k, x.2.stored k⟩ := by
    refine (h.hands k).lose ⟨hk, ?_, .refl _, .refl _⟩ rfl
    show (under acks k).Sublist (under x.2.acks k)
    rw [hacks]
    exact under_sublist (List.sublist_cons_self ..) k
  by_cases hk : k = mid
  · subst hk
    exact hsame.elim (hlose k) id
  · exact hlose k (hother k hk)

theorem delivers_pubrec {mid : UInt16} {r : UInt8} {again : Bool} {alloc : Alloc} (h : Delivers x) (hr : r < 0x80)
    (hc : callStep x.1 (.act (.loop (.packet (.pubrec (.ok mid) (.ok r)) again alloc))) = some s')
    (hacks : x.2.acks = (mid, .got) :: acks) :
    Delivers (s', noteUp x.1 (.act (.loop (.packet (.pubrec (.ok mid) (.ok r)) again alloc))) acks x.2) := by
  obtain ⟨hm, hs'⟩ := read_client hc
  obtain ⟨hmids, hcases⟩ := phase_pubrec alloc again h.mids hr
  rw [← hs'] at hmids hcases
  have hunder : under x.2.acks mid = .got :: under acks mid := by rw [hacks, under_cons_same]
  have hnd : ((slots s'.m).map Slot.mid).Nodup := hmids ▸ h.mids
  rcases hcases with ⟨hphase, hor⟩ | ⟨t, hcur, hstray, hphase⟩
  · -- no PUBREC comes for a free packet id
    have hnone := hor.resolve_left fun hidle => (h.hands mid).not_got_of_idle hidle (by
      show Letter.got ∈ under x.2.acks mid
      rw [hunder]
      exact List.mem_cons_self ..)
    refine delivers_noted h hc hnd (read_answer h hacks (fun k _ => hphase k) (.inl (hphase mid)))
      (fun z hz => ?_)
      (fun k t ht => h.told k t (hphase k ▸ ht)) (fun t ht => ?_)
    · rw [hnone] at hz
      cases hz
    · exact (h.kept t ht).imp_right fun hk => hk.imp fun k hk => (hphase k).symm ▸ hk
  · refine delivers_noted h hc hnd (read_answer h hacks (fun k hk => by rw [hphase, if_neg hk]) ?_)
      (fun z hz => ?_)
      (fun k t' ht => ?_) (fun t' ht => ?_)
    · rw [hphase, if_pos rfl]
      have hhand := h.hands mid
      cases hp : phaseAt (slots x.1.m) mid with
      | idle =>
        rw [hp] at hcur
        cases hcur
      | offered t0 =>
        rw [hp] at hcur
        cases hcur
        exact .inr (hhand.got hp hunder)
      | released t0 =>
        rw [hp] at hcur
        cases hcur
        exact .inl rfl
    · rcases List.mem_append.mp hz with hz | hz
      · exact speaks_handed hm h.store h.mids hnd hz
      · exact absurd (hstray ▸ hz : z ∈ []) List.not_mem_nil
    · rw [hphase] at ht
      split at ht
      · cases ht
        exact h.told mid t hcur
      · exact h.told k t' ht
    · refine (h.kept t' ht).imp_right fun hk => ?_
      obtain ⟨k, hk⟩ := hk
      refine ⟨k, ?_⟩
      rw [hphase]
      split
      · rename_i hkm
        rw [hkm, hcur] at hk
        exact hk
      · exact hk

/-- A PUBCOMP takes out a message that the server has handed on. -/
theorem delivers_pubcomp {mid : UInt16} {r : UInt8} {again : Bool} {alloc : Alloc} (h : Delivers x)
    (hc : callStep x.1 (.act (.loop (.packet (.pubackcomp .pubcomp (.ok mid) (.ok r)) again alloc))) = some s')
    (hacks : x.2.acks = (mid, .done) :: acks) :
    Delivers (s', noteUp x.1 (.act (.loop (.packet (.pubackcomp .pubcomp (.ok mid) (.ok r)) again alloc)))
    acks x.2) := by
  obtain ⟨hm, hs'⟩ := read_client hc
  obtain ⟨hmids, hcases⟩ := phase_pubcomp alloc mid h.mids r
  rw [← hs'] at hmids hcases
  have hunder : under x.2.acks mid = .done :: under acks mid := by rw [hacks, under_cons_same]
  have hnd : ((slots s'.m).map Slot.mid).Nodup := h.mids.sublist hmids
  have hspeaks : ∀ z ∈ handedUp x.1 (.act (.loop (.packet (.pubackcomp .pubcomp (.ok mid) (.ok r)) again alloc))),
      (phaseAt (slots s'.m) z.1).speaks z.2 := by
    intro z hz
    rcases List.mem_append.mp hz with hz | hz
    · exact speaks_handed hm h.store h.mids hnd hz
    · cases hz
  rcases hcases with hphase | ⟨t, hcur, hphase⟩
  · refine delivers_noted h hc hnd (read_answer h hacks (fun k _ => hphase k) (.inl (hphase mid))) hspeaks
      (fun k t ht => h.told k t (hphase k ▸ ht)) (fun t ht => ?_)
    exact (h.kept t ht).imp_right fun hk => hk.imp fun k hk => (hphase k).symm ▸ hk
  · have hhand := h.hands mid
    -- it is for a message that is released
    have hrel : phaseAt (slots x.1.m) mid = .released t := by
      cases hp : phaseAt (slots x.1.m) mid with
      | idle =>
        rw [hp] at hcur
        cases hcur
      | offered t0 =>
        refine absurd ?_ (hhand.not_done_of_offered hp)
        show Letter.done ∈ under x.2.acks mid
        rw [hunder]
        exact List.mem_cons_self ..
      | released t0 =>
        rw [hp] at hcur
        cases hcur
        rfl
    obtain ⟨hgiven, hrec⟩ := hhand.done hrel hunder
    refine delivers_noted h hc hnd (read_answer h hacks (fun k hk => by rw [hphase, if_neg hk]) ?_) hspeaks
      (fun k t' ht => ?_) (fun t' ht => ?_)
    · rw [hphase, if_pos rfl]
      exact .inr hrec
    · rw [hphase] at ht
      split at ht
      · cases ht
      · exact h.told k t' ht
    · rcases h.kept t' ht with hmem | ⟨k, hk⟩
      · exact .inl hmem
      · by_cases hkm : k = mid
        · rw [hkm, hcur] at hk
          cases hk
          exact .inl hgiven
        · exact .inr ⟨k, by rw [hphase, if_neg hkm]; exact hk⟩

end Calling

/-! ## Runs -/

theorem upStep_delivers {x y : Sys × Upstream} {mv : UpMove} (h : Delivers x) (hg : Careful x mv)
    (hs : upStep x mv = some y) :
    Delivers y := by
  cases mv with
  | call c =>
    simp only [upStep] at hs
    split at hs
    · rename_i s' acks hc ha
      cases hs
      rcases acksAfter_cases ha with ⟨hq, rfl⟩ | ⟨mid, r, again, alloc, rfl, hr, hacks⟩ | ⟨mid, r, again,
          alloc, rfl, hacks⟩
      · exact delivers_quiet h hc hg hq
      · exact delivers_pubrec h hr hc hacks
      · exact delivers_pubcomp h hc hacks
    · cases hs
  | serve =>
    obtain ⟨u, hu, rfl⟩ := Option.map_eq_some_iff.mp hs
    exact delivers_serve h hu
  | cut arrive back =>
    cases hs
    exact delivers_cut h arrive back

theorem delivers_init (id : Option Bytes) (cleanStart : Bool) : Delivers (upInit id cleanStart) where
  store := StoreOk.nil
  uids := uidsBelow_nil _
  mids := List.nodup_nil
  hands _ := receipt_free
  once := List.nodup_nil
  known _ ht := by cases ht
  told _ _ ht := by cases ht
  below _ ht := by cases ht
  unique := List.nodup_nil
  kept _ ht := by cases ht

/-- The server hands on no message twice, and only what a publish call was given; and every message of QoS 2
    that has been stored is out still, or has been handed on. -/
theorem delivered_once {x : Sys × Upstream} {id : Option Bytes} {cleanStart : Bool}
    (h : Machine.Reach upStep (· = upInit id cleanStart) Careful x) :
    (x.2.given.map Told.uid).Nodup ∧ (∀ t ∈ x.2.given, t ∈ x.2.sent) ∧
      ∀ t ∈ x.2.sent, t ∈ x.2.given ∨ ∃ e ∈ x.1.m.msgsOut.inflight, e.qos = 2 ∧ toldOf e = t := by
  have hd : Delivers x := h.inv (fun _ hx => hx ▸ delivers_init id cleanStart) fun _ _ _ hi hg hs =>
      upStep_delivers hi hg hs
  refine ⟨?_, hd.known, fun t ht => (hd.kept t ht).imp_right fun hk => ?_⟩
  · refine List.Nodup.map_on (fun a ha b hb hab => ?_) hd.once
    exact List.inj_on_of_nodup_map hd.unique (hd.known a ha) (hd.known b hb) hab
  · obtain ⟨k, hk⟩ := hk
    obtain ⟨y, hy, -, hq, hyt, -⟩ := phaseAt_current hk
    obtain ⟨e, he, rfl⟩ := List.mem_map.mp hy
    exact ⟨e, he, hq, hyt⟩

/-- A message is published and stored by the server; its PUBREC is lost with the connection. On the next one it is
    published again, received, released and completed. -/
def publishedTwice : List UpMove :=
  ((established (receiveMaximum 5) ++ [publishesQos2]).map fun a => .call (.act a)) ++ [.serve, .cut 0 0] ++
    ((reopens 5 ++ [tick] ++ idles).map fun a => .call (.act a)) ++ [.serve] ++
    ((reads (.pubrec (.ok 1) (.ok 0)) ++ idles).map fun a => .call (.act a)) ++ [.serve] ++
    (reads (.pubackcomp .pubcomp (.ok 1) (.ok 0)) ++ idles).map fun a => .call (.act a)

set_option maxRecDepth 2000 in
/-- The server has the message once, and the client no longer. -/
theorem delivered_once_publishedTwice : ∃ x, Machine.run upStep (upInit none true) publishedTwice = some x ∧
    x.2.given = [⟨0, some [116], [], false⟩] ∧ x.1.m.msgsOut.inflight = [] ∧ (x.2.given.map Told.uid).Nodup := by
  have hm : Machine.Meets upStep Careful (upInit none true) publishedTwice := by decide
  have hr : (Machine.run upStep (upInit none true) publishedTwice).map
      (fun x => (x.2.given, x.1.m.msgsOut.inflight)) =
      some ([⟨0, some [116], [], false⟩], []) := by decide
  obtain ⟨x, hx, hreach, hf⟩ := Machine.reach_of_map (· = upInit none true) rfl hm hr
  obtain ⟨hgiven, hout⟩ := Prod.mk.inj hf
  exact ⟨x, hx, hgiven, hout, (delivered_once hreach).1⟩

end Artemisia.Threads
