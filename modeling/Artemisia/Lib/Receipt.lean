/-
  Receipt — what the answers of a four-message handshake tell its sender (`Lib.Handshake`).

  While a message is offered no second answer can be on its way, if none was when the slot was taken. When
  its first answer is on its way, or the message is released, the receiver stores it or has delivered it. So the
  second answer finds it delivered. The receiver throws away what is offered while it stores something.

  Proved:
  - `Receipt.publish`, `Receipt.send`, `Receipt.got`, `Receipt.done`: the sender's moves keep it, and `done` is
                                                                      the receipt.
  - `Receipt.take`, `Receipt.release`: so do the receiver's.
  - `Receipt.lose`: so does losing what is on its way.
-/
import Artemisia.Lib.Handshake

namespace Handshake

variable {α : Type}

/-- What the sender may put on the wire in this phase. -/
def Phase.speaks : Phase α → Item α → Prop
  | .idle, _ => False
  | .offered a, i => i = .pub a
  | .released _, i => i = .rel

structure Receipt (gone : List α) (h : Hand α) : Prop where
  inv : Inv gone h
  calm : ∀ a, h.phase = .offered a → Letter.done ∉ h.word
  answered : ∀ a, h.phase = .offered a → Letter.got ∈ h.acks → a ∈ h.stored ∨ a ∈ gone
  arrived : ∀ a, h.phase = .released a → a ∈ h.stored ∨ a ∈ gone

variable {gone : List α} {h h' : Hand α} {a : α}

/-! ## Losing -/

theorem Receipt.lose (hr : Receipt gone h) (hs : Sub h' h) (hst : h'.stored = h.stored) : Receipt gone h' where
  inv := hr.inv.sub hs
  calm a ha hd := hr.calm a (hs.phase ▸ ha) (hs.word.subset hd)
  answered a ha hg := hst ▸ hr.answered a (hs.phase ▸ ha) (hs.acks.subset hg)
  arrived a ha := hst ▸ hr.arrived a (hs.phase ▸ ha)

/-- Other messages have been delivered, elsewhere. -/
theorem Receipt.grow {d : List α} (hr : Receipt gone h) (hd : ∀ a ∈ d, h.phase.current ≠ some a) :
    Receipt (d ++ gone) h where
  inv := hr.inv.grow hd
  calm := hr.calm
  answered a ha hg := (hr.answered a ha hg).imp_right (List.mem_append_right _)
  arrived a ha := (hr.arrived a ha).imp_right (List.mem_append_right _)

/-! ## The sender -/

theorem Receipt.send (hr : Receipt gone h) {items : List (Item α)} (hi : ∀ i ∈ items, h.phase.speaks i) :
    Receipt gone { h with wire := h.wire ++ items } := by
  induction items generalizing h with
  | nil => simpa using hr
  | cons i items ih =>
    obtain ⟨hfirst, hrest⟩ := List.forall_mem_cons.mp hi
    have hone : Receipt gone { h with wire := h.wire ++ [i] } := by
      cases hp : h.phase with
      | idle =>
        rw [hp] at hfirst
        exact hfirst.elim
      | offered a =>
        rw [hp] at hfirst
        obtain rfl : i = .pub a := hfirst
        refine ⟨hp ▸ hr.inv.republish hp, fun b hb hd => ?_, fun b hb => hr.answered b (hp.trans hb),
          fun b hb => (by cases hb)⟩
        refine hr.calm b (hp.trans hb) ?_
        simpa [Hand.word, Item.letter] using hd
      | released a =>
        rw [hp] at hfirst
        obtain rfl : i = .rel := hfirst
        exact ⟨hp ▸ hr.inv.rerelease hp, fun b hb => (by cases hb), fun b hb => (by cases hb),
          fun b hb => hr.arrived b (hp.trans hb)⟩
    have := ih hone hrest
    simpa using this

/-- A new message in a free slot, with nothing of the last one on its way. -/
theorem Receipt.publish (hr : Receipt gone h) (hp : h.phase = .idle) (hw : h.word = []) (ha : a ∉ gone) :
    Receipt gone { h with phase := .offered a } := by
  obtain ⟨hacks, hwire⟩ := List.append_eq_nil_iff.mp hw
  have hsub : Sub { h with phase := .offered a } { h with phase := .offered a, wire := h.wire ++ [.pub a] } :=
    ⟨rfl, .refl _, List.sublist_append_left .., .refl _⟩
  refine ⟨(hr.inv.publish hp ha).sub hsub, fun b _ hd => ?_, fun b _ hg => ?_, fun b hb => (by cases hb)⟩
  · have : Letter.done ∈ h.word := hd
    rw [hw] at this
    cases this
  · rw [hacks] at hg
    cases hg

theorem Receipt.got (hr : Receipt gone h) (hp : h.phase = .offered a) {t : List Letter}
    (ht : h.acks = .got :: t) :
    Receipt gone { h with phase := .released a, acks := t } := by
  have hsub : Sub { h with phase := .released a, acks := t }
      { h with phase := .released a, acks := t, wire := h.wire ++ [.rel] } :=
    ⟨rfl, .refl _, List.sublist_append_left .., .refl _⟩
  refine ⟨(hr.inv.got hp ht).sub hsub, fun b hb => (by cases hb), fun b hb => (by cases hb), fun b hb => ?_⟩
  cases hb
  exact hr.answered a hp (by simp [ht])

/-- The second answer is the receipt. -/
theorem Receipt.done (hr : Receipt gone h) (hp : h.phase = .released a) {t : List Letter}
    (ht : h.acks = .done :: t) :
    a ∈ gone ∧ Receipt gone { h with phase := .idle, acks := t } := by
  have hst : h.stored = [] := hr.inv.acked a hp (by simp [ht])
  refine ⟨?_, hr.inv.done hp ht, fun b hb => (by cases hb), fun b hb => (by cases hb), fun b hb => (by cases hb)⟩
  have := hr.arrived a hp
  simpa [hst] using this

/-- No first answer comes for a free slot. -/
theorem Receipt.not_got_of_idle (hr : Receipt gone h) (hp : h.phase = .idle) : Letter.got ∉ h.acks := by
  intro hg
  have hw := hr.inv.word
  rw [hp] at hw
  have := hw .got (List.mem_append_left _ hg)
  cases this

theorem Receipt.not_done_of_offered (hr : Receipt gone h) (hp : h.phase = .offered a) : Letter.done ∉ h.acks :=
  fun hd => hr.calm a hp (List.mem_append_left _ hd)

/-! ## The receiver -/

/-- An offered message is thrown away, and answered, where one is stored. -/
theorem Inv.discard (hi : Inv gone h) {w : List (Item α)} (hw : h.wire = .pub a :: w) :
    Inv gone { h with acks := h.acks ++ [.got], wire := w } := by
  have hword : h.word = h.acks ++ .got :: w.map Item.letter := by simp [Hand.word, hw, Item.letter]
  refine ⟨?_, fun b hb => hi.wire b (by simp [hw, hb]), hi.stored, hi.single, fun b hb hne hr => ?_,
    fun b hb hd => ?_,
    fun b hb => ?_⟩
  · have := hi.word
    simpa [Hand.word, hw, Item.letter] using this
  · exact hi.quiet b hb hne (by simp [hw, hr])
  · rcases List.mem_append.mp hd with hd | hd
    · exact hi.acked b hb hd
    · simp at hd
  · obtain ⟨h1, h2, h3⟩ := hi.fresh b hb
    exact ⟨h1, fun hp => h2 (by simp [hw, hp]), h3⟩

/-- What the receiver stores of an offered message. -/
def stores (stored : List α) (a : α) : List α := if stored.isEmpty then [a] else stored

theorem stores_mem (stored : List α) (a : α) : ∃ b, b ∈ stores stored a := by
  cases stored with
  | nil => exact ⟨a, by simp [stores]⟩
  | cons b t => exact ⟨b, by simp [stores]⟩

theorem Receipt.take (hr : Receipt gone h) {w : List (Item α)} (hw : h.wire = .pub a :: w) :
    Receipt gone { h with acks := h.acks ++ [.got], wire := w, stored := stores h.stored a } := by
  have hinv : Inv gone { h with acks := h.acks ++ [.got], wire := w, stored := stores h.stored a } := by
    cases hst : h.stored with
    | nil => simpa [stores, hst] using hr.inv.accept hw hst
    | cons b t => simpa [stores, hst] using hr.inv.discard hw
  have hword : Hand.word { h with acks := h.acks ++ [.got], wire := w, stored := stores h.stored a } =
      h.word := by
    simp [Hand.word, hw, Item.letter]
  refine ⟨hinv, fun b hb hd => hr.calm b hb (hword ▸ hd), fun b hb _ => ?_, fun b hb => ?_⟩
  · obtain ⟨c, hc⟩ := stores_mem h.stored a
    have hcur := hinv.stored c hc
    rw [show h.phase = .offered b from hb] at hcur
    obtain rfl : b = c := Option.some.inj hcur
    exact .inl hc
  · rcases hr.arrived b hb with hmem | hmem
    · cases hst : h.stored with
      | nil => simp [hst] at hmem
      | cons c t => exact .inl (by simpa [stores, hst] using hmem)
    · exact .inr hmem

/-- What is stored is delivered: it is what the sender is releasing. -/
theorem Receipt.release (hr : Receipt gone h) {w : List (Item α)} (hw : h.wire = .rel :: w) :
    (∀ a ∈ h.stored, h.phase = .released a) ∧
      Receipt (h.stored ++ gone) { h with acks := h.acks ++ [.done], wire := w, stored := [] } := by
  obtain ⟨hrel, hinv⟩ := hr.inv.release hw
  have hdone : Letter.done ∈ h.word := by simp [Hand.word, hw, Item.letter]
  refine ⟨hrel, hinv, fun b hb => absurd hdone (hr.calm b hb), fun b hb => absurd hdone (hr.calm b hb),
    fun b hb => ?_⟩
  exact .inr (List.mem_append.mpr (hr.arrived b hb))

/-- The slot before anything happened. -/
theorem receipt_free : Receipt ([] : List α) ⟨.idle, [], [], []⟩ :=
  ⟨inv_free, fun _ h => (by cases h), fun _ h => (by cases h), fun _ h => (by cases h)⟩

end Handshake
