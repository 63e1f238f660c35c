/-
  Handshake — the four-message handshake of exactly-once delivery, for one slot, over channels that keep
  their order and may lose what is in them at any time.

  The sender offers a message (`pub`), may offer it again until the receiver's first answer (`got`), then
  releases it (`rel`), again as often as it likes until the second answer (`done`), and only then reuses
  the slot. The receiver stores what is offered, answers, and delivers what is released. It is assumed to
  store nothing while something is stored.

  The invariant reads the answers on their way to the sender and those that the packets on their way to
  the receiver will cause as one word. It is all `done` while the slot is free, `done … got …` while a
  message is offered and `got … done …` while it is released.

  Proved:
  - `Inv.publish`, `Inv.republish`, `Inv.rerelease`, `Inv.got`, `Inv.done`: the sender's moves keep it.
  - `Inv.accept`, `Inv.release`: the receiver's moves keep it; what is delivered is what the sender is releasing.
  - `Inv.sub`: so does losing anything.
-/
import Mathlib.Data.List.Basic

namespace Handshake

/-- The receiver's two answers. -/
inductive Letter where
  | got | done
  deriving DecidableEq, Repr

/-- The sender's two packets. -/
inductive Item (α : Type) where
  | pub (a : α)
  | rel
  deriving DecidableEq, Repr

inductive Phase (α : Type) where
  | idle
  | offered (a : α)
  | released (a : α)
  deriving DecidableEq, Repr

variable {α : Type}

def Item.letter : Item α → Letter
  | .pub _ => .got
  | .rel => .done

/-- The message the slot is used for. -/
def Phase.current : Phase α → Option α
  | .idle => none
  | .offered a => some a
  | .released a => some a

/-- One slot: the sender, what is on its way to it, what is on its way from it, and what the receiver stores. -/
structure Hand (α : Type) where
  phase : Phase α
  acks : List Letter
  wire : List (Item α)
  stored : List α

def Hand.word (h : Hand α) : List Letter := h.acks ++ h.wire.map Item.letter

def DonesFirst (w : List Letter) : Prop := w.Pairwise (fun x y => ¬ (x = .got ∧ y = .done))

def GotsFirst (w : List Letter) : Prop := w.Pairwise (fun x y => ¬ (x = .done ∧ y = .got))

def WordOk : Phase α → List Letter → Prop
  | .idle, w => ∀ x ∈ w, x = .done
  | .offered _, w => DonesFirst w
  | .released _, w => GotsFirst w

/-- `gone` are the messages already delivered. -/
structure Inv (gone : List α) (h : Hand α) : Prop where
  word : WordOk h.phase h.word
  wire : ∀ a, Item.pub a ∈ h.wire → h.phase.current = some a
  stored : ∀ a ∈ h.stored, h.phase.current = some a
  single : h.stored.length ≤ 1
  /-- What is stored is not released before it is received. -/
  quiet : ∀ b, h.phase = .offered b → h.stored ≠ [] → Item.rel ∉ h.wire
  /-- The slot is not freed before what is stored is delivered. -/
  acked : ∀ b, h.phase = .released b → Letter.done ∈ h.acks → h.stored = []
  fresh : ∀ a ∈ gone, h.phase ≠ .offered a ∧ Item.pub a ∉ h.wire ∧ a ∉ h.stored

/-! ## Words -/

theorem WordOk.sublist {p : Phase α} {v w : List Letter} (h : WordOk p w) (hs : v.Sublist w) : WordOk p v := by
  cases p with
  | idle => exact fun x hx => h x (hs.subset hx)
  | offered a => exact List.Pairwise.sublist hs h
  | released a => exact List.Pairwise.sublist hs h

theorem wordOk_snoc_got {a : α} {w : List Letter} (h : DonesFirst w) : WordOk (.offered a) (w ++ [.got]) := by
  refine List.pairwise_append.mpr ⟨h, List.pairwise_singleton _ _, ?_⟩
  intro x _ y hy
  simp only [List.mem_singleton] at hy
  simp [hy]

theorem wordOk_snoc_done {a : α} {w : List Letter} (h : GotsFirst w) : WordOk (.released a) (w ++ [.done]) := by
  refine List.pairwise_append.mpr ⟨h, List.pairwise_singleton _ _, ?_⟩
  intro x _ y hy
  simp only [List.mem_singleton] at hy
  simp [hy]

theorem donesFirst_of_all {w : List Letter} (h : ∀ x ∈ w, x = .done) : DonesFirst w := by
  refine List.pairwise_iff_forall_sublist.mpr (fun {x y} hs => ?_)
  have := h x (hs.subset (by simp))
  simp [this]

theorem gotsFirst_of_all {w : List Letter} (h : ∀ x ∈ w, x = .got) : GotsFirst w := by
  refine List.pairwise_iff_forall_sublist.mpr (fun {x y} hs => ?_)
  have := h x (hs.subset (by simp))
  simp [this]

/-- After a `got`, only `got`s. -/
theorem DonesFirst.after {u v : List Letter} (h : DonesFirst (u ++ .got :: v)) : ∀ x ∈ v, x = .got := by
  intro x hx
  have h2 := (List.pairwise_append.mp h).2.1
  have := List.rel_of_pairwise_cons h2 hx
  cases x with
  | got => rfl
  | done => simp at this

/-- After a `done`, only `done`s. -/
theorem GotsFirst.after {u v : List Letter} (h : GotsFirst (u ++ .done :: v)) : ∀ x ∈ v, x = .done := by
  intro x hx
  have h2 := (List.pairwise_append.mp h).2.1
  have := List.rel_of_pairwise_cons h2 hx
  cases x with
  | got => simp at this
  | done => rfl

theorem GotsFirst.before {u v : List Letter} (h : GotsFirst (u ++ .got :: v)) : ∀ x ∈ u, x = .got := by
  intro x hx
  have := (List.pairwise_append.mp h).2.2 x hx .got (by simp)
  cases x with
  | got => rfl
  | done => simp at this

theorem letter_mem {i : Item α} {w : List (Item α)} (h : i ∈ w) : i.letter ∈ w.map Item.letter :=
  List.mem_map_of_mem h

/-! ## Losing -/

/-- Less may be on its way, and less stored. -/
structure Sub (h' h : Hand α) : Prop where
  phase : h'.phase = h.phase
  acks : h'.acks.Sublist h.acks
  wire : h'.wire.Sublist h.wire
  stored : h'.stored.Sublist h.stored

theorem Sub.word {h' h : Hand α} (hs : Sub h' h) : h'.word.Sublist h.word :=
  hs.acks.append (hs.wire.map _)

variable {gone : List α} {h h' : Hand α}

theorem Inv.sub (hi : Inv gone h) (hs : Sub h' h) : Inv gone h' where
  word := hs.phase ▸ hi.word.sublist hs.word
  wire a ha := hs.phase ▸ hi.wire a (hs.wire.subset ha)
  stored a ha := hs.phase ▸ hi.stored a (hs.stored.subset ha)
  single := Nat.le_trans hs.stored.length_le hi.single
  quiet b hb hne hr := by
    refine hi.quiet b (hs.phase ▸ hb) (fun e => hne ?_) (hs.wire.subset hr)
    exact List.sublist_nil.mp (e ▸ hs.stored)
  acked b hb hd := by
    have := hi.acked b (hs.phase ▸ hb) (hs.acks.subset hd)
    exact List.sublist_nil.mp (this ▸ hs.stored)
  fresh a ha := by
    obtain ⟨h1, h2, h3⟩ := hi.fresh a ha
    exact ⟨hs.phase ▸ h1, fun hp => h2 (hs.wire.subset hp), fun hp => h3 (hs.stored.subset hp)⟩

/-- Another message has been delivered, elsewhere. -/
theorem Inv.grow {d : List α} (hi : Inv gone h) (hd : ∀ a ∈ d, h.phase.current ≠ some a) : Inv (d ++ gone) h where
  word := hi.word
  wire := hi.wire
  stored := hi.stored
  single := hi.single
  quiet := hi.quiet
  acked := hi.acked
  fresh a ha := by
    rcases List.mem_append.mp ha with ha | ha
    · have hne := hd a ha
      exact ⟨fun e => hne (by rw [e]; rfl), fun hp => hne (hi.wire a hp), fun hp => hne (hi.stored a hp)⟩
    · exact hi.fresh a ha

/-! ## The sender -/

theorem Inv.not_pub_of_idle (hi : Inv gone h) (hp : h.phase = .idle) (a : α) : Item.pub a ∉ h.wire := by
  intro ha
  have := hi.wire a ha
  simp [hp, Phase.current] at this

theorem Inv.stored_of_idle (hi : Inv gone h) (hp : h.phase = .idle) : h.stored = [] := by
  rcases hs : h.stored with _ | ⟨a, t⟩
  · rfl
  · have := hi.stored a (by simp [hs])
    simp [hp, Phase.current] at this

/-- A new message in a free slot. -/
theorem Inv.publish (hi : Inv gone h) (hp : h.phase = .idle) {a : α} (ha : a ∉ gone) :
    Inv gone { h with phase := .offered a, wire := h.wire ++ [.pub a] } := by
  have hw := hi.word
  rw [hp] at hw
  have hst := hi.stored_of_idle hp
  refine ⟨?_, ?_, ?_, hi.single, ?_, ?_, ?_⟩
  · have := wordOk_snoc_got (a := a) (donesFirst_of_all hw)
    simpa [Hand.word, Item.letter] using this
  · intro b hb
    rcases List.mem_append.mp hb with hb | hb
    · exact absurd hb (hi.not_pub_of_idle hp b)
    · simp only [List.mem_singleton, Item.pub.injEq] at hb
      simp [Phase.current, hb]
  · simp [hst]
  · intro b _ hne
    exact absurd hst hne
  · intro b hb
    cases hb
  · intro b hb
    have hne : b ≠ a := fun e => ha (e ▸ hb)
    refine ⟨by simp [hne.symm], ?_, by simp [hst]⟩
    simp [hi.not_pub_of_idle hp b, hne]

/-- The message is offered again. -/
theorem Inv.republish (hi : Inv gone h) {a : α} (hp : h.phase = .offered a) :
    Inv gone { h with wire := h.wire ++ [.pub a] } := by
  have hw := hi.word
  rw [hp] at hw
  refine ⟨?_, ?_, hi.stored, hi.single, ?_, hi.acked, ?_⟩
  · have := wordOk_snoc_got (a := a) hw
    simpa [Hand.word, Item.letter, hp] using this
  · intro b hb
    rcases List.mem_append.mp hb with hb | hb
    · exact hi.wire b hb
    · simp only [List.mem_singleton, Item.pub.injEq] at hb
      simp [hp, Phase.current, hb]
  · intro b hb hne
    simpa using hi.quiet b hb hne
  · intro b hb
    obtain ⟨h1, h2, h3⟩ := hi.fresh b hb
    have hne : b ≠ a := fun e => h1 (e ▸ hp)
    exact ⟨h1, by simp [h2, hne], h3⟩

/-- The message is released again. -/
theorem Inv.rerelease (hi : Inv gone h) {a : α} (hp : h.phase = .released a) :
    Inv gone { h with wire := h.wire ++ [.rel] } := by
  have hw := hi.word
  rw [hp] at hw
  refine ⟨?_, ?_, hi.stored, hi.single, ?_, hi.acked, ?_⟩
  · have := wordOk_snoc_done (a := a) hw
    simpa [Hand.word, Item.letter, hp] using this
  · intro b hb
    exact hi.wire b (by simpa using hb)
  · intro b hb
    simp [hp] at hb
  · intro b hb
    obtain ⟨h1, h2, h3⟩ := hi.fresh b hb
    exact ⟨h1, by simpa using h2, h3⟩

/-- The first answer arrives: the message is released. -/
theorem Inv.got (hi : Inv gone h) {a : α} (hp : h.phase = .offered a) {t : List Letter}
    (ha : h.acks = .got :: t) :
    Inv gone { h with phase := .released a, acks := t, wire := h.wire ++ [.rel] } := by
  have hw := hi.word
  rw [hp] at hw
  have hall : ∀ x ∈ t ++ h.wire.map Item.letter, x = .got := by
    refine DonesFirst.after (u := []) ?_
    simpa [WordOk, Hand.word, ha] using hw
  refine ⟨?_, ?_, ?_, hi.single, ?_, ?_, ?_⟩
  · have := wordOk_snoc_done (a := a) (gotsFirst_of_all hall)
    simpa [Hand.word, Item.letter] using this
  · intro b hb
    have := hi.wire b (by simpa using hb)
    simpa [hp, Phase.current] using this
  · intro b hb
    have := hi.stored b hb
    simpa [hp, Phase.current] using this
  · intro b hb
    cases hb
  · intro b _ hd
    have := hall .done (List.mem_append_left _ hd)
    cases this
  · intro b hb
    obtain ⟨-, h2, h3⟩ := hi.fresh b hb
    exact ⟨by simp, by simpa using h2, h3⟩

/-- The second answer arrives: the slot is free. -/
theorem Inv.done (hi : Inv gone h) {a : α} (hp : h.phase = .released a) {t : List Letter}
    (ha : h.acks = .done :: t) :
    Inv gone { h with phase := .idle, acks := t } := by
  have hw := hi.word
  rw [hp] at hw
  have hall : ∀ x ∈ t ++ h.wire.map Item.letter, x = .done := by
    refine GotsFirst.after (u := []) ?_
    simpa [WordOk, Hand.word, ha] using hw
  have hst : h.stored = [] := hi.acked a hp (by simp [ha])
  have hpub : ∀ b, Item.pub b ∉ h.wire := by
    intro b hb
    have := hall _ (List.mem_append_right _ (letter_mem hb))
    cases this
  refine ⟨hall, ?_, ?_, hi.single, ?_, ?_, ?_⟩
  · intro b hb
    exact absurd hb (hpub b)
  · simp [hst]
  · intro b hb
    cases hb
  · intro b hb
    cases hb
  · intro b _
    exact ⟨by simp, hpub b, by simp [hst]⟩

/-! ## The receiver -/

/-- An offered message is stored where nothing is, and answered. -/
theorem Inv.accept (hi : Inv gone h) {a : α} {w : List (Item α)} (hw : h.wire = .pub a :: w)
    (hs : h.stored = []) :
    Inv gone { h with acks := h.acks ++ [.got], wire := w, stored := h.stored ++ [a] } := by
  have hcur := hi.wire a (by simp [hw])
  have hword : h.word = h.acks ++ .got :: w.map Item.letter := by simp [Hand.word, hw, Item.letter]
  rw [hs, List.nil_append]
  refine ⟨?_, ?_, ?_, by simp, ?_, ?_, ?_⟩
  · have := hi.word
    simpa [Hand.word, hw, Item.letter] using this
  · intro b hb
    exact hi.wire b (by simp [hw, hb])
  · intro b hb
    simp only [List.mem_singleton] at hb
    exact hb ▸ hcur
  · intro b hb _ hr
    have hok := hi.word
    have hp : h.phase = .offered b := hb
    rw [hp, hword] at hok
    have := DonesFirst.after hok _ (letter_mem hr)
    cases this
  · intro b hb hd
    have hok := hi.word
    have hp : h.phase = .released b := hb
    rw [hp, hword] at hok
    rcases List.mem_append.mp hd with hd | hd
    · have := GotsFirst.before hok _ hd
      cases this
    · simp at hd
  · intro b hb
    obtain ⟨h1, h2, -⟩ := hi.fresh b hb
    simp only [hw, List.mem_cons, Item.pub.injEq, not_or] at h2
    exact ⟨h1, h2.2, by simp [h2.1]⟩

/-- A release is answered, and what is stored is delivered: it is what the sender is releasing. -/
theorem Inv.release (hi : Inv gone h) {w : List (Item α)} (hw : h.wire = .rel :: w) :
    (∀ a ∈ h.stored, h.phase = .released a) ∧
      Inv (h.stored ++ gone) { h with acks := h.acks ++ [.done], wire := w, stored := [] } := by
  have hword : h.word = h.acks ++ .done :: w.map Item.letter := by simp [Hand.word, hw, Item.letter]
  have hrel : ∀ a ∈ h.stored, h.phase = .released a := by
    intro a ha
    have hcur := hi.stored a ha
    cases hp : h.phase with
    | idle => simp [hp, Phase.current] at hcur
    | offered b =>
      have hne : h.stored ≠ [] := List.ne_nil_of_mem ha
      exact absurd (by simp [hw]) (hi.quiet b hp hne)
    | released b => simpa [hp, Phase.current] using hcur
  refine ⟨hrel, ?_, ?_, by simp, by simp, ?_, fun _ _ _ => rfl, ?_⟩
  · have := hi.word
    simpa [Hand.word, hw, Item.letter] using this
  · intro b hb
    exact hi.wire b (by simp [hw, hb])
  · intro b _ hne
    exact absurd rfl hne
  · intro b hb
    rcases List.mem_append.mp hb with hb | hb
    · have hp := hrel b hb
      refine ⟨by simp [hp], fun hpub => ?_, by simp⟩
      have hok := hi.word
      rw [hp, hword] at hok
      have := GotsFirst.after hok _ (letter_mem hpub)
      cases this
    · obtain ⟨h1, h2, -⟩ := hi.fresh b hb
      exact ⟨h1, fun hpub => h2 (by simp [hw, hpub]), by simp⟩

/-- The slot before anything happened. -/
theorem inv_free : Inv ([] : List α) ⟨.idle, [], [], []⟩ := by
  refine ⟨?_, ?_, ?_, ?_, ?_, ?_, ?_⟩ <;> simp [WordOk, Hand.word]

end Handshake
