/-
  Credit — a receiver with so many places, and what is on its way to it over a channel that keeps its order.

  An item takes a place when it comes: for that moment, or, if it stays, under its id until it is taken away.
  The sender counts the ids that it has out, those that are held included. That it never has more of them out than
  there are places is enough for every item to find one: what the receiver holds when an item comes was out when
  it was sent.

  Proved:
  - `Fits.push`:  what is sent within the count finds a place, behind all that is on its way.
  - `Fits.mono`:  so it does if the receiver holds less, and `Fits.sublist`: if less is on its way.
-/
import Mathlib.Data.Finset.Card

namespace Credit

variable {α : Type} [DecidableEq α]

inductive Item (α : Type) where
  | passes
  | stays (a : α)
  deriving DecidableEq

/-- With these held, each item finds one of `r` places when its turn comes. An item that stays keeps the place of
    its id. -/
def Fits (r : Nat) : Finset α → List (Item α) → Prop
  | _, [] => True
  | held, .passes :: l => held.card < r ∧ Fits r held l
  | held, .stays a :: l => (insert a held).card ≤ r ∧ Fits r (insert a held) l

def staying (l : List (Item α)) : Finset α :=
  (l.filterMap fun
    | .passes => none
    | .stays a => some a).toFinset

/-- The item may be sent while these are out. -/
def Item.Fits (r : Nat) (out : Finset α) : Item α → Prop
  | .passes => out.card < r
  | .stays a => (insert a out).card ≤ r

section Rules

variable {r : Nat} {held held' out : Finset α} {l l' : List (Item α)}

theorem Item.Fits.mono {x : Item α} (h : x.Fits r out) (hs : held ⊆ out) : x.Fits r held := by
  cases x with
  | passes => exact (Finset.card_le_card hs).trans_lt h
  | stays a => exact (Finset.card_le_card (Finset.insert_subset_insert a hs)).trans h

theorem Fits.mono (h : Fits r held l) (hs : held' ⊆ held) : Fits r held' l := by
  induction l generalizing held held' with
  | nil => trivial
  | cons x l ih =>
    cases x with
    | passes => exact ⟨(Finset.card_le_card hs).trans_lt h.1, ih h.2 hs⟩
    | stays a =>
      have hi : insert a held' ⊆ insert a held := Finset.insert_subset_insert a hs
      exact ⟨(Finset.card_le_card hi).trans h.1, ih h.2 hi⟩

/-- The rest comes after the item, and finds what it has left. -/
theorem Fits.tail {x : Item α} (h : Fits r held (x :: l)) : Fits r held l := by
  cases x with
  | passes => exact h.2
  | stays a => exact h.2.mono (Finset.subset_insert a held)

theorem Fits.sublist (h : Fits r held l) (hs : l'.Sublist l) : Fits r held l' := by
  induction hs generalizing held with
  | slnil => exact h
  | cons x _ ih => exact ih h.tail
  | cons_cons x _ ih =>
    cases x with
    | passes => exact ⟨h.1, ih h.2⟩
    | stays a => exact ⟨h.1, ih h.2⟩

theorem staying_cons_stays (a : α) (l : List (Item α)) : staying (.stays a :: l) = insert a (staying l) := by
  simp [staying]

/-- What is sent while all of the others are out. -/
theorem Fits.push {x : Item α} (h : Fits r held l) (hh : held ⊆ out) (hl : staying l ⊆ out) (hx : x.Fits r out) :
    Fits r held (l ++ [x]) := by
  induction l generalizing held with
  | nil =>
    have hx := hx.mono hh
    cases x with
    | passes => exact ⟨hx, trivial⟩
    | stays a => exact ⟨hx, trivial⟩
  | cons y l ih =>
    cases y with
    | passes => exact ⟨h.1, ih h.2 hh hl⟩
    | stays a =>
      rw [staying_cons_stays] at hl
      obtain ⟨ha, hl⟩ := Finset.insert_subset_iff.mp hl
      exact ⟨h.1, ih h.2 (Finset.insert_subset ha hh) hl⟩

end Rules

end Credit
