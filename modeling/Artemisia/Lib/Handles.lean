/-
  Handles — handles that a system gives out and takes back, such as the descriptors of a process, and who
  holds them.

  A handle is given out only while nobody has it. It can be given back by number alone, so that it can
  happen that one gives back what one does not hold; `foul` says so. What is said of a list of handles here can be
  said of it beside any other ones: an operation takes its handles out of the list and puts new ones in.

  Proved:
  - `Owns.opens`, `Owns.close`, `Owns.closeAll`: what opening and closing do to the handles that are owned.
  - `foul_twice`:  a handle that is closed twice was not held the second time.
-/
import Mathlib.Data.List.Nodup
import Mathlib.Data.List.Perm.Basic

namespace Handles

variable {α : Type} [DecidableEq α]

structure Table (α : Type) where
  held : List α
  /-- Those of everybody else. -/
  others : List α
  /-- A handle has been closed that was not held. -/
  foul : Bool

namespace Table

variable (t : Table α) (a : α)

/-- The system gives out a handle. -/
def opens : Option (Table α) :=
  if a ∈ t.held ∨ a ∈ t.others then none else some { t with held := a :: t.held }

def close : Table α :=
  if a ∈ t.held then { t with held := t.held.erase a } else { t with others := t.others.erase a, foul := true }

/-- Those that there are. -/
def closeAll (l : List α) : Table α := l.foldl close t

end Table

/-- The handles in the list are those that are held, each of them once, and no other has been closed. -/
structure Owns (t : Table α) (l : List α) : Prop where
  exact : l.Perm t.held
  once : l.Nodup
  apart : ∀ a ∈ l, a ∉ t.others
  clean : t.foul = false

section Rules

variable {t t' : Table α} {l l' rest : List α} {a : α}

omit [DecidableEq α] in
theorem Owns.perm (h : Owns t l) (hp : l'.Perm l) : Owns t l' where
  exact := hp.trans h.exact
  once := hp.nodup_iff.mpr h.once
  apart := fun a ha => h.apart a (hp.mem_iff.mp ha)
  clean := h.clean

omit [DecidableEq α] in
/-- The one beside the other. -/
theorem Owns.swap (h : Owns t (l ++ (l' ++ rest))) : Owns t (l' ++ (l ++ rest)) :=
  h.perm (List.perm_append_comm_assoc ..)

theorem Owns.opens (h : Owns t l) (ho : t.opens a = some t') : Owns t' (a :: l) := by
  unfold Table.opens at ho
  split at ho
  · cases ho
  · rename_i hfree
    obtain ⟨hheld, hothers⟩ := not_or.mp hfree
    cases ho
    refine ⟨h.exact.cons a, List.nodup_cons.mpr ⟨fun ha => hheld (h.exact.mem_iff.mp ha), h.once⟩, ?_, h.clean⟩
    intro b hb
    rcases List.mem_cons.mp hb with rfl | hb
    · exact hothers
    · exact h.apart b hb

theorem Owns.close (h : Owns t (a :: l)) : Owns (t.close a) l := by
  have hmem : a ∈ t.held := h.exact.mem_iff.mp (List.mem_cons_self ..)
  rw [Table.close, if_pos hmem]
  refine ⟨?_, (List.nodup_cons.mp h.once).2, fun b hb => h.apart b (List.mem_cons_of_mem _ hb), h.clean⟩
  exact (List.perm_cons a).mp (h.exact.trans (List.perm_cons_erase hmem))

theorem Owns.closeAll (h : Owns t (l ++ rest)) : Owns (t.closeAll l) rest := by
  induction l generalizing t with
  | nil => exact h
  | cons a l ih => exact ih h.close

/-- What has been done wrong stays so. -/
theorem foul_close (h : t.foul = true) : (t.close a).foul = true := by
  unfold Table.close
  split
  · exact h
  · rfl

/-- A handle that is closed twice was not held the second time. -/
theorem foul_twice (h : t.held.Nodup) : ((t.close a).close a).foul = true := by
  by_cases hmem : a ∈ t.held
  · have hgone : a ∉ (t.close a).held := by
      rw [Table.close, if_pos hmem]
      exact h.not_mem_erase
    rw [Table.close, if_neg hgone]
  · apply foul_close
    rw [Table.close, if_neg hmem]

end Rules

end Handles
