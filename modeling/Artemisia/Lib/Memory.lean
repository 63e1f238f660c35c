/-
  Memory — computations that read memory: what a run gives, and where it reads.

  Every read is a step of the computation, so a run shows all the addresses it reads.

  Proved:
  - `Gives.done`, `Gives.read`, `Gives.bind`: a run is followed step by step, every read at an allowed address.
-/
import Mathlib.Tactic.Common

namespace Memory

variable {α β γ : Type}

/-- It ends with a value, or reads at an address and goes on with what is there. -/
inductive Reading (β α : Type) where
  | done (a : α)
  | read (p : Nat) (next : β → Reading β α)

def Reading.andThen : Reading β α → (α → Reading β γ) → Reading β γ
  | .done a, f => f a
  | .read p next, f => .read p fun b => (next b).andThen f

instance : Monad (Reading β) where
  pure := .done
  bind := Reading.andThen

def load (p : Nat) : Reading β β := .read p .done

def Reading.run (mem : Nat → β) : Reading β α → α
  | .done a => a
  | .read p next => (next (mem p)).run mem

/-- Where a run reads, in order. -/
def Reading.reads (mem : Nat → β) : Reading β α → List Nat
  | .done _ => []
  | .read p next => p :: (next (mem p)).reads mem

/-- In this memory it comes to `a`, and reads nowhere else than at `ok` addresses. -/
structure Gives (mem : Nat → β) (ok : Nat → Prop) (r : Reading β α) (a : α) : Prop where
  value : r.run mem = a
  within : ∀ p ∈ r.reads mem, ok p

section Rules

variable {mem : Nat → β} {ok : Nat → Prop} {a : α}

theorem Gives.done : Gives mem ok (pure a) a := ⟨rfl, fun _ h => absurd h List.not_mem_nil⟩

theorem Gives.read {p : Nat} {next : β → Reading β α} (hp : ok p) (h : Gives mem ok (next (mem p)) a) :
    Gives mem ok (load p >>= next) a :=
  ⟨h.value, List.forall_mem_cons.mpr ⟨hp, h.within⟩⟩

theorem Gives.bind {r : Reading β α} {f : α → Reading β γ} {c : γ} (h : Gives mem ok r a)
    (h' : Gives mem ok (f a) c) :
    Gives mem ok (r >>= f) c := by
  induction r with
  | done b =>
    obtain rfl : b = a := h.value
    exact h'
  | read p next ih =>
    obtain ⟨hp, hw⟩ := List.forall_mem_cons.mp h.within
    exact .read hp (ih (mem p) ⟨h.value, hw⟩)

end Rules

/-! ## What is stored -/

/-- From an address on there are these, in a row. -/
def Stored (mem : Nat → β) : Nat → List β → Prop
  | _, [] => True
  | p, b :: l => mem p = b ∧ Stored mem (p + 1) l

instance Stored.decidable [DecidableEq β] (mem : Nat → β) : (p : Nat) → (l : List β) → Decidable (Stored mem p l)
  | _, [] => inferInstanceAs (Decidable True)
  | p, b :: l =>
    have := Stored.decidable mem (p + 1) l
    inferInstanceAs (Decidable (mem p = b ∧ Stored mem (p + 1) l))

theorem Stored.drop {mem : Nat → β} {p : Nat} {l l' : List β} (h : Stored mem p (l ++ l')) :
    Stored mem (p + l.length) l' := by
  induction l generalizing p with
  | nil => exact h
  | cons b l ih =>
    have := ih h.2
    rwa [Nat.add_right_comm] at this

end Memory
