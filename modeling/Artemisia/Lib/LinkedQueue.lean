/-
  LinkedQueue — a queue as a singly linked list in memory, with a pointer to its first cell and one to its last.

  NULL is `none`, and so is in the heap what is not allocated. While the queue is empty its last pointer
  means nothing: it may be left from before. An operation that follows a pointer to no cell has no result.

  Proved:
  - `Holds.push`: the new cell comes last, and the others stay as they are but for one pointer.
  - `Holds.pop`:  the first cell leaves.
  - `Holds.frame`: what happens to other cells is no matter.
-/
import Mathlib.Data.List.Nodup
import Mathlib.Logic.Function.Basic

namespace LinkedQueue

variable {α : Type}

structure Cell (α : Type) where
  value : α
  next : Option Nat

abbrev Heap (α : Type) := Nat → Option (Cell α)

structure Ends where
  first : Option Nat
  last : Option Nat

/-- The cell at `a` becomes the last one. -/
def push (h : Heap α) (q : Ends) (a : Nat) : Option (Heap α × Ends) :=
  match q.first with
  | none => some (h, ⟨some a, some a⟩)
  | some _ => do
    let b ← q.last
    let c ← h b
    return (Function.update h b (some { c with next := some a }), ⟨q.first, some a⟩)

/-- The first cell leaves, if there is one. -/
def pop (h : Heap α) (q : Ends) : Option (Option Nat × Ends) :=
  match q.first with
  | none => some (none, q)
  | some a => do
    let c ← h a
    return (some a, if c.next = none then ⟨none, none⟩ else ⟨c.next, q.last⟩)

/-! ## The cells of a queue -/

/-- From the pointer on, these are the cells. -/
def Chain (h : Heap α) : Option Nat → List Nat → Prop
  | p, [] => p = none
  | p, a :: l => p = some a ∧ ∃ c, h a = some c ∧ Chain h c.next l

structure Holds (h : Heap α) (q : Ends) (l : List Nat) : Prop where
  chain : Chain h q.first l
  nodup : l.Nodup
  last : ∀ a ∈ l.getLast?, q.last = some a

section Rules

variable {h h' : Heap α} {q : Ends} {p : Option Nat} {a : Nat} {l : List Nat}

theorem Chain.frame (hc : Chain h p l) (hf : ∀ a ∈ l, h' a = h a) : Chain h' p l := by
  induction l generalizing p with
  | nil => exact hc
  | cons a l ih =>
    obtain ⟨hp, c, ha, hl⟩ := hc
    exact ⟨hp, c, (hf a (List.mem_cons_self ..)).trans ha, ih hl fun x hx => hf x (List.mem_cons_of_mem _ hx)⟩

theorem Chain.cell (hc : Chain h p l) (ha : a ∈ l) : ∃ c, h a = some c := by
  induction l generalizing p with
  | nil => cases ha
  | cons b l ih =>
    obtain ⟨-, c, hb, hl⟩ := hc
    rcases List.mem_cons.mp ha with rfl | ha
    · exact ⟨c, hb⟩
    · exact ih hl ha

/-- A cell is linked behind the last one. -/
theorem Chain.snoc {b : Nat} {c d : Cell α} (hc : Chain h p (l ++ [b])) (hn : (l ++ [b]).Nodup)
    (ha : a ∉ l ++ [b]) (hd : h a = some d) (hnext : d.next = none) :
    Chain (Function.update h b (some { c with next := some a })) p (l ++ [b] ++ [a]) := by
  have hab : a ≠ b := fun e => ha (by simp [e])
  induction l generalizing p with
  | nil =>
    refine ⟨hc.1, _, Function.update_self .., rfl, d, ?_, hnext⟩
    rw [Function.update_of_ne hab]
    exact hd
  | cons x l ih =>
    obtain ⟨hp, e, hx, hl⟩ := hc
    rw [List.cons_append, List.nodup_cons] at hn
    have hxb : x ≠ b := fun e => hn.1 (by simp [e])
    refine ⟨hp, e, ?_, ih hl hn.2 fun hmem => ha (List.mem_cons_of_mem _ hmem)⟩
    rw [Function.update_of_ne hxb]
    exact hx

theorem Holds.empty (last : Option Nat) : Holds h ⟨none, last⟩ [] := ⟨rfl, List.nodup_nil, by simp⟩

theorem Holds.frame (hq : Holds h q l) (hf : ∀ a ∈ l, h' a = h a) : Holds h' q l :=
  ⟨hq.chain.frame hf, hq.nodup, hq.last⟩

theorem Holds.push (hq : Holds h q l) (ha : a ∉ l) {d : Cell α} (hd : h a = some d) (hnext : d.next = none) :
    ∃ h' q', push h q a = some (h', q') ∧ Holds h' q' (l ++ [a]) ∧ (∀ x, x ∉ l → h' x = h x) ∧
      ∀ x, (h' x).map Cell.value = (h x).map Cell.value := by
  have hnodup : (l ++ [a]).Nodup := by
    rw [List.nodup_append]
    refine ⟨hq.nodup, List.nodup_singleton a, fun x hx y hy e => ha ?_⟩
    rw [← List.mem_singleton.mp hy, ← e]
    exact hx
  rcases List.eq_nil_or_concat l with rfl | ⟨l, b, rfl⟩
  · have hfirst : q.first = none := hq.chain
    refine ⟨h, ⟨some a, some a⟩, by simp [LinkedQueue.push, hfirst], ⟨?_, hnodup, by simp⟩, fun _ _ => rfl,
      fun _ => rfl⟩
    exact ⟨rfl, d, hd, hnext⟩
  · rw [List.concat_eq_append] at *
    obtain ⟨c, hc⟩ := hq.chain.cell (show b ∈ l ++ [b] by simp)
    have hlast : q.last = some b := hq.last b (by simp)
    obtain ⟨x, hfirst⟩ : ∃ x, q.first = some x := by
      have := hq.chain
      cases l with
      | nil => exact ⟨b, this.1⟩
      | cons x l => exact ⟨x, this.1⟩
    refine ⟨Function.update h b (some { c with next := some a }), ⟨q.first, some a⟩, ?_, ⟨?_, hnodup, by simp⟩,
      fun x hx => ?_, fun x => ?_⟩
    · simp [LinkedQueue.push, hfirst, hlast, hc]
    · exact hq.chain.snoc hq.nodup ha hd hnext
    · exact Function.update_of_ne (fun e => hx (by simp [e])) ..
    · by_cases hx : x = b
      · rw [hx, Function.update_self, hc]
        rfl
      · rw [Function.update_of_ne hx]

theorem Holds.pop_nil (hq : Holds h q []) : pop h q = some (none, q) := by
  have hfirst : q.first = none := hq.chain
  simp [pop, hfirst]

theorem Holds.pop (hq : Holds h q (a :: l)) : ∃ q', pop h q = some (some a, q') ∧ Holds h q' l := by
  obtain ⟨hfirst, c, ha, hl⟩ := hq.chain
  refine ⟨if c.next = none then ⟨none, none⟩ else ⟨c.next, q.last⟩, by simp [LinkedQueue.pop, hfirst, ha], ?_⟩
  cases l with
  | nil =>
    have hnext : c.next = none := hl
    rw [if_pos hnext]
    exact .empty none
  | cons b l =>
    have hnext : c.next ≠ none := by rw [hl.1]; simp
    rw [if_neg hnext]
    exact ⟨hl, (List.nodup_cons.mp hq.nodup).2, fun x hx => hq.last x (by rw [List.getLast?_cons_cons]; exact hx)⟩

end Rules

end LinkedQueue
