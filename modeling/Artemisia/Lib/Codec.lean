/-
  Codec — readers that take a value off the front of a list, and the writers they undo.

  A reader gives a value and what is left of the list, or an error. It reads a writer on a domain of values when
  it takes back what the writer has put there, whatever follows, and accepts nothing else. So each value has
  one spelling, and no spelling runs into what comes after it.

  Proved:
  - `Reads.congr`: another reader and another writer that do the same.
  - `Reads.seq`:   one value after the other; `Reads.map`: the same spellings for other values.
  - `Reads.toEnd`: values up to the end of the list, and `Reads.ofEnd`: nothing else is read to the end.
-/
import Mathlib.Logic.Basic
import Mathlib.Tactic.Common

namespace Codec

variable {ε α β γ : Type}

/-- Values are read until nothing is left; `tooLong` is the error when there are more than `fuel` of them. -/
def readToEnd (tooLong : ε) (read : List β → Except ε (α × List β)) : Nat → List β → Except ε (List α)
  | _, [] => .ok []
  | 0, _ :: _ => .error tooLong
  | fuel + 1, s@(_ :: _) => do
    let (a, s) ← read s
    let l ← readToEnd tooLong read fuel s
    .ok (a :: l)

structure Reads (read : List β → Except ε (α × List β)) (write : α → List β) (dom : α → Prop) : Prop where
  round : ∀ {a : α} (s : List β), dom a → read (write a ++ s) = .ok (a, s)
  only : ∀ {s rest : List β} {a : α}, read s = .ok (a, rest) → dom a ∧ s = write a ++ rest

section Rules

variable {read : List β → Except ε (α × List β)} {write : α → List β} {dom : α → Prop}

/-- A reader with the same answers, and a writer with the same spellings. -/
theorem Reads.congr (h : Reads read write dom) {read' : List β → Except ε (α × List β)} {write' : α → List β}
    (hr : ∀ s, read' s = read s) (hw : ∀ a, dom a → write' a = write a) : Reads read' write' dom where
  round := by
    intro a s ha
    rw [hr, hw a ha]
    exact h.round s ha
  only := by
    intro s rest a he
    rw [hr] at he
    obtain ⟨ha, hs⟩ := h.only he
    exact ⟨ha, by rw [hw a ha, hs]⟩

/-- A value, and then one whose reader may depend on it. -/
theorem Reads.seq (h : Reads read write dom) {next : α → List β → Except ε (γ × List β)} {write' : α → γ → List β}
    {dom' : α → γ → Prop} (h' : ∀ a, dom a → Reads (next a) (write' a) (dom' a)) :
    Reads (fun s => do let (a, s) ← read s; let (c, s) ← next a s; .ok ((a, c), s))
      (fun p => write p.1 ++ write' p.1 p.2) (fun p => dom p.1 ∧ dom' p.1 p.2) where
  round := by
    rintro ⟨a, c⟩ s ⟨ha, hc⟩
    simp only [List.append_assoc, h.round _ ha, (h' a ha).round s hc, bind, Except.bind]
  only := by
    rintro s rest ⟨a, c⟩ he
    cases hr : read s with
    | error e => simp [hr, bind, Except.bind] at he
    | ok r =>
      obtain ⟨a', s'⟩ := r
      cases hn : next a' s' with
      | error e => simp [hr, hn, bind, Except.bind] at he
      | ok q =>
        obtain ⟨c', s''⟩ := q
        simp only [hr, hn, bind, Except.bind, Except.ok.injEq, Prod.mk.injEq] at he
        obtain ⟨⟨rfl, rfl⟩, rfl⟩ := he
        obtain ⟨ha, rfl⟩ := h.only hr
        obtain ⟨hc, rfl⟩ := (h' _ ha).only hn
        exact ⟨⟨ha, hc⟩, (List.append_assoc ..).symm⟩

/-- The values are written down in another way; `back` undoes `f` on the domain. -/
theorem Reads.map (h : Reads read write dom) (f : α → γ) (back : γ → α) (hback : ∀ a, dom a → back (f a) = a)
    {dom' : γ → Prop} (hdom : ∀ c, dom' c ↔ dom (back c) ∧ f (back c) = c) :
    Reads (fun s => do let (a, s) ← read s; .ok (f a, s)) (fun c => write (back c)) dom' where
  round := by
    intro c s hc
    obtain ⟨ha, hf⟩ := (hdom c).mp hc
    simp only [h.round s ha, bind, Except.bind, hf]
  only := by
    intro s rest c he
    cases hr : read s with
    | error e => simp [hr, bind, Except.bind] at he
    | ok r =>
      obtain ⟨a, s'⟩ := r
      simp only [hr, bind, Except.bind, Except.ok.injEq, Prod.mk.injEq] at he
      obtain ⟨rfl, rfl⟩ := he
      obtain ⟨ha, rfl⟩ := h.only hr
      exact ⟨(hdom _).mpr (by rw [hback a ha]; exact ⟨ha, rfl⟩), by rw [hback a ha]⟩

/-- Each value takes up room, so there are no more of them than there are symbols. -/
theorem Reads.toEnd (h : Reads read write dom) (hne : ∀ a, dom a → write a ≠ []) (tooLong : ε) {l : List α}
    (hl : ∀ a ∈ l, dom a) {fuel : Nat} (hfuel : (l.flatMap write).length ≤ fuel) :
    readToEnd tooLong read fuel (l.flatMap write) = .ok l := by
  induction l generalizing fuel with
  | nil => cases fuel <;> rfl
  | cons a l ih =>
    obtain ⟨ha, hrest⟩ := List.forall_mem_cons.mp hl
    obtain ⟨b, t, hb⟩ := List.exists_cons_of_ne_nil (hne a ha)
    have hs : (a :: l).flatMap write = b :: (t ++ l.flatMap write) := by
      rw [List.flatMap_cons, hb, List.cons_append]
    rw [hs, List.length_cons] at hfuel
    obtain ⟨n, rfl⟩ : ∃ n, fuel = n + 1 := ⟨fuel - 1, by omega⟩
    have hread : read (b :: (t ++ l.flatMap write)) = .ok (a, l.flatMap write) := by
      rw [← List.cons_append, ← hb]
      exact h.round _ ha
    rw [List.length_append] at hfuel
    simp only [hs, readToEnd, hread, bind, Except.bind, ih hrest (show (l.flatMap write).length ≤ n by omega)]

theorem Reads.ofEnd (h : Reads read write dom) {tooLong : ε} {fuel : Nat} {s : List β} {l : List α}
    (hs : readToEnd tooLong read fuel s = .ok l) : (∀ a ∈ l, dom a) ∧ s = l.flatMap write := by
  induction fuel generalizing s l with
  | zero =>
    cases s with
    | nil =>
      obtain rfl := Except.ok.inj hs
      exact ⟨by simp, rfl⟩
    | cons b s => cases hs
  | succ fuel ih =>
    cases s with
    | nil =>
      obtain rfl := Except.ok.inj hs
      exact ⟨by simp, rfl⟩
    | cons b s =>
      cases hr : read (b :: s) with
      | error e => simp [readToEnd, hr, bind, Except.bind] at hs
      | ok r =>
        obtain ⟨a, rest⟩ := r
        cases hn : readToEnd tooLong read fuel rest with
        | error e => simp [readToEnd, hr, hn, bind, Except.bind] at hs
        | ok q =>
          simp only [readToEnd, hr, hn, bind, Except.bind, Except.ok.injEq] at hs
          obtain rfl := hs
          obtain ⟨ha, hs⟩ := h.only hr
          obtain ⟨hq, rfl⟩ := ih hn
          exact ⟨List.forall_mem_cons.mpr ⟨ha, hq⟩, by rw [hs, List.flatMap_cons]⟩

end Rules

end Codec
