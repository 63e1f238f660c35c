/-
  Wildcard — patterns over names that are split into levels at a separator.

  In a pattern, a level that is `one` alone stands for any one level, and a last level that is `many` alone
  for any number of further ones, none included. Every other level stands for itself.

  A scan of both strings stands either at the start of a level, where `Matches` says what is left to do, or
  inside levels that agree so far, where `Continues` does.

  Proved:
  - `matches_literal`, `matches_one`, `matches_many`: what the first symbol of a level in a pattern does.
  - `continues_…`:                                    the next symbols of both strings.
  - `wellPlaced_…`, `placedInside_…`: where a pattern may have its wildcards, from symbol to symbol.
-/
import Mathlib.Data.List.Basic
import Mathlib.Tactic.Common

namespace Wildcard

variable {α : Type} [DecidableEq α] (sep one many : α)

/-- The levels of a pattern match those of a name. -/
def LevelsMatch : List (List α) → List (List α) → Prop
  | [], ls => ls = []
  | p :: ps, [] => p = [many] ∧ ps = []
  | p :: ps, l :: ls => (p = [many] ∧ ps = []) ∨ ((p = [one] ∨ p = l) ∧ LevelsMatch ps ls)

instance : (ps ls : List (List α)) → Decidable (LevelsMatch one many ps ls)
  | [], ls => inferInstanceAs (Decidable (ls = []))
  | p :: ps, [] => inferInstanceAs (Decidable (p = [many] ∧ ps = []))
  | p :: ps, l :: ls =>
    have := instDecidableLevelsMatch ps ls
    inferInstanceAs (Decidable ((p = [many] ∧ ps = []) ∨ ((p = [one] ∨ p = l) ∧ LevelsMatch one many ps ls)))

def Matches (pattern name : List α) : Prop := LevelsMatch one many (pattern.splitOn sep) (name.splitOn sep)

instance (pattern name : List α) : Decidable (Matches sep one many pattern name) :=
  inferInstanceAs (Decidable (LevelsMatch one many _ _))

/-- What is left of the current levels agrees, and the levels after them match. -/
def Continues (pattern name : List α) : Prop :=
  (pattern.splitOn sep).head? = (name.splitOn sep).head? ∧
    LevelsMatch one many (pattern.splitOn sep).tail (name.splitOn sep).tail

/-! ## Splitting -/

section Split

variable {sep}

theorem splitOn_sep (s : List α) : (sep :: s).splitOn sep = [] :: s.splitOn sep := by
  simp [List.splitOn_cons_eq_if_modifyHead]

theorem splitOn_cons {c : α} (h : c ≠ sep) (s : List α) :
    (c :: s).splitOn sep = (s.splitOn sep).modifyHead (List.cons c) := by
  simp [List.splitOn_cons_eq_if_modifyHead, h]

variable (sep) in
theorem splitOn_exists (s : List α) : ∃ l ls, s.splitOn sep = l :: ls :=
  List.exists_cons_of_ne_nil (List.splitOn_ne_nil sep s)

/-- The level that a name begins with, and what comes after it. -/
theorem splitOn_dropWhile (s : List α) :
    (s.dropWhile (· ≠ sep)).splitOn sep = [] :: (s.splitOn sep).tail := by
  induction s with
  | nil => rfl
  | cons c s ih =>
    by_cases h : c = sep
    · subst h
      rw [List.dropWhile_cons_of_neg (by simp), splitOn_sep, List.tail_cons]
    · obtain ⟨l, ls, hs⟩ := splitOn_exists sep s
      rw [List.dropWhile_cons_of_pos (by simpa using h), ih, splitOn_cons h, hs]
      rfl

theorem eq_of_splitOn_singleton {s l : List α} (h : s.splitOn sep = [l]) : s = l := by
  induction s generalizing l with
  | nil => simpa using h
  | cons c s ih =>
    obtain ⟨k, ks, hs⟩ := splitOn_exists sep s
    by_cases hc : c = sep
    · subst hc
      simp [splitOn_sep, hs] at h
    · rw [splitOn_cons hc, hs] at h
      simp only [List.modifyHead_cons, List.cons.injEq] at h
      obtain ⟨rfl, rfl⟩ := h
      rw [ih hs]

end Split

/-! ## Inside a level -/

section Inside

variable {sep one many} {c d : α} {p n : List α}

theorem continues_sep : Continues sep one many (sep :: p) (sep :: n) ↔ Matches sep one many p n := by
  simp [Continues, Matches, splitOn_sep]

theorem continues_cons (h : c ≠ sep) : Continues sep one many (c :: p) (c :: n) ↔ Continues sep one many p n := by
  obtain ⟨l, ls, hp⟩ := splitOn_exists sep p
  obtain ⟨k, ks, hn⟩ := splitOn_exists sep n
  simp [Continues, splitOn_cons h, hp, hn]

theorem not_continues_ne (h : c ≠ d) : ¬ Continues sep one many (c :: p) (d :: n) := by
  obtain ⟨l, ls, hp⟩ := splitOn_exists sep p
  obtain ⟨k, ks, hn⟩ := splitOn_exists sep n
  intro hx
  obtain ⟨he, -⟩ := hx
  by_cases hc : c = sep
  · subst hc
    simp [splitOn_sep, splitOn_cons (Ne.symm h), hn] at he
  · by_cases hd : d = sep
    · subst hd
      simp [splitOn_sep, splitOn_cons hc, hp] at he
    · simp [splitOn_cons hc, splitOn_cons hd, hp, hn, h] at he

theorem not_continues_nil_left : ¬ Continues sep one many [] (d :: n) := by
  obtain ⟨k, ks, hn⟩ := splitOn_exists sep n
  intro hx
  obtain ⟨he, hl⟩ := hx
  by_cases hd : d = sep
  · subst hd
    have hnil : ([] : List α).splitOn d = [[]] := rfl
    simp [hnil, splitOn_sep, hn, LevelsMatch] at hl
  · have hnil : ([] : List α).splitOn sep = [[]] := rfl
    simp [hnil, splitOn_cons hd, hn] at he

theorem not_continues_nil_right (h : c ≠ sep) : ¬ Continues sep one many (c :: p) [] := by
  obtain ⟨l, ls, hp⟩ := splitOn_exists sep p
  have hnil : ([] : List α).splitOn sep = [[]] := rfl
  intro hx
  obtain ⟨he, -⟩ := hx
  simp [splitOn_cons h, hp, hnil] at he

/-- The name ends where the pattern goes on to another level: that must be the last one and `many`. -/
theorem continues_sep_nil (h : many ≠ sep) : Continues sep one many (sep :: p) [] ↔ p = [many] := by
  have hnil : ([] : List α).splitOn sep = [[]] := rfl
  obtain ⟨l, ls, hp⟩ := splitOn_exists sep p
  simp only [Continues, splitOn_sep, hnil, List.head?_cons, List.tail_cons, true_and, hp, LevelsMatch]
  constructor
  · intro hx
    obtain ⟨rfl, rfl⟩ := hx
    exact eq_of_splitOn_singleton hp
  · intro hx
    obtain rfl := hx
    rw [splitOn_cons h] at hp
    simpa using hp.symm

theorem continues_nil_nil : Continues sep one many [] [] := ⟨rfl, rfl⟩

end Inside

/-! ## At the start of a level -/

section Start

variable {sep one many} {c : α} {p n : List α}

theorem matches_nil : Matches sep one many [] n ↔ Continues sep one many [] n := by
  have hnil : ([] : List α).splitOn sep = [[]] := rfl
  obtain ⟨k, ks, hn⟩ := splitOn_exists sep n
  simp [Matches, Continues, hnil, hn, LevelsMatch]

/-- A level that does not begin with a wildcard stands for itself. -/
theorem matches_literal (h1 : c ≠ one) (h2 : c ≠ many) :
    Matches sep one many (c :: p) n ↔ Continues sep one many (c :: p) n := by
  obtain ⟨l, ls, hp⟩ := splitOn_exists sep p
  obtain ⟨k, ks, hn⟩ := splitOn_exists sep n
  by_cases hc : c = sep
  · subst hc
    simp [Matches, Continues, splitOn_sep, hp, hn, LevelsMatch]
  · simp [Matches, Continues, splitOn_cons hc, hp, hn, LevelsMatch, h1, h2]

/-- `one` takes a level of the name away. -/
theorem matches_one (h : one ≠ sep) (hm : one ≠ many) (hp : p = [] ∨ p.head? = some sep) :
    Matches sep one many (one :: p) n ↔ Continues sep one many p (n.dropWhile (· ≠ sep)) := by
  obtain ⟨k, ks, hn⟩ := splitOn_exists sep n
  have hlevel : ∃ ls, p.splitOn sep = [] :: ls := by
    rcases hp with rfl | hp
    · exact ⟨[], rfl⟩
    · obtain ⟨s, rfl⟩ : ∃ s, p = sep :: s := by
        cases p with
        | nil => simp at hp
        | cons c s => exact ⟨s, by simpa using hp⟩
      exact ⟨_, splitOn_sep s⟩
  obtain ⟨ls, hls⟩ := hlevel
  rw [Continues, splitOn_dropWhile, hls, hn]
  simp [Matches, splitOn_cons h, hls, hn, LevelsMatch, hm]

/-- `many` takes all that is left. -/
theorem matches_many (h : many ≠ sep) : Matches sep one many [many] n := by
  obtain ⟨k, ks, hn⟩ := splitOn_exists sep n
  have hnil : ([] : List α).splitOn sep = [[]] := rfl
  simp [Matches, splitOn_cons h, hnil, hn, LevelsMatch]

end Start

/-! ## Patterns -/

/-- Each level with a wildcard in it is that wildcard alone, and one with `many` is the last. -/
structure LevelsPlaced (ps : List (List α)) : Prop where
  one : ∀ p ∈ ps, one ∈ p → p = [one]
  many : ∀ before p after, ps = before ++ p :: after → many ∈ p → p = [many] ∧ after = []

def WellPlaced (pattern : List α) : Prop := LevelsPlaced one many (pattern.splitOn sep)

/-- What is left of the level has no wildcard, and the levels after it are well placed. -/
def PlacedInside (pattern : List α) : Prop :=
  (∀ l ∈ (pattern.splitOn sep).head?, one ∉ l ∧ many ∉ l) ∧ LevelsPlaced one many (pattern.splitOn sep).tail

section Patterns

variable {sep one many} {c : α} {p : List α}

omit [DecidableEq α] in
theorem levelsPlaced_nil : LevelsPlaced one many [] :=
  ⟨fun _ h => (List.not_mem_nil h).elim, fun before p after h => by simp at h⟩

omit [DecidableEq α] in
theorem levelsPlaced_cons {l : List α} {ls : List (List α)} : LevelsPlaced one many (l :: ls) ↔
    (one ∈ l → l = [one]) ∧ (many ∈ l → l = [many] ∧ ls = []) ∧ LevelsPlaced one many ls := by
  constructor
  · intro h
    refine ⟨h.one l (List.mem_cons_self ..), h.many [] l ls rfl,
      fun p hp => h.one p (List.mem_cons_of_mem _ hp), ?_⟩
    intro before p after hls
    exact h.many (l :: before) p after (by rw [hls]; rfl)
  · rintro ⟨h1, h2, h⟩
    refine ⟨List.forall_mem_cons.mpr ⟨h1, h.one⟩, ?_⟩
    intro before p after hls hm
    cases before with
    | nil =>
      obtain ⟨rfl, rfl⟩ := List.cons.inj hls
      exact h2 hm
    | cons b before =>
      obtain ⟨-, rfl⟩ := List.cons.inj hls
      exact h.many before p after rfl hm

theorem wellPlaced_nil : WellPlaced sep one many [] := by
  have hnil : ([] : List α).splitOn sep = [[]] := rfl
  simp [WellPlaced, hnil, levelsPlaced_cons, levelsPlaced_nil]

theorem placedInside_nil : PlacedInside sep one many [] := by
  have hnil : ([] : List α).splitOn sep = [[]] := rfl
  simp [PlacedInside, hnil, levelsPlaced_nil]

theorem wellPlaced_sep : WellPlaced sep one many (sep :: p) ↔ WellPlaced sep one many p := by
  simp [WellPlaced, splitOn_sep, levelsPlaced_cons]

theorem placedInside_sep : PlacedInside sep one many (sep :: p) ↔ WellPlaced sep one many p := by
  simp [PlacedInside, WellPlaced, splitOn_sep]

theorem placedInside_cons (h : c ≠ sep) :
    PlacedInside sep one many (c :: p) ↔ c ≠ one ∧ c ≠ many ∧ PlacedInside sep one many p := by
  obtain ⟨l, ls, hp⟩ := splitOn_exists sep p
  simp only [PlacedInside, splitOn_cons h, hp, List.modifyHead_cons, List.head?_cons,
    Option.mem_some_iff, forall_eq',
    List.mem_cons, not_or, List.tail_cons]
  tauto

/-- A level that begins with a literal has no wildcard. -/
theorem wellPlaced_literal (h : c ≠ sep) (h1 : c ≠ one) (h2 : c ≠ many) :
    WellPlaced sep one many (c :: p) ↔ PlacedInside sep one many p := by
  obtain ⟨l, ls, hp⟩ := splitOn_exists sep p
  simp only [WellPlaced, PlacedInside, splitOn_cons h, hp, List.modifyHead_cons, levelsPlaced_cons,
    List.head?_cons,
    Option.mem_some_iff, forall_eq', List.tail_cons, List.mem_cons, List.cons.injEq, h1, h2,
      Ne.symm h1, Ne.symm h2,
    false_and, false_or, imp_false, and_assoc]

/-- `one` is followed by the end or a separator. -/
theorem wellPlaced_one (h : one ≠ sep) (hm : one ≠ many) :
    WellPlaced sep one many (one :: p) ↔ (p = [] ∨ p.head? = some sep) ∧ PlacedInside sep one many p := by
  obtain ⟨l, ls, hp⟩ := splitOn_exists sep p
  have hl : l = [] ↔ p = [] ∨ p.head? = some sep := by
    cases p with
    | nil =>
      obtain ⟨rfl, -⟩ := List.cons.inj (show [[]] = l :: ls from hp)
      simp
    | cons c p =>
      by_cases hc : c = sep
      · subst hc
        rw [splitOn_sep] at hp
        obtain ⟨rfl, -⟩ := List.cons.inj hp
        simp
      · obtain ⟨k, ks, hk⟩ := splitOn_exists sep p
        rw [splitOn_cons hc, hk] at hp
        obtain ⟨rfl, -⟩ := List.cons.inj hp
        simp [hc]
  rw [← hl]
  simp only [WellPlaced, PlacedInside, splitOn_cons h, hp, List.modifyHead_cons, levelsPlaced_cons,
    List.head?_cons,
    Option.mem_some_iff, forall_eq', List.tail_cons, List.mem_cons, List.cons.injEq, true_or, true_and,
      forall_const,
    Ne.symm hm, false_or, hm, false_and, imp_false]
  constructor
  · rintro ⟨rfl, -, hls⟩
    exact ⟨rfl, by simp, hls⟩
  · rintro ⟨rfl, -, hls⟩
    exact ⟨rfl, by simp, hls⟩

/-- `many` is followed by the end. -/
theorem wellPlaced_many (h : many ≠ sep) (hm : one ≠ many) : WellPlaced sep one many (many :: p) ↔ p = [] := by
  obtain ⟨l, ls, hp⟩ := splitOn_exists sep p
  simp only [WellPlaced, splitOn_cons h, hp, List.modifyHead_cons, levelsPlaced_cons, List.mem_cons,
    List.cons.injEq,
    true_or, true_and, forall_const]
  constructor
  · rintro ⟨-, ⟨rfl, rfl⟩, -⟩
    exact eq_of_splitOn_singleton hp
  · rintro rfl
    obtain ⟨rfl, rfl⟩ := List.cons.inj (show [[]] = l :: ls from hp)
    exact ⟨by simp [hm], ⟨rfl, rfl⟩, levelsPlaced_nil⟩

end Patterns

end Wildcard
