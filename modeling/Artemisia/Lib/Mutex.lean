/-
  Mutex — threads that take mutexes and give them back, and use the variables that the mutexes are there for.

  Of a program there is only what it does with the mutexes and the variables. What its branches test is left
  open, and how often it goes round a loop. A mutex that a thread gives back without having it is free afterwards;
  `foul` says so.

  The rules of a program are an order of the mutexes, and which mutex a variable is used under. A mutex
  that is not `strict` may be given back by who does not have it.

  Proved:
  - `follows_of_reach`:  threads whose programs keep to the rules keep to them in every interleaving.
  - `no_deadlock`:       who waits for a mutex waits, in the end, for a thread that can go on.
  - `exclusive`:         no two of them use a variable at the same time, if it has a strict mutex.
-/
import Artemisia.Lib.Machine
import Mathlib.Logic.Function.Basic
import Mathlib.Logic.Relation

namespace Mutex

variable {T L V : Type} [DecidableEq T] [DecidableEq L]

inductive Code (L V : Type) where
  | skip
  | lock (l : L)
  | unlock (l : L)
  | use (v : V)
  | seq (a b : Code L V)
  | alt (a b : Code L V)
  | loop (a : Code L V)
  deriving DecidableEq

namespace Code

def seqs : List (Code L V) → Code L V
  | [] => skip
  | a :: l => seq a (seqs l)

def alts : List (Code L V) → Code L V
  | [] => skip
  | [a] => a
  | a :: b :: l => alt a (alts (b :: l))

/-- It is done, or it is not. -/
def opt (l : List (Code L V)) : Code L V := alt skip (seqs l)

def locked (m : L) (l : List (Code L V)) : Code L V := seq (lock m) (seq (seqs l) (unlock m))

end Code

/-! ## Threads -/

structure Config (T L V : Type) where
  /-- What each thread has left to do. -/
  todo : T → List (Code L V)
  owner : L → Option T
  /-- It has been given back by a thread that did not have it. -/
  foul : L → Bool

def Config.start (program : T → Code L V) : Config T L V := ⟨fun t => [program t], fun _ => none, fun _ => false⟩

def Config.goes (c : Config T L V) (t : T) (k : List (Code L V)) : Config T L V :=
  { c with todo := Function.update c.todo t k }

/-- A thread does its next step; the choice is which way it goes, where there are two. -/
def step (c : Config T L V) (x : T × Bool) : Option (Config T L V) :=
  match c.todo x.1 with
  | [] => none
  | .skip :: k => some (c.goes x.1 k)
  | .use _ :: k => some (c.goes x.1 k)
  | .seq a b :: k => some (c.goes x.1 (a :: b :: k))
  | .alt a b :: k => some (c.goes x.1 ((if x.2 then b else a) :: k))
  | .loop a :: k => some (c.goes x.1 (if x.2 then a :: .loop a :: k else k))
  | .lock l :: k =>
    if c.owner l = none then some { c.goes x.1 k with owner := Function.update c.owner l (some x.1) } else none
  | .unlock l :: k =>
    some { c.goes x.1 k with owner := Function.update c.owner l none
                             foul := Function.update c.foul l (c.foul l || c.owner l ≠ some x.1) }

def Config.Uses (c : Config T L V) (t : T) (v : V) : Prop := (c.todo t).head? = some (.use v)

def Config.WaitsFor (c : Config T L V) (t : T) (l : L) : Prop := (c.todo t).head? = some (.lock l)

/-- The thread waits for a mutex that the other one has. -/
def Config.Awaits (c : Config T L V) (t u : T) : Prop := ∃ l, c.WaitsFor t l ∧ c.owner l = some u

/-! ## The rules -/

structure Rules (L V : Type) where
  /-- The order in which the mutexes are taken. -/
  rank : L → Nat
  /-- The mutex that the variable is used under. -/
  guard : V → Option L
  strict : L → Bool

variable (r : Rules L V)

/-- What a thread has after its program, from what it has before; `none` where the program breaks the rules. -/
def Code.after : Code L V → List L → Option (List L)
  | .skip, held => some held
  | .lock l, held => if ∀ m ∈ held, r.rank m < r.rank l then some (l :: held) else none
  | .unlock l, held => if r.strict l ∧ l ∉ held then none else some (held.filter (· ≠ l))
  | .use v, held => if ∀ l ∈ r.guard v, r.strict l → l ∈ held then some held else none
  | .seq a b, held => (after a held).bind (after b)
  | .alt a b, held => if after a held = after b held then after a held else none
  | .loop a, held => if after a held = some held then some held else none

def afterAll : List (Code L V) → List L → Option (List L)
  | [], held => some held
  | a :: k, held => (a.after r held).bind (afterAll k)

/-- A thread that runs the program keeps to the rules, and has nothing in the end. -/
def Code.Keeps (a : Code L V) : Prop := a.after r [] = some []

instance (a : Code L V) : Decidable (a.Keeps r) := inferInstanceAs (Decidable (_ = _))

/-- Each thread has what its program says it has. -/
structure Follows (c : Config T L V) (held : T → List L) : Prop where
  code : ∀ t, afterAll r (c.todo t) (held t) = some []
  owned : ∀ t l, c.owner l = some t → l ∈ held t
  kept : ∀ t l, r.strict l = true → l ∈ held t → c.owner l = some t
  clean : ∀ l, r.strict l = true → c.foul l = false

variable {r}

/-! ## One step -/

section Step

variable {c c' : Config T L V} {held : T → List L} {t u : T} {k : List (Code L V)} {l : L} {v : V}

theorem afterAll_cons {a : Code L V} {h h' : List L} (e : afterAll r (a :: k) h = some h') :
    ∃ h1, a.after r h = some h1 ∧ afterAll r k h1 = some h' := Option.bind_eq_some_iff.mp e

/-- A step that leaves the mutexes alone. -/
theorem Follows.goes (hf : Follows r c held) (hk : afterAll r k (held t) = some []) :
    Follows r (c.goes t k) held where
  code := by
    intro u
    by_cases hu : u = t
    · subst hu
      simpa [Config.goes] using hk
    · simpa [Config.goes, hu] using hf.code u
  owned := hf.owned
  kept := hf.kept
  clean := hf.clean

theorem Follows.lock (hf : Follows r c held) (ht : c.todo t = .lock l :: k) (hfree : c.owner l = none) :
    Follows r { c.goes t k with owner := Function.update c.owner l (some t) }
      (Function.update held t (l :: held t)) where
  code := by
    intro u
    by_cases hu : u = t
    · subst hu
      have hcode := hf.code u
      rw [ht] at hcode
      obtain ⟨h1, hlock, hk⟩ := afterAll_cons hcode
      simp only [Code.after, Option.ite_none_right_eq_some, Option.some.injEq] at hlock
      simpa [Config.goes, hlock.2] using hk
    · simpa [Config.goes, hu] using hf.code u
  owned := by
    intro u m hm
    have hm : Function.update c.owner l (some t) m = some u := hm
    by_cases hml : m = l
    · subst hml
      rw [Function.update_self] at hm
      cases hm
      simp
    · rw [Function.update_of_ne hml] at hm
      have hin := hf.owned u m hm
      by_cases hu : u = t
      · subst hu
        simp [hin]
      · simpa [hu] using hin
  kept := by
    intro u m hs hm
    show Function.update c.owner l (some t) m = some u
    have hother (hin : m ∈ held u) : Function.update c.owner l (some t) m = some u := by
      have howner := hf.kept u m hs hin
      have hml : m ≠ l := by
        rintro rfl
        rw [hfree] at howner
        cases howner
      rw [Function.update_of_ne hml, howner]
    by_cases hu : u = t
    · subst hu
      rw [Function.update_self] at hm
      rcases List.mem_cons.mp hm with rfl | hm
      · simp
      · exact hother hm
    · rw [Function.update_of_ne hu] at hm
      exact hother hm
  clean := hf.clean

theorem Follows.unlock (hf : Follows r c held) (ht : c.todo t = .unlock l :: k) :
    Follows r { c.goes t k with owner := Function.update c.owner l none
                                foul := Function.update c.foul l (c.foul l || c.owner l ≠ some t) }
      (Function.update held t ((held t).filter (· ≠ l))) := by
  have hcode := hf.code t
  rw [ht] at hcode
  obtain ⟨h1, hunlock, hk⟩ := afterAll_cons hcode
  simp only [Code.after, Option.ite_none_left_eq_some, Option.some.injEq] at hunlock
  obtain ⟨hmay, rfl⟩ := hunlock
  have hmine : r.strict l = true → c.owner l = some t := by
    intro hs
    by_contra hno
    exact hmay ⟨hs, fun hin => hno (hf.kept t l hs hin)⟩
  refine ⟨?_, ?_, ?_, ?_⟩
  · intro u
    by_cases hu : u = t
    · subst hu
      simpa [Config.goes] using hk
    · simpa [Config.goes, hu] using hf.code u
  · intro u m hm
    have hm : Function.update c.owner l none m = some u := hm
    have hml : m ≠ l := by
      rintro rfl
      rw [Function.update_self] at hm
      cases hm
    rw [Function.update_of_ne hml] at hm
    have hin := hf.owned u m hm
    by_cases hu : u = t
    · subst hu
      simp [hin, hml]
    · simpa [hu] using hin
  · intro u m hs hm
    show Function.update c.owner l none m = some u
    by_cases hu : u = t
    · subst hu
      rw [Function.update_self, List.mem_filter] at hm
      have hml : m ≠ l := by simpa using hm.2
      rw [Function.update_of_ne hml]
      exact hf.kept u m hs hm.1
    · rw [Function.update_of_ne hu] at hm
      have howner := hf.kept u m hs hm
      have hml : m ≠ l := by
        rintro rfl
        rw [hmine hs] at howner
        exact hu (Option.some.inj howner).symm
      rw [Function.update_of_ne hml, howner]
  · intro m hs
    show Function.update c.foul l (c.foul l || c.owner l ≠ some t) m = false
    by_cases hml : m = l
    · subst hml
      simp [hf.clean m hs, hmine hs]
    · rw [Function.update_of_ne hml]
      exact hf.clean m hs

theorem follows_step {x : T × Bool} (hf : Follows r c held) (hs : step c x = some c') :
    ∃ held', Follows r c' held' := by
  obtain ⟨t, choice⟩ := x
  have hcode := hf.code t
  unfold step at hs
  dsimp only at hs
  split at hs
  · cases hs
  · rename_i k ht
    cases hs
    rw [ht] at hcode
    exact ⟨held, hf.goes hcode⟩
  · rename_i v k ht
    cases hs
    rw [ht] at hcode
    obtain ⟨h1, huse, hk⟩ := afterAll_cons hcode
    simp only [Code.after, Option.ite_none_right_eq_some, Option.some.injEq] at huse
    exact ⟨held, hf.goes (huse.2 ▸ hk)⟩
  · rename_i a b k ht
    cases hs
    rw [ht] at hcode
    refine ⟨held, hf.goes ?_⟩
    simpa [afterAll, Code.after, Option.bind_assoc] using hcode
  · rename_i a b k ht
    cases hs
    rw [ht] at hcode
    obtain ⟨h1, halt, hk⟩ := afterAll_cons hcode
    simp only [Code.after, Option.ite_none_right_eq_some] at halt
    obtain ⟨hsame, ha⟩ := halt
    refine ⟨held, hf.goes (Option.bind_eq_some_iff.mpr ⟨h1, ?_, hk⟩)⟩
    split
    · rw [← hsame, ha]
    · exact ha
  · rename_i a k ht
    cases hs
    rw [ht] at hcode
    obtain ⟨h1, hloop, hk⟩ := afterAll_cons hcode
    simp only [Code.after, Option.ite_none_right_eq_some, Option.some.injEq] at hloop
    obtain ⟨hround, rfl⟩ := hloop
    refine ⟨held, hf.goes ?_⟩
    split
    · refine Option.bind_eq_some_iff.mpr ⟨held t, hround, Option.bind_eq_some_iff.mpr ⟨held t, ?_, hk⟩⟩
      exact if_pos hround
    · exact hk
  · rename_i l k ht
    split at hs
    · rename_i hfree
      cases hs
      exact ⟨_, hf.lock ht hfree⟩
    · cases hs
  · rename_i l k ht
    cases hs
    exact ⟨_, hf.unlock ht⟩

end Step

/-! ## Runs -/

section Runs

variable {c : Config T L V} {held : T → List L} {program : T → Code L V}

theorem follows_of_reach (hp : ∀ t, (program t).Keeps r) {ok : Config T L V → T × Bool → Prop}
    (h : Machine.Reach step (· = Config.start program) ok c) : ∃ held, Follows r c held := by
  refine h.inv (I := fun c => ∃ held, Follows r c held) ?_ ?_
  · rintro c rfl
    refine ⟨fun _ => [], fun t => ?_, fun t l hl => ?_, fun t l _ hl => ?_, fun _ _ => rfl⟩
    · exact Option.bind_eq_some_iff.mpr ⟨[], hp t, rfl⟩
    · cases hl
    · cases hl
  · intro c x c' hc _ hs
    obtain ⟨held, hf⟩ := hc
    exact follows_step hf hs

omit [DecidableEq T] in
/-- What a thread has comes before what it waits for. -/
theorem Follows.before (hf : Follows r c held) {t : T} {l m : L} (hw : c.WaitsFor t l) (hm : m ∈ held t) :
    r.rank m < r.rank l := by
  have hcode := hf.code t
  obtain ⟨k, hk⟩ := List.head?_eq_some_iff.mp hw
  rw [hk] at hcode
  obtain ⟨h1, hlock, -⟩ := afterAll_cons hcode
  simp only [Code.after, Option.ite_none_right_eq_some] at hlock
  exact hlock.1 m hm

omit [DecidableEq T] in
/-- A thread that has something is not done. -/
theorem Follows.busy (hf : Follows r c held) {t : T} {l : L} (ho : c.owner l = some t) : c.todo t ≠ [] := by
  intro hdone
  have hcode := hf.code t
  rw [hdone] at hcode
  have hmem := hf.owned t l ho
  rw [Option.some.inj hcode] at hmem
  cases hmem

/-- A thread that is not done goes on, unless it waits for a mutex that somebody has. -/
theorem goes_of_free {t : T} (ht : c.todo t ≠ []) (hfree : ∀ l, c.WaitsFor t l → c.owner l = none)
    (choice : Bool) :
    ∃ c', step c (t, choice) = some c' := by
  obtain ⟨a, k, hk⟩ := List.exists_cons_of_ne_nil ht
  unfold step
  dsimp only
  rw [hk]
  cases a with
  | lock l =>
    have hl : c.owner l = none := hfree l (by simp [Config.WaitsFor, hk])
    simp [hl]
  | _ => exact ⟨_, rfl⟩

/-- Who waits for a mutex waits, in the end, for a thread that can go on. -/
theorem no_deadlock (hf : Follows r c held) {bound : Nat} (hb : ∀ l, r.rank l ≤ bound) {t : T}
    (ht : c.todo t ≠ [])
    (choice : Bool) : ∃ u, Relation.ReflTransGen c.Awaits t u ∧ ∃ c', step c (u, choice) = some c' := by
  -- each mutex that is waited for comes after the one before
  have hchain (n : Nat) : ∀ t l, c.WaitsFor t l → bound - r.rank l = n →
      ∃ u, Relation.ReflTransGen c.Awaits t u ∧ ∃ c', step c (u, choice) = some c' := by
    induction n using Nat.strongRecOn with
    | _ n ih =>
      intro t l hw hn
      cases ho : c.owner l with
      | none =>
        refine ⟨t, .refl, goes_of_free ?_ ?_ choice⟩
        · intro hdone
          rw [Config.WaitsFor, hdone] at hw
          cases hw
        · intro m hm
          rw [Config.WaitsFor, hw] at hm
          cases hm
          exact ho
      | some u =>
        have hu : c.Awaits t u := ⟨l, hw, ho⟩
        by_cases hwu : ∃ m, c.WaitsFor u m
        · obtain ⟨m, hm⟩ := hwu
          have hlt : r.rank l < r.rank m := hf.before hm (hf.owned u l ho)
          have hle := hb m
          obtain ⟨w, hw, hgo⟩ := ih (bound - r.rank m) (by omega) u m hm rfl
          exact ⟨w, .head hu hw, hgo⟩
        · exact ⟨u, .single hu, goes_of_free (hf.busy ho) (fun m hm => absurd ⟨m, hm⟩ hwu) choice⟩
  by_cases hw : ∃ l, c.WaitsFor t l
  · obtain ⟨l, hl⟩ := hw
    exact hchain _ t l hl rfl
  · exact ⟨t, .refl, goes_of_free ht (fun l hl => absurd ⟨l, hl⟩ hw) choice⟩

omit [DecidableEq T] in
theorem Follows.has (hf : Follows r c held) {t : T} {v : V} {l : L} (hg : r.guard v = some l)
    (hs : r.strict l = true)
    (hu : c.Uses t v) : c.owner l = some t := by
  have hcode := hf.code t
  obtain ⟨k, hk⟩ := List.head?_eq_some_iff.mp hu
  rw [hk] at hcode
  obtain ⟨h1, huse, -⟩ := afterAll_cons hcode
  simp only [Code.after, Option.ite_none_right_eq_some] at huse
  exact hf.kept t l hs (huse.1 l hg hs)

omit [DecidableEq T] in
/-- Two threads that use the same variable are one. -/
theorem exclusive (hf : Follows r c held) {t u : T} {v : V} {l : L} (hg : r.guard v = some l)
    (hs : r.strict l = true)
    (ht : c.Uses t v) (hu : c.Uses u v) : t = u := by
  have hhas := hf.has hg hs ht
  rw [hf.has hg hs hu] at hhas
  exact (Option.some.inj hhas).symm

end Runs

end Mutex
