/-
  Split — steps that are not atomic: a step loads a cell of the state at its beginning and stores it at
  its end, and other threads may take theirs in between.

  A machine `step` is given, with a cell and the actions that use it. In `turn` a thread may take such an
  action in two turns. All the rest of it happens with the store, with the cell as it was loaded, so that what the
  others have made of the cell meanwhile is lost. An action may also be taken whole, as in `step`.

  Proved:
  - `turn_steady`:  a turn that stores finds the cell as it was loaded, or a thread has changed it in
                    between; in the first case the turns are steps of the machine.
  - `reach_now`:    a run whose stores all find the cell as it was loaded is a run of the machine.
  - `reach_whole`:  every run of the machine is one of turns.
-/
import Artemisia.Lib.Machine
import Mathlib.Logic.Function.Basic

namespace Split

/-- A cell of the state, and the actions that load it and store it. -/
structure Cell (σ α τ γ : Type) where
  thread : α → τ
  splits : σ → α → Bool
  load : σ → γ
  store : σ → γ → σ
  store_load : ∀ s, store s (load s) = s

structure State (σ α τ γ : Type) where
  now : σ
  /-- The action that a thread has begun, and what it has loaded. -/
  begun : τ → Option (α × γ)

inductive Turn (α τ : Type) where
  | whole (a : α)
  | load (a : α)
  | store (t : τ)

/-- The action that takes place in a turn. -/
def Turn.taken {σ α τ γ : Type} (x : State σ α τ γ) : Turn α τ → Option α
  | .whole a => some a
  | .load _ => none
  | .store t => (x.begun t).map Prod.fst

section Turns

variable {σ α τ γ : Type} [DecidableEq τ]

def turn (cell : Cell σ α τ γ) (step : σ → α → Option σ) (x : State σ α τ γ) : Turn α τ → Option (State σ α τ γ)
  | .whole a => match x.begun (cell.thread a) with
    | none => (step x.now a).map fun s => { x with now := s }
    | some _ => none
  | .load a => match x.begun (cell.thread a) with
    | none =>
      if cell.splits x.now a ∧ (step x.now a).isSome then
        some { x with begun := Function.update x.begun (cell.thread a) (some (a, cell.load x.now)) }
      else none
    | some _ => none
  | .store t => match x.begun t with
    | some (a, v) => (step (cell.store x.now v) a).map fun s => ⟨s, Function.update x.begun t none⟩
    | none => none

/-- Nobody has changed the cell between the load and the store. -/
def Steady (cell : Cell σ α τ γ) (x : State σ α τ γ) : Turn α τ → Prop
  | .store t => ∀ b ∈ x.begun t, cell.load x.now = b.2
  | _ => True

instance (cell : Cell σ α τ γ) [DecidableEq γ] (x : State σ α τ γ) (e : Turn α τ) : Decidable (Steady cell x e) :=
  match e with
  | .store t => inferInstanceAs (Decidable (∀ b ∈ x.begun t, cell.load x.now = b.2))
  | .whole _ | .load _ => isTrue trivial

/-- At first no thread is in the middle of anything. -/
def Starts (init : σ → Prop) (x : State σ α τ γ) : Prop := init x.now ∧ x.begun = fun _ => none

/-- A guard for the machine, asked where an action takes place. -/
def Guarded (ok : σ → α → Prop) (x : State σ α τ γ) (e : Turn α τ) : Prop := ∀ a ∈ e.taken x, ok x.now a

instance (ok : σ → α → Prop) [∀ s a, Decidable (ok s a)] (x : State σ α τ γ) (e : Turn α τ) :
    Decidable (Guarded ok x e) := inferInstanceAs (Decidable (∀ a ∈ e.taken x, ok x.now a))

variable {cell : Cell σ α τ γ} {step : σ → α → Option σ} {init : σ → Prop} {ok : σ → α → Prop}
variable {x y : State σ α τ γ} {e : Turn α τ}

/-! ## One turn -/

/-- What a turn does. -/
inductive Turns (cell : Cell σ α τ γ) (step : σ → α → Option σ) (x : State σ α τ γ) : Turn α τ →
    State σ α τ γ → Prop
  | whole (a : α) (s : σ) : x.begun (cell.thread a) = none → step x.now a = some s →
      Turns cell step x (.whole a) { x with now := s }
  | load (a : α) : x.begun (cell.thread a) = none → cell.splits x.now a = true → (step x.now a).isSome →
      Turns cell step x (.load a)
        { x with begun := Function.update x.begun (cell.thread a) (some (a, cell.load x.now)) }
  | store (t : τ) (a : α) (v : γ) (s : σ) : x.begun t = some (a, v) → step (cell.store x.now v) a = some s →
      Turns cell step x (.store t) ⟨s, Function.update x.begun t none⟩

theorem turn_cases (h : turn cell step x e = some y) : Turns cell step x e y := by
  cases e with
  | whole a =>
    simp only [turn] at h
    split at h
    · rename_i hfree
      obtain ⟨s, hs, rfl⟩ := Option.map_eq_some_iff.mp h
      exact .whole a s hfree hs
    · cases h
  | load a =>
    simp only [turn] at h
    split at h
    · rename_i hfree
      split at h
      · rename_i hc
        cases h
        exact .load a hfree hc.1 hc.2
      · cases h
    · cases h
  | store t =>
    simp only [turn] at h
    split at h
    · rename_i a v hb
      obtain ⟨s, hs, rfl⟩ := Option.map_eq_some_iff.mp h
      exact .store t a v s hb hs
    · cases h

/-- A turn is a step of the machine, or it does nothing there. -/
theorem turn_steady (h : turn cell step x e = some y) (hg : Steady cell x e) :
    (e.taken x = none ∧ y.now = x.now) ∨ ∃ a, e.taken x = some a ∧ step x.now a = some y.now := by
  cases turn_cases h with
  | whole a s hfree hs => exact .inr ⟨a, rfl, hs⟩
  | load a hfree hc hs => exact .inl ⟨rfl, rfl⟩
  | store t a v s hb hs =>
    have hv : cell.load x.now = v := hg (a, v) hb
    rw [← hv, cell.store_load] at hs
    exact .inr ⟨a, by simp [Turn.taken, hb], hs⟩

/-! ## Runs -/

/-- A run in which every store finds what was loaded is a run of the machine. -/
theorem reach_now
    (h : Machine.Reach (turn cell step) (Starts init) (fun x e => Steady cell x e ∧ Guarded ok x e) x) :
    Machine.Reach step init ok x.now := by
  induction h with
  | init h => exact .init h.1
  | step _ hg hs ih =>
    rcases turn_steady hs hg.1 with ⟨-, e⟩ | ⟨a, ha, hs⟩
    · rw [e]
      exact ih
    · exact .step ih (hg.2 a ha) hs

/-- A run of the machine is one of turns, each action whole. -/
theorem reach_whole {good : State σ α τ γ → Turn α τ → Prop}
    (hgood : ∀ s a, ok s a → good ⟨s, fun _ => none⟩ (.whole a))
    {s : σ} (h : Machine.Reach step init ok s) :
    Machine.Reach (turn cell step) (Starts init) good ⟨s, fun _ => none⟩ := by
  induction h with
  | init h => exact .init ⟨h, rfl⟩
  | @step s s' a _ hok hs ih =>
    refine .step ih (hgood s a hok) ?_
    simp [turn, hs]

end Turns

end Split
