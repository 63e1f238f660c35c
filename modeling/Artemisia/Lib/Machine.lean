/-
  Machine — runs of a partial step function, and the rules that carry a property over them.

  A system is a state type, an action type and `step : σ → α → Option σ`, where `none` says the
  action is not enabled. A guard `ok` on the action and the state before it restricts the runs.

  Proved:
  - `Reach.inv`:        what holds at first and is kept by every guarded step holds in every reached state.
  - `reach_of_map`:     a run that computes to something reaches a state that has it (concrete traces are then
                        evaluated).
  - `along_iff_meets`:  a property that each step keeps exactly when it meets its guard holds all along a
                        run exactly when every step of the run meets the guard.
  - `run_recorded`:     every run can be recorded.
-/
import Mathlib.Logic.Basic
import Mathlib.Tactic.Common

namespace Machine

variable {σ α : Type}

/-- The states a run reaches from an initial one, by enabled actions that meet the guard. -/
inductive Reach (step : σ → α → Option σ) (init : σ → Prop) (ok : σ → α → Prop) : σ → Prop where
  | init {s : σ} : init s → Reach step init ok s
  | step {s s' : σ} {a : α} : Reach step init ok s → ok s a → step s a = some s' → Reach step init ok s'

/-- The guard that lets every action through. -/
def anyAct : σ → α → Prop := fun _ _ => True

/-- The state after a list of actions, `none` if one of them is not enabled where it comes. -/
def run (step : σ → α → Option σ) : σ → List α → Option σ
  | s, [] => some s
  | s, a :: as => match step s a with
    | some s' => run step s' as
    | none => none

/-- Every action the list takes meets the guard in the state it is taken in. -/
def Meets (step : σ → α → Option σ) (ok : σ → α → Prop) : σ → List α → Prop
  | _, [] => True
  | s, a :: as => ∀ s', step s a = some s' → ok s a ∧ Meets step ok s' as

/-- The property holds in every state the list of actions goes through, the first one included. -/
def Along (step : σ → α → Option σ) (P : σ → Prop) : σ → List α → Prop
  | s, [] => P s
  | s, a :: as => P s ∧ ∀ s', step s a = some s' → Along step P s' as

instance decMeets {step : σ → α → Option σ} {ok : σ → α → Prop} [∀ s a, Decidable (ok s a)] :
    (s : σ) → (as : List α) → Decidable (Meets step ok s as)
  | _, [] => inferInstanceAs (Decidable True)
  | s, a :: as =>
    match h : step s a with
    | none => isTrue (by simp [Meets, h])
    | some s' =>
      have : Decidable (Meets step ok s' as) := decMeets s' as
      decidable_of_iff (ok s a ∧ Meets step ok s' as) (by simp [Meets, h])

section Rules

variable {step : σ → α → Option σ} {init : σ → Prop} {ok ok' : σ → α → Prop}

/-! ## Invariants -/

theorem Reach.inv {I : σ → Prop} (h0 : ∀ s, init s → I s)
    (hs : ∀ s a s', I s → ok s a → step s a = some s' → I s') {s : σ} (h : Reach step init ok s) : I s := by
  induction h with
  | init h => exact h0 _ h
  | step _ hok hst ih => exact hs _ _ _ ih hok hst

/-! ## Runs -/

theorem run_cons {s s' : σ} {a : α} {as : List α} (h : step s a = some s') :
    run step s (a :: as) = run step s' as := by simp [run, h]

theorem run_append {s s' : σ} {as bs : List α} (h : run step s as = some s') :
    run step s (as ++ bs) = run step s' bs := by
  induction as generalizing s with
  | nil =>
    simp only [run, Option.some.injEq] at h
    rw [h]
    rfl
  | cons a as ih =>
    cases hst : step s a with
    | none => simp [run, hst] at h
    | some t =>
      rw [run_cons hst] at h
      rw [List.cons_append, run_cons hst]
      exact ih h

/-- What holds along a run holds where it ends. -/
theorem Along.last {P : σ → Prop} {s s' : σ} {as : List α} (hp : Along step P s as)
    (h : run step s as = some s') : P s' := by
  induction as generalizing s with
  | nil =>
    simp only [run, Option.some.injEq] at h
    exact h ▸ hp
  | cons a as ih =>
    cases hst : step s a with
    | none => simp [run, hst] at h
    | some t =>
      rw [run_cons hst] at h
      exact ih (hp.2 t hst) h

theorem reach_of_run {s s' : σ} {as : List α} (hr : Reach step init ok s) (hm : Meets step ok s as)
    (h : run step s as = some s') : Reach step init ok s' := by
  induction as generalizing s with
  | nil => simp only [run, Option.some.injEq] at h; exact h ▸ hr
  | cons a as ih =>
    cases hst : step s a with
    | none => simp [run, hst] at h
    | some t =>
      rw [run_cons hst] at h
      exact ih (.step hr (hm t hst).1 hst) (hm t hst).2 h

theorem meets_any (s : σ) (as : List α) : Meets step anyAct s as := by
  induction as generalizing s with
  | nil => trivial
  | cons a as ih => exact fun s' _ => ⟨trivial, ih s'⟩

/-- A run that computes to something: the state it reaches has it. -/
theorem reach_of_map {β : Type} {f : σ → β} {b : β} {s : σ} {as : List α} (init : σ → Prop) (hi : init s)
    (hm : Meets step ok s as) (h : (run step s as).map f = some b) :
    ∃ s', run step s as = some s' ∧ Reach step init ok s' ∧ f s' = b := by
  obtain ⟨s', hs, hf⟩ := Option.map_eq_some_iff.mp h
  exact ⟨s', hs, reach_of_run (.init hi) hm hs, hf⟩

theorem reach_of_map_any {β : Type} {f : σ → β} {b : β} {s : σ} {as : List α} (init : σ → Prop) (hi : init s)
    (h : (run step s as).map f = some b) : ∃ s', Reach step init anyAct s' ∧ f s' = b := by
  obtain ⟨s', -, hr, hf⟩ := reach_of_map init hi (meets_any s as) h
  exact ⟨s', hr, hf⟩

/-! ## Guards that are exact -/

/-- If each step keeps the property exactly when it meets the guard, then over a run the property
    holds throughout exactly when every step meets the guard. -/
theorem along_iff_meets {J P : σ → Prop} (hJ : ∀ s a s', J s → step s a = some s' → J s')
    (hP : ∀ s a s', J s → P s → step s a = some s' → (P s' ↔ ok s a)) {s : σ} (as : List α) (hj : J s)
    (hp : P s) :
    Along step P s as ↔ Meets step ok s as := by
  induction as generalizing s with
  | nil => exact ⟨fun _ => trivial, fun _ => hp⟩
  | cons a as ih =>
    cases hst : step s a with
    | none => simp [Along, Meets, hst, hp]
    | some t =>
      have hJt := hJ s a t hj hst
      simp only [Along, Meets, hst, Option.some.injEq, forall_eq', hp, true_and]
      constructor
      · intro h
        have hPt : P t := by cases as with
          | nil => exact h
          | cons b bs => exact h.1
        exact ⟨(hP s a t hj hp hst).mp hPt, (ih hJt hPt).mp h⟩
      · intro hx
        obtain ⟨hok, hm⟩ := hx
        exact (ih hJt ((hP s a t hj hp hst).mpr hok)).mpr hm

end Rules

/-! ## Runs with a record

A property of a run that its states do not show is stated of a record that is kept beside them. -/

section Record

variable {η : Type} {step : σ → α → Option σ} {note : σ → α → σ → η → η} {init : σ → Prop} {ok : σ → α → Prop}

/-- The machine with a record beside its state: `note` is what a step makes of it. -/
def recorded (step : σ → α → Option σ) (note : σ → α → σ → η → η) (x : σ × η) (a : α) : Option (σ × η) :=
  (step x.1 a).map fun s => (s, note x.1 a s x.2)

theorem recorded_some {x y : σ × η} {a : α} :
    recorded step note x a = some y ↔ step x.1 a = some y.1 ∧ y.2 = note x.1 a y.1 x.2 := by
  unfold recorded
  rw [Option.map_eq_some_iff]
  constructor
  · intro h
    obtain ⟨s, hs, rfl⟩ := h
    exact ⟨hs, rfl⟩
  · intro h
    exact ⟨y.1, h.1, by rw [← h.2]⟩

theorem run_recorded (note : σ → α → σ → η → η) {s s' : σ} {as : List α} (r : η) (h : run step s as = some s') :
    ∃ r', run (recorded step note) (s, r) as = some (s', r') := by
  induction as generalizing s r with
  | nil =>
    simp only [run, Option.some.injEq] at h
    exact ⟨r, by rw [← h]; rfl⟩
  | cons a as ih =>
    cases hst : step s a with
    | none => simp [run, hst] at h
    | some t =>
      rw [run_cons hst] at h
      obtain ⟨r', hr⟩ := ih (note s a t r) h
      have hrec : recorded step note (s, r) a = some (t, note s a t r) := recorded_some.mpr ⟨hst, rfl⟩
      exact ⟨r', by rw [run_cons hrec, hr]⟩

end Record

end Machine
