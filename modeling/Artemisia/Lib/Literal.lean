/-
  Artemisia.Lib.Literal — nested array literals, and joins that do not see the nesting.

  A type that a literal can be made of says what a list of its values is, by a function `join : List M → M`. A
  literal is a tree, and its value comes from the joins of all its lists. Where `join` is flat (one value is
  itself, and a join of joins is the join of what was joined), the value is that of the leaves in a row.

  Proved:
  - `Flat.value_eq`:     the value of a literal is the join of its leaves.
  - `Flat.value_congr`:  literals with the same leaves have the same value.
  - `Flat.nil_left` / `Flat.nil_right`: the empty join is a two-sided identity.
  - `flat_foldl`:        folding an associative operation with an identity is flat.
  - `flat_runEach` / `flat_runAll`: so is running effects one after the other.
-/
import Mathlib.Data.List.Basic

namespace Artemisia.Lib

inductive Literal (α : Type*) where
  | leaf (a : α)
  | array (elements : List (Literal α))

namespace Literal

variable {α M : Type*}

mutual

def leaves : Literal α → List α
  | leaf a => [a]
  | array elements => leavesAll elements

def leavesAll : List (Literal α) → List α
  | [] => []
  | e :: es => leaves e ++ leavesAll es

end

mutual

/-- The value of a literal, given those of leaves. -/
def value (f : α → M) (join : List M → M) : Literal α → M
  | leaf a => f a
  | array elements => join (values f join elements)

def values (f : α → M) (join : List M → M) : List (Literal α) → List M
  | [] => []
  | e :: es => value f join e :: values f join es

end

end Literal

/-! ## Flat joins -/

/-- The laws of a join that does not see how its argument was grouped. -/
structure Flat {M : Type*} (join : List M → M) : Prop where
  single : ∀ m, join [m] = m
  flatten : ∀ ls : List (List M), join (ls.map join) = join ls.flatten

namespace Flat

variable {α M : Type*} {join : List M → M}

theorem append (h : Flat join) (l k : List M) : join [join l, join k] = join (l ++ k) := by
  have hf := h.flatten [l, k]
  rw [List.flatten_cons, List.flatten_cons, List.flatten_nil, List.append_nil] at hf
  exact hf

theorem cons (h : Flat join) (m : M) (l : List M) : join [m, join l] = join (m :: l) := by
  have ha := h.append [m] l
  rw [h.single] at ha
  exact ha

theorem nil_left (h : Flat join) (m : M) : join [join [], m] = m := by
  have ha := h.append [] [m]
  rw [h.single, List.nil_append, h.single] at ha
  exact ha

theorem nil_right (h : Flat join) (m : M) : join [m, join []] = m := by
  rw [h.cons, h.single]

/-- A list's head and the rest may be joined apart. -/
theorem join_cons (h : Flat join) (l : List M) (ms : List M) : join (join l :: ms) = join (l ++ ms) := by
  calc join (join l :: ms) = join [join l, join ms] := (h.cons _ _).symm
    _ = join (l ++ ms) := h.append l ms

mutual

/-- The value of a literal is that of its leaves in a row. -/
theorem value_eq (h : Flat join) (f : α → M) : ∀ t : Literal α, t.value f join = join (t.leaves.map f)
  | .leaf a => by
    rw [Literal.value, Literal.leaves, List.map_cons, List.map_nil, h.single]
  | .array elements => by
    rw [Literal.value, Literal.leaves, values_eq h f elements]

theorem values_eq (h : Flat join) (f : α → M) :
    ∀ es : List (Literal α), join (Literal.values f join es) = join ((Literal.leavesAll es).map f)
  | [] => rfl
  | e :: es => by
    have he := value_eq h f e
    have hes := values_eq h f es
    rw [Literal.values, Literal.leavesAll, List.map_append, he, h.join_cons, ← h.append, hes, h.append]

end

theorem value_congr (h : Flat join) (f : α → M) {t u : Literal α} (hl : t.leaves = u.leaves) :
    t.value f join = u.value f join := by
  rw [h.value_eq, h.value_eq, hl]

/-! ## What is flat -/

/-- A part of a value that is joined by itself. -/
theorem flatten_part {N : Type*} {joinPart : List N → N} (h : Flat joinPart) {part : M → N}
    (hp : ∀ l, part (join l) = joinPart (l.map part)) (ls : List (List M)) :
    part (join (ls.map join)) = part (join ls.flatten) := by
  have hparts : (ls.map join).map part = (ls.map (List.map part)).map joinPart := by
    rw [List.map_map, List.map_map]
    exact List.map_congr_left (fun l _ => hp l)
  rw [hp, hp, hparts, h.flatten, List.map_flatten]

theorem single_part {N : Type*} {joinPart : List N → N} (h : Flat joinPart) {part : M → N}
    (hp : ∀ l, part (join l) = joinPart (l.map part)) (m : M) : part (join [m]) = part m := by
  rw [hp, List.map_cons, List.map_nil, h.single]

end Flat

section Folds

variable {M : Type*}

/-- A fold may begin anywhere. -/
theorem foldl_from (op : M → M → M) (one : M) [Std.Associative op] [Std.LawfulIdentity op one] (m : M)
    (l : List M) :
    l.foldl op m = op m (l.foldl op one) := by
  have hone : op m one = m := Std.LawfulRightIdentity.right_id m
  have hassoc : l.foldl op (op m one) = op m (l.foldl op one) := List.foldl_assoc
  rw [← hassoc, hone]

/-- Folding an associative operation from its identity. -/
theorem flat_foldl (op : M → M → M) (one : M) [Std.Associative op] [Std.LawfulIdentity op one] :
    Flat (List.foldl op one) where
  single m := Std.LawfulLeftIdentity.left_id m
  flatten ls := by
    induction ls with
    | nil => rfl
    | cons l ls ih =>
      have hone : op one (l.foldl op one) = l.foldl op one := Std.LawfulLeftIdentity.left_id _
      rw [List.map_cons, List.foldl_cons, hone, List.flatten_cons, List.foldl_append, foldl_from op one, ih,
        ← foldl_from op one]

/-- Effects on a state, one after the other. -/
def runEach {σ : Type*} (es : List (σ → σ)) (s : σ) : σ := es.foldl (fun s e => e s) s

theorem flat_runEach (σ : Type*) : Flat (runEach (σ := σ)) where
  single _ := rfl
  flatten ls := by
    induction ls with
    | nil => rfl
    | cons l ls ih =>
      funext s
      have happend : runEach (l ++ ls.flatten) s = runEach ls.flatten (runEach l s) := List.foldl_append
      rw [List.flatten_cons, happend, ← ih]
      rfl

/-- Effects on a state that may fail, one after the other. -/
def runAll {σ : Type*} (es : List (σ → Option σ)) (s : σ) : Option σ := es.foldlM (fun s e => e s) s

theorem runAll_append {σ : Type*} (es fs : List (σ → Option σ)) (s : σ) :
    runAll (es ++ fs) s = (runAll es s).bind (runAll fs) := List.foldlM_append

theorem flat_runAll (σ : Type*) : Flat (runAll (σ := σ)) where
  single e := by
    funext s
    exact bind_pure (e s)
  flatten ls := by
    induction ls with
    | nil => rfl
    | cons l ls ih =>
      funext s
      rw [List.flatten_cons, runAll_append, ← ih]
      rfl

end Folds

end Artemisia.Lib
