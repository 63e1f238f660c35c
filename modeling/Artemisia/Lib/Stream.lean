/-
  Stream — frames one after the other on a stream of symbols, and decoders that take a symbol at a time.

  `enc` is how a frame is spelled. A decoder is a step function on states; between two frames it rests,
  unless it has stopped for good, and `out` is what it has given out so far.

  Proved:
  - `Decodes.complete`:  of any beginning of the stream a decoder gives out the frames that it has whole, or it
                         has stopped on the way and has given out the first of them.
  - `Decodes.quiet_anywhere`: what holds inside each frame holds wherever the stream is cut.
-/
import Mathlib.Data.List.Basic
import Mathlib.Tactic.Common

namespace Stream

variable {α β γ σ : Type}

/-! ## Frames -/

section Frames

variable (enc : α → List β)

/-- The symbols of the frames. -/
def wire (l : List α) : List β := l.flatMap enc

/-- The frames that the first `n` symbols have whole. -/
def complete : Nat → List α → List α
  | _, [] => []
  | n, a :: l => if (enc a).length ≤ n then a :: complete (n - (enc a).length) l else []

theorem wire_cons (a : α) (l : List α) : wire enc (a :: l) = enc a ++ wire enc l := rfl

theorem complete_comesFirst (n : Nat) (l : List α) : complete enc n l <+: l := by
  induction l generalizing n with
  | nil => exact List.prefix_rfl
  | cons a l ih =>
    rw [complete]
    split
    · exact (List.prefix_append_right_inj [a]).mpr (ih _)
    · exact List.nil_prefix

/-- All symbols have all frames. -/
theorem complete_all (l : List α) : complete enc (wire enc l).length l = l := by
  induction l with
  | nil => rfl
  | cons a l ih =>
    have hlen : (wire enc (a :: l)).length = (enc a).length + (wire enc l).length := List.length_append
    rw [complete, hlen, if_pos (Nat.le_add_right ..), Nat.add_sub_cancel_left, ih]

end Frames

/-! ## Decoders -/

/-- From rest a frame is given out with its last symbol and not before, and then the decoder rests again or
    has stopped. `quiet` is what can be relied on wherever the stream is cut. -/
structure Decodes (enc : α → List β) (said : α → γ) (step : σ → β → σ) (out : σ → List γ)
    (resting stopped quiet : σ → Prop) : Prop where
  frame : ∀ s a, resting s → out ((enc a).foldl step s) = out s ++ [said a] ∧
    (resting ((enc a).foldl step s) ∨ stopped ((enc a).foldl step s))
  part : ∀ s a p, resting s → p <+: enc a → p.length < (enc a).length →
    out (p.foldl step s) = out s ∧ quiet (p.foldl step s)
  still : ∀ s b, stopped s → step s b = s
  calm : ∀ s, resting s ∨ stopped s → quiet s

namespace Decodes

variable {enc : α → List β} {said : α → γ} {step : σ → β → σ} {out : σ → List γ}
    {resting stopped quiet : σ → Prop}

theorem foldl_stopped (d : Decodes enc said step out resting stopped quiet) {s : σ} (h : stopped s) (p : List β) :
    p.foldl step s = s := by
  induction p with
  | nil => rfl
  | cons b p ih => rw [List.foldl_cons, d.still s b h, ih]

/-- A beginning of the stream ends in the first frame, or has it whole. -/
theorem cut {a : α} {l : List α} {p : List β} (h : p <+: wire enc (a :: l)) :
    (p <+: enc a ∧ p.length < (enc a).length) ∨ ∃ q, p = enc a ++ q ∧ q <+: wire enc l := by
  rw [wire_cons] at h
  by_cases hlen : p.length < (enc a).length
  · exact .inl ⟨List.prefix_of_prefix_length_le h (List.prefix_append ..) (Nat.le_of_lt hlen), hlen⟩
  · obtain ⟨q, rfl⟩ := List.prefix_of_prefix_length_le (List.prefix_append ..) h (Nat.le_of_not_lt hlen)
    exact .inr ⟨q, rfl, (List.prefix_append_right_inj _).mp h⟩

/-- The frames that a beginning of the stream has whole are given out, unless the decoder has stopped. -/
theorem complete (d : Decodes enc said step out resting stopped quiet) {l : List α} {p : List β} {s : σ}
    (hs : resting s) (hp : p <+: wire enc l) :
    out (p.foldl step s) = out s ++ (Stream.complete enc p.length l).map said ∨
      (stopped (p.foldl step s) ∧ ∃ k, out (p.foldl step s) = out s ++
      ((Stream.complete enc p.length l).take k).map said) := by
  induction l generalizing p s with
  | nil =>
    obtain rfl : p = [] := List.prefix_nil.mp hp
    exact .inl (by simp [Stream.complete])
  | cons a l ih =>
    rcases cut hp with ⟨hpart, hlen⟩ | ⟨q, rfl, hq⟩
    · left
      rw [(d.part s a p hs hpart hlen).1, Stream.complete, if_neg (Nat.not_le.mpr hlen)]
      simp
    · obtain ⟨hout, hnext⟩ := d.frame s a hs
      have hwhole : Stream.complete enc (enc a ++ q).length (a :: l) = a :: Stream.complete enc q.length l := by
        rw [Stream.complete, List.length_append, if_pos (Nat.le_add_right ..), Nat.add_sub_cancel_left]
      rw [List.foldl_append, hwhole]
      rcases hnext with hrest | hstop
      · rcases ih hrest hq with h | ⟨hstop, k, h⟩
        · left
          rw [h, hout]
          simp
        · refine .inr ⟨hstop, k + 1, ?_⟩
          rw [h, hout]
          simp
      · right
        rw [d.foldl_stopped hstop]
        refine ⟨hstop, 1, ?_⟩
        rw [hout]
        simp

/-- Wherever the stream is cut. -/
theorem quiet_anywhere (d : Decodes enc said step out resting stopped quiet) {l : List α} {p : List β} {s : σ}
    (hs : resting s) (hp : p <+: wire enc l) : quiet (p.foldl step s) := by
  induction l generalizing p s with
  | nil =>
    obtain rfl : p = [] := List.prefix_nil.mp hp
    exact d.calm s (.inl hs)
  | cons a l ih =>
    rcases cut hp with ⟨hpart, hlen⟩ | ⟨q, rfl, hq⟩
    · exact (d.part s a p hs hpart hlen).2
    · rw [List.foldl_append]
      rcases (d.frame s a hs).2 with hrest | hstop
      · exact ih hrest hq
      · rw [d.foldl_stopped hstop]
        exact d.calm _ (.inr hstop)

end Decodes

end Stream
