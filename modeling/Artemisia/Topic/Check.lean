/-
  Artemisia.Topic.Check — which topics and filters the checks of `util_topic.c` accept.

  Those that go up to the NUL are in `Topic.Match`. The ones that are given the length compare it first, and
  go by the index.

  Proved:
  - `subTopicCheckFrom_iff`:  the scan accepts the filters whose wildcards are well placed.
  - `subTopicCheck2From_eq`:  going by the index comes to the same.
  - `topicChecks_iff`:        the checks accept what they should, exactly when the count is not wrong about the
                              limit, or a wildcard is misplaced.
-/
import Artemisia.Topic.Match

namespace Artemisia.Topic

open Artemisia.Property Artemisia.Property.Raw Wildcard

/-! ## The code -/

/-- The loop of `mosquitto_sub_topic_check2`: the turns that are left, `i` and `c`. -/
def subTopicCheck2From (str : Bytes) (len : Nat) : Nat → Nat → UInt8 → Rc
  | 0, _, _ => .success
  | turns + 1, i, c =>
    let b := str.getD i 0
    if b = 43 then
      if (c ≠ 0 ∧ c ≠ 47) ∨ (i < len - 1 ∧ str.getD (i + 1) 0 ≠ 47) then .inval
      else subTopicCheck2From str len turns (i + 1) b
    else if b = 35 then
      if (c ≠ 0 ∧ c ≠ 47) ∨ i < len - 1 then .inval else subTopicCheck2From str len turns (i + 1) b
    else subTopicCheck2From str len turns (i + 1) b

def mosquittoSubTopicCheck2 (str : Bytes) (len : Nat) : Rc :=
  if len > 65535 then .inval else subTopicCheck2From str len len 0 0

def mosquittoPubTopicCheck2 (str : Bytes) (len : Nat) : Rc :=
  if len > 65535 then .inval
  else if (List.range len).any (fun i => isWildcard (str.getD i 0)) then .inval else .success

/-! ## The scans -/

section Scan

variable {before : Option UInt8} {str : Bytes}

/-- What the scan accepts after the byte before: at the start of a level, or inside one. -/
theorem subTopicCheckFrom_iff : subTopicCheckFrom before str = .success ↔
    if before = none ∨ before = some 47 then WellPlaced 47 43 35 str else PlacedInside 47 43 35 str := by
  induction str generalizing before with
  | nil =>
    have hend : subTopicCheckFrom before [] = .success := rfl
    split
    · exact iff_of_true hend wellPlaced_nil
    · exact iff_of_true hend placedInside_nil
  | cons c str ih =>
    have hinside : (some c ≠ some 47) →
        (subTopicCheckFrom (some c) str = .success ↔ PlacedInside 47 43 35 str) := by
      intro hc
      rw [ih, if_neg (by simpa using hc)]
    by_cases hplus : c = 43
    · subst hplus
      simp only [subTopicCheckFrom, if_true]
      by_cases hstart : before = none ∨ before = some 47
      · rw [if_pos hstart, wellPlaced_one (by decide) (by decide), ← hinside (by decide)]
        by_cases hnext : str = [] ∨ str.head? = some 47
        · rw [if_neg (by tauto), and_iff_right hnext]
        · rw [if_pos (by tauto)]
          exact iff_of_false (by decide) (fun h => hnext h.1)
      · rw [if_neg hstart, if_pos (by tauto), placedInside_cons (by decide)]
        exact iff_of_false (by decide) (fun h => h.1 rfl)
    by_cases hhash : c = 35
    · subst hhash
      simp only [subTopicCheckFrom, show ¬ (35 : UInt8) = 43 by decide, if_false, if_true]
      by_cases hstart : before = none ∨ before = some 47
      · rw [if_pos hstart, wellPlaced_many (by decide) (by decide)]
        by_cases hnext : str = []
        · rw [if_neg (by tauto), hnext]
          exact iff_of_true rfl rfl
        · rw [if_pos (by tauto)]
          exact iff_of_false (by decide) hnext
      · rw [if_neg hstart, if_pos (by tauto), placedInside_cons (by decide)]
        exact iff_of_false (by decide) (fun h => h.2.1 rfl)
    · simp only [subTopicCheckFrom, hplus, hhash, if_false]
      by_cases hsep : c = 47
      · subst hsep
        rw [ih, if_pos (.inr rfl)]
        split
        · exact wellPlaced_sep.symm
        · exact placedInside_sep.symm
      · rw [hinside (by simpa using hsep)]
        split
        · exact (wellPlaced_literal hsep hplus hhash).symm
        · rw [placedInside_cons hsep]
          simp [hplus, hhash]

theorem getD_of_lt {i : Nat} (h : i < str.length) : str.getD i 0 = str[i] := by
  rw [List.getD_eq_getElem?_getD, List.getElem?_eq_getElem h, Option.getD_some]

/-- At index `i` the loop is where the scan has `str.drop i` before it: there is no NUL but at the start
    of `c`. -/
theorem subTopicCheck2From_eq (hz : ∀ b ∈ str, b ≠ 0) {turns i : Nat} (hi : i + turns = str.length) (c : UInt8) :
    subTopicCheck2From str str.length turns i c =
      subTopicCheckFrom (if c = 0 then none else some c) (str.drop i) := by
  induction turns generalizing i c with
  | zero =>
    rw [List.drop_of_length_le (by omega)]
    rfl
  | succ turns ih =>
    have hlt : i < str.length := by omega
    have hget : str.getD i 0 = str[i] := getD_of_lt hlt
    have hne : str[i] ≠ 0 := hz _ (List.getElem_mem hlt)
    have hnext := ih (i := i + 1) (by omega) str[i]
    rw [if_neg hne] at hnext
    have hfirst : ((if c = 0 then none else some c) ≠ none ∧ (if c = 0 then none else some c) ≠ some 47) ↔
        c ≠ 0 ∧ c ≠ 47 := by
      by_cases hc : c = 0 <;> simp [hc]
    have hlast : i < str.length - 1 ↔ str.drop (i + 1) ≠ [] := by
      rw [ne_eq, List.drop_eq_nil_iff]
      omega
    have hhead : i < str.length - 1 ∧ str.getD (i + 1) 0 ≠ 47 ↔ str.drop (i + 1) ≠ [] ∧
        (str.drop (i + 1)).head? ≠ some 47 := by
      rw [hlast]
      refine and_congr_right (fun hd => ?_)
      have hlt' : i + 1 < str.length := by
        rw [ne_eq, List.drop_eq_nil_iff] at hd
        omega
      rw [List.head?_drop, List.getElem?_eq_getElem hlt', getD_of_lt hlt']
      simp
    rw [List.drop_eq_getElem_cons hlt]
    simp only [subTopicCheck2From, subTopicCheckFrom, hget, hnext, hfirst, hhead, ← hlast]

theorem any_range (str : Bytes) :
    (List.range str.length).any (fun i => isWildcard (str.getD i 0)) = str.any isWildcard := by
  rw [Bool.eq_iff_iff, List.any_eq_true, List.any_eq_true]
  constructor
  · rintro ⟨i, hi, hw⟩
    have hlt := List.mem_range.mp hi
    rw [getD_of_lt hlt] at hw
    exact ⟨_, List.getElem_mem hlt, hw⟩
  · rintro ⟨b, hb, hw⟩
    obtain ⟨i, hlt, rfl⟩ := List.mem_iff_getElem.mp hb
    exact ⟨i, List.mem_range.mpr hlt, by rwa [getD_of_lt hlt]⟩

end Scan

/-! ## What is accepted -/

/-- The checks of a string accept what they should, with its length and without. -/
structure Exact (s : CString) : Prop where
  sub : mosquittoSubTopicCheck s.bytes = .success ↔ s.bytes.length ≤ 65535 ∧ WellPlaced 47 43 35 s.bytes
  sub2 : mosquittoSubTopicCheck2 s.bytes s.bytes.length = mosquittoSubTopicCheck s.bytes
  pub : mosquittoPubTopicCheck s.bytes = .success ↔ s.bytes.length ≤ 65535 ∧ 43 ∉ s.bytes ∧ 35 ∉ s.bytes
  pub2 : mosquittoPubTopicCheck2 s.bytes s.bytes.length = mosquittoPubTopicCheck s.bytes

/-- The count is on the right side of the limit. -/
def Counted (s : CString) : Prop := s.bytes.length ≤ 65535 ∨ 65535 < toInt s.bytes.length

section Results

variable {s : CString}

theorem any_isWildcard_false {str : Bytes} : str.any isWildcard = false ↔ 43 ∉ str ∧ 35 ∉ str := by
  simp only [List.any_eq_false, isWildcard, decide_eq_true_eq, not_or]
  constructor
  · intro h
    exact ⟨fun hp => (h 43 hp).1 rfl, fun hh => (h 35 hh).2 rfl⟩
  · rintro ⟨h1, h2⟩ b hb
    exact ⟨fun he => h1 (he ▸ hb), fun he => h2 (he ▸ hb)⟩

/-- A string without wildcards has none that is misplaced. -/
theorem wellPlaced_plain {str : Bytes} (h : str.any isWildcard = false) : WellPlaced 47 43 35 str := by
  have hscan (before : Option UInt8) : subTopicCheckFrom before str = .success := by
    induction str generalizing before with
    | nil => rfl
    | cons c str ih =>
      rw [List.any_cons, Bool.or_eq_false_iff] at h
      obtain ⟨hc, hs⟩ := h
      have hne : c ≠ 43 ∧ c ≠ 35 := by simpa [isWildcard] using hc
      simp only [subTopicCheckFrom, hne.1, hne.2, if_false]
      exact ih hs _
  exact subTopicCheckFrom_iff.mp (hscan none)

theorem countInt_le (h : Counted s) : countInt s.bytes > 65535 ↔ ¬ s.bytes.length ≤ 65535 := by
  rw [countInt_eq]
  rcases h with h | h
  · rw [toInt_of_lt (by omega)]
    omega
  · refine iff_of_true h (fun hle => ?_)
    rw [toInt_of_lt (by omega)] at h
    omega

theorem scan_iff : subTopicCheckFrom none s.bytes = .success ↔ WellPlaced 47 43 35 s.bytes :=
  subTopicCheckFrom_iff

theorem sub2_eq : mosquittoSubTopicCheck2 s.bytes s.bytes.length =
    if s.bytes.length > 65535 then .inval else subTopicCheckFrom none s.bytes := by
  rw [mosquittoSubTopicCheck2, subTopicCheck2From_eq s.nonzero (Nat.zero_add _) 0]
  rfl

theorem subTopicCheckFrom_cases (before : Option UInt8) (str : Bytes) :
    subTopicCheckFrom before str = .success ∨ subTopicCheckFrom before str = .inval := by
  induction str generalizing before with
  | nil => exact .inl rfl
  | cons c str ih =>
    simp only [subTopicCheckFrom]
    split_ifs
    · exact .inr rfl
    · exact ih _
    · exact .inr rfl
    · exact ih _
    · exact ih _

theorem exact_of_counted (h : Counted s) (hwell : WellPlaced 47 43 35 s.bytes) : Exact s := by
  have hcount := countInt_le h
  have hscan := scan_iff.mpr hwell
  have hsub : mosquittoSubTopicCheck s.bytes = if s.bytes.length > 65535 then .inval else .success := by
    simp only [mosquittoSubTopicCheck, hscan, ne_eq, not_true_eq_false, if_false, hcount, not_le]
  have hpub : mosquittoPubTopicCheck s.bytes =
      if s.bytes.any isWildcard then .inval else if s.bytes.length > 65535 then .inval else .success := by
    simp only [mosquittoPubTopicCheck, hcount, not_le]
  refine ⟨?_, ?_, ?_, ?_⟩
  · rw [hsub, and_iff_left hwell]
    split <;> simp <;> omega
  · rw [sub2_eq, hsub, hscan]
  · rw [hpub, ← any_isWildcard_false]
    cases s.bytes.any isWildcard
    · simp
    · simp
  · rw [hpub, mosquittoPubTopicCheck2, any_range]
    cases s.bytes.any isWildcard
    · simp
    · simp

/-- A misplaced wildcard is refused before the length is looked at. -/
theorem exact_of_misplaced (hwell : ¬ WellPlaced 47 43 35 s.bytes) : Exact s := by
  have hscan : subTopicCheckFrom none s.bytes = .inval :=
    (subTopicCheckFrom_cases none s.bytes).resolve_left (fun h => hwell (scan_iff.mp h))
  have hany : s.bytes.any isWildcard = true := by
    by_contra hn
    exact hwell (wellPlaced_plain (by simpa using hn))
  have hwild : ¬ (43 ∉ s.bytes ∧ 35 ∉ s.bytes) := by
    rw [← any_isWildcard_false, hany]
    simp
  have hsub : mosquittoSubTopicCheck s.bytes = .inval := by simp [mosquittoSubTopicCheck, hscan]
  have hpub : mosquittoPubTopicCheck s.bytes = .inval := by simp [mosquittoPubTopicCheck, hany]
  refine ⟨?_, ?_, ?_, ?_⟩
  · rw [hsub]
    exact iff_of_false (by decide) (fun h => hwell h.2)
  · rw [sub2_eq, hsub, hscan]
    split <;> rfl
  · rw [hpub]
    exact iff_of_false (by decide) (fun h => hwild h.2)
  · rw [hpub, mosquittoPubTopicCheck2, any_range, hany]
    split <;> rfl

/-- The checks are exact when the count is not wrong about the limit, and when they refuse the string for a
    misplaced wildcard; and not otherwise. -/
theorem topicChecks_iff (s : CString) : Exact s ↔ Counted s ∨ ¬ WellPlaced 47 43 35 s.bytes := by
  constructor
  · intro h
    by_contra hno
    obtain ⟨hcount, hwell⟩ := not_or.mp hno
    obtain ⟨hlong, hint⟩ := not_or.mp hcount
    have hscan := scan_iff.mpr (not_not.mp hwell)
    have haccept : mosquittoSubTopicCheck s.bytes = .success := by
      rw [mosquittoSubTopicCheck, if_neg (not_not.mpr hscan), countInt_eq, if_neg hint]
    exact hlong (h.sub.mp haccept).1
  · intro h
    by_cases hwell : WellPlaced 47 43 35 s.bytes
    · exact exact_of_counted (h.resolve_right (not_not.mpr hwell)) hwell
    · exact exact_of_misplaced hwell

end Results

def letters (n : Nat) : CString := ⟨List.replicate n 97, letters_nonzero n⟩

theorem letters_accepted {n : Nat} (hlong : 65535 < n) (hint : toInt n ≤ 65535) :
    mosquittoSubTopicCheck (letters n).bytes = .success ∧ ¬ Exact (letters n) := by
  have hlen : (letters n).bytes.length = n := List.length_replicate
  have hplain : (letters n).bytes.any isWildcard = false := by
    rw [List.any_eq_false]
    intro b hb
    rw [List.eq_of_mem_replicate hb]
    decide
  have hscan : subTopicCheckFrom none (letters n).bytes = .success := scan_iff.mpr (wellPlaced_plain hplain)
  refine ⟨?_, fun h => ?_⟩
  · rw [mosquittoSubTopicCheck, if_neg (not_not.mpr hscan), countInt_eq, hlen, if_neg (by omega)]
  · rcases (topicChecks_iff _).mp h with (hc | hc) | hw
    · omega
    · rw [hlen] at hc
      omega
    · exact hw (wellPlaced_plain hplain)

/-- After 2147483648 letters the count is negative. -/
theorem two_gigabytes_accepted :
    mosquittoSubTopicCheck (letters 2147483648).bytes = .success ∧ ¬ Exact (letters 2147483648) :=
  letters_accepted (by omega) (by unfold toInt; decide)

end Artemisia.Topic
