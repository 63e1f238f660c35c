/-
  Artemisia.Topic.Match — topic filters (`util_topic.c`).

  The strings are C strings, and what is left of one is what the pointer to it sees. Where the matcher looks
  back (`sub[-1]`), it is given the byte before. The checks count in an `int`, which wraps around as in
  `Property.Raw`.

  Proved:
  - `countInt_eq`:         what the checks count.
  - `matchLoop_iff`:       the scan answers whether the rest of the filter matches the rest of the topic.
  - `topicMatchesSub_eq`:  a filter that the check accepts matches level by level.
-/
import Artemisia.Lib.Wildcard
import Artemisia.Property.Raw

namespace Artemisia.Topic

open Artemisia.Property.Raw (addInt toInt toInt_of_lt)
open Wildcard

/-! ## The code -/

def isWildcard (c : UInt8) : Bool := c = 43 ∨ c = 35

/-- The loop of `mosquitto_sub_topic_check`, with the byte before. -/
def subTopicCheckFrom : Option UInt8 → Bytes → Rc
  | _, [] => .success
  | before, c :: str =>
    if c = 43 then
      if (before ≠ none ∧ before ≠ some 47) ∨ (str ≠ [] ∧ str.head? ≠ some 47) then .inval
      else subTopicCheckFrom (some c) str
    else if c = 35 then
      if (before ≠ none ∧ before ≠ some 47) ∨ str ≠ [] then .inval else subTopicCheckFrom (some c) str
    else subTopicCheckFrom (some c) str

/-- The `len` of the loops that go up to the NUL. -/
def countInt (str : Bytes) : Int := str.foldl (fun len _ => addInt len 1) 0

def mosquittoSubTopicCheck (str : Bytes) : Rc :=
  if subTopicCheckFrom none str ≠ .success then .inval else if countInt str > 65535 then .inval else .success

def mosquittoPubTopicCheck (str : Bytes) : Rc :=
  if str.any isWildcard then .inval else if countInt str > 65535 then .inval else .success

/-- Whether a '#' is not the last byte: the loop that looks for an invalid filter where nothing matches. -/
def hashInside : Bytes → Bool
  | [] => false
  | c :: str => if c = 35 ∧ str ≠ [] then true else hashInside str

/-- The loop of `mosquitto_topic_matches_sub2`, with the byte before `sub`, and what follows it. -/
def matchLoop : Option UInt8 → Bytes → Bytes → Rc × Bool
  | _, [], topic => if topic.any isWildcard then (.inval, false) else (.success, false)
  | before, c :: sub, topic =>
    if topic.head?.any isWildcard then (.inval, false)
    else if topic.head? ≠ some c then
      if c = 43 then
        if before ≠ none ∧ before ≠ some 47 then (.inval, false)
        else if sub ≠ [] ∧ sub.head? ≠ some 47 then (.inval, false)
        else if (topic.takeWhile (· ≠ 47)).any isWildcard then (.inval, false)
        else if topic.dropWhile (· ≠ 47) = [] ∧ sub = [] then (.success, true)
        else matchLoop (some c) sub (topic.dropWhile (· ≠ 47))
      else if c = 35 then
        if before ≠ none ∧ before ≠ some 47 then (.inval, false)
        else if sub ≠ [] then (.inval, false)
        else if topic.any isWildcard then (.inval, false)
        else (.success, true)
      -- foo/bar and foo/+/#
      else if topic = [] ∧ before = some 43 ∧ c = 47 ∧ sub.head? = some 35 then (.success, true)
      else if hashInside (c :: sub) then (.inval, false)
      else (.success, false)
    else
      -- foo and foo/#
      if topic.tail = [] ∧ sub = [47, 35] then (.success, true)
      else if sub = [] ∧ topic.tail = [] then (.success, true)
      else if topic.tail = [] ∧ sub = [43] then if c ≠ 47 then (.inval, false) else (.success, true)
      else matchLoop (some c) sub topic.tail

/-- `mosquitto_topic_matches_sub`: the result code and `*result`. -/
def topicMatchesSub (sub topic : Bytes) : Rc × Bool :=
  if sub = [] ∨ topic = [] then (.inval, false)
  else if (sub.head? = some 36 ∧ topic.head? ≠ some 36) ∨ (topic.head? = some 36 ∧ sub.head? ≠ some 36) then
    (.success, false)
  else matchLoop none sub topic

/-! ## The count -/

section Count

variable {str : Bytes}

theorem countInt_eq : countInt str = toInt str.length := by
  have hfrom (k : Nat) (s : Bytes) : s.foldl (fun len _ => addInt len 1) (toInt k) = toInt (k + s.length) := by
    induction s generalizing k with
    | nil => rw [List.foldl_nil, List.length_nil, Nat.add_zero]
    | cons b s ih =>
      have hstep : addInt (toInt k) 1 = toInt (k + 1) := by
        unfold addInt toInt
        rw [Int.bmod_add_bmod, Nat.cast_add, Nat.cast_one]
      rw [List.foldl_cons, hstep, ih, List.length_cons, Nat.add_right_comm, Nat.add_assoc]
  have hzero := hfrom 0 str
  rw [Nat.zero_add] at hzero
  exact hzero

/-- The count is right about a string that the check of its characters takes too. -/
theorem length_of_countInt (hlen : str.length ≤ 65536) (h : ¬ countInt str > 65535) : str.length ≤ 65535 := by
  rw [countInt_eq, toInt_of_lt (by omega)] at h
  omega

theorem length_of_subTopicCheck (hlen : str.length ≤ 65536) (h : mosquittoSubTopicCheck str = .success) :
    str.length ≤ 65535 := by
  unfold mosquittoSubTopicCheck at h
  split at h
  · cases h
  split at h
  · cases h
  · exact length_of_countInt hlen ‹_›

theorem length_of_pubTopicCheck (hlen : str.length ≤ 65536) (h : mosquittoPubTopicCheck str = .success) :
    str.length ≤ 65535 := by
  unfold mosquittoPubTopicCheck at h
  split at h
  · cases h
  split at h
  · cases h
  · exact length_of_countInt hlen ‹_›

end Count

/-! ## What a filter means -/

/-- The filter matches the topic: level by level, and not if exactly one of them begins with '$'. -/
def FilterMatches (sub topic : Bytes) : Prop :=
  (sub.head? = some 36 ↔ topic.head? = some 36) ∧ Matches 47 43 35 sub topic

instance (sub topic : Bytes) : Decidable (FilterMatches sub topic) := inferInstanceAs (Decidable (_ ∧ _))

/-- What is left to match: whole levels after a separator, and otherwise the rest of the current ones too. -/
def Remaining (before : Option UInt8) (sub topic : Bytes) : Prop :=
  if before = none ∨ before = some 47 then Matches 47 43 35 sub topic else Continues 47 43 35 sub topic

theorem remaining_literal {before : Option UInt8} {c : UInt8} {sub topic : Bytes} (h1 : c ≠ 43) (h2 : c ≠ 35) :
    Remaining before (c :: sub) topic ↔ Continues 47 43 35 (c :: sub) topic := by
  unfold Remaining
  split
  · exact matches_literal h1 h2
  · exact Iff.rfl

theorem remaining_nil {before : Option UInt8} {topic : Bytes} :
    Remaining before [] topic ↔ Continues 47 43 35 [] topic := by
  unfold Remaining
  split
  · exact matches_nil
  · exact Iff.rfl

/-- One byte further in both strings. -/
theorem remaining_step {c : UInt8} {sub topic : Bytes} :
    Remaining (some c) sub topic ↔ Continues 47 43 35 (c :: sub) (c :: topic) := by
  unfold Remaining
  by_cases hc : c = 47
  · subst hc
    rw [if_pos (.inr rfl), continues_sep]
  · rw [if_neg (by simpa using hc), continues_cons hc]

/-! ## Filters that are accepted -/

section Accepted

variable {before : Option UInt8} {c : UInt8} {sub : Bytes}

theorem subTopicCheckFrom_plus (h : subTopicCheckFrom before (43 :: sub) = .success) :
    (before = none ∨ before = some 47) ∧ (sub = [] ∨ sub.head? = some 47) ∧
      subTopicCheckFrom (some 43) sub = .success := by
  simp only [subTopicCheckFrom, if_true] at h
  split at h
  · cases h
  · rename_i hn
    exact ⟨by tauto, by tauto, h⟩

theorem subTopicCheckFrom_hash (h : subTopicCheckFrom before (35 :: sub) = .success) :
    (before = none ∨ before = some 47) ∧ sub = [] := by
  simp only [subTopicCheckFrom, show ¬ (35 : UInt8) = 43 by decide, if_false, if_true] at h
  split at h
  · cases h
  · rename_i hn
    exact ⟨by tauto, by tauto⟩

theorem subTopicCheckFrom_tail (h : subTopicCheckFrom before (c :: sub) = .success) :
    subTopicCheckFrom (some c) sub = .success := by
  by_cases h1 : c = 43
  · subst h1
    exact (subTopicCheckFrom_plus h).2.2
  by_cases h2 : c = 35
  · subst h2
    rw [(subTopicCheckFrom_hash h).2]
    rfl
  · simpa only [subTopicCheckFrom, if_neg h1, if_neg h2] using h

/-- A '#' in a filter that the check accepts is its last byte. -/
theorem hashInside_eq_false (h : subTopicCheckFrom before sub = .success) : hashInside sub = false := by
  induction sub generalizing before with
  | nil => rfl
  | cons c sub ih =>
    have hlast : ¬ (c = 35 ∧ sub ≠ []) := by
      intro hx
      obtain ⟨rfl, hne⟩ := hx
      exact hne (subTopicCheckFrom_hash h).2
    rw [hashInside, if_neg hlast, ih (subTopicCheckFrom_tail h)]

end Accepted

/-! ## The scan -/

section Scan

variable {before : Option UInt8} {c : UInt8} {sub topic rest : Bytes}

theorem not_isWildcard : isWildcard c = false ↔ c ≠ 43 ∧ c ≠ 35 := by
  simp [isWildcard]

theorem head_plain (htopic : topic.any isWildcard = false) : topic.head?.any isWildcard = false := by
  cases topic with
  | nil => rfl
  | cons d topic => simpa using (List.any_eq_false.mp htopic) d (List.mem_cons_self ..)

theorem head_ne_wildcard (htopic : topic.any isWildcard = false) (hc : isWildcard c = true) :
    topic.head? ≠ some c := by
  intro e
  have hhead := head_plain htopic
  rw [e, Option.any_some, hc] at hhead
  cases hhead

/-- A byte that both strings have. -/
theorem matchLoop_agree (hc : isWildcard c = false) :
    matchLoop before (c :: sub) (c :: rest) =
      if rest = [] ∧ sub = [47, 35] then (.success, true)
      else if sub = [] ∧ rest = [] then (.success, true)
      else if rest = [] ∧ sub = [43] then if c ≠ 47 then (.inval, false) else (.success, true)
      else matchLoop (some c) sub rest := by
  conv_lhs => unfold matchLoop
  rw [if_neg (by simp [hc]), if_neg (by simp)]
  rfl

/-- A '+' in an accepted filter. -/
theorem matchLoop_plus (hsub : subTopicCheckFrom before (43 :: sub) = .success)
    (htopic : topic.any isWildcard = false) :
    matchLoop before (43 :: sub) topic =
      if topic.dropWhile (· ≠ 47) = [] ∧ sub = [] then (.success, true)
      else matchLoop (some 43) sub (topic.dropWhile (· ≠ 47)) := by
  obtain ⟨hb, hs, -⟩ := subTopicCheckFrom_plus hsub
  have hall : ∀ d ∈ topic, isWildcard d = false := by simpa using htopic
  have hhead := head_plain htopic
  have hne : topic.head? ≠ some 43 := head_ne_wildcard htopic (by decide)
  have htake : (topic.takeWhile (· ≠ 47)).any isWildcard = false :=
    List.any_eq_false.mpr (fun d hd => by simp [hall d ((List.takeWhile_sublist _).mem hd)])
  conv_lhs => unfold matchLoop
  rw [if_neg (by simp [hhead]), if_pos hne, if_pos rfl, if_neg (by tauto), if_neg (by tauto),
    if_neg (by rw [htake]; decide)]

/-- A '#' in an accepted filter. -/
theorem matchLoop_hash (hsub : subTopicCheckFrom before (35 :: sub) = .success)
    (htopic : topic.any isWildcard = false) :
    matchLoop before (35 :: sub) topic = (.success, true) := by
  obtain ⟨hb, rfl⟩ := subTopicCheckFrom_hash hsub
  have hhead := head_plain htopic
  have hne : topic.head? ≠ some 35 := head_ne_wildcard htopic (by decide)
  unfold matchLoop
  rw [if_neg (by simp [hhead]), if_pos hne, if_neg (by decide), if_pos rfl, if_neg (by tauto), if_neg (by simp),
    if_neg (by simp [htopic])]

/-- A byte that only an accepted filter has. -/
theorem matchLoop_differ (hc : isWildcard c = false) (hsub : subTopicCheckFrom before (c :: sub) = .success)
    (htopic : topic.any isWildcard = false) (hne : topic.head? ≠ some c) :
    matchLoop before (c :: sub) topic =
      (.success, decide (topic = [] ∧ before = some 43 ∧ c = 47 ∧ sub.head? = some 35)) := by
  obtain ⟨h43, h35⟩ := not_isWildcard.mp hc
  have hhead := head_plain htopic
  unfold matchLoop
  rw [if_neg (by simp [hhead]), if_pos hne, if_neg h43, if_neg h35, hashInside_eq_false hsub]
  split <;> simp_all

/-- Nothing is left of the topic after a byte that both strings have. -/
theorem remaining_end (hsub : subTopicCheckFrom (some c) sub = .success)
    (h : sub = [47, 35] ∨ sub = [] ∨ sub = [43]) : Remaining (some c) sub [] := by
  rcases h with rfl | rfl | rfl
  · rw [remaining_literal (by decide) (by decide), continues_sep_nil (by decide)]
  · exact remaining_nil.mpr continues_nil_nil
  · have hc := (subTopicCheckFrom_plus hsub).1
    rw [Remaining, if_pos hc, matches_one (by decide) (by decide) (.inl rfl)]
    exact continues_nil_nil

/-- The scan from a place inside the strings, where the topic has not ended before the look-ahead of the last
    step has been made. -/
theorem matchLoop_iff (hsub : subTopicCheckFrom before sub = .success) (htopic : topic.any isWildcard = false)
    (hend : topic = [] → sub ≠ [] ∧ (sub = [47, 35] → before = some 43)) :
    (matchLoop before sub topic).1 = .success ∧
    ((matchLoop before sub topic).2 = true ↔ Remaining before sub topic) := by
  induction sub generalizing before topic with
  | nil =>
    cases topic with
    | nil => exact absurd rfl (hend rfl).1
    | cons d topic =>
      rw [remaining_nil]
      simp only [matchLoop, htopic, Bool.false_eq_true, if_false, true_and, false_iff]
      exact not_continues_nil_left
  | cons c sub ih =>
    have htail := subTopicCheckFrom_tail hsub
    by_cases h43 : c = 43
    · -- a whole level of the topic goes
      subst h43
      obtain ⟨hb, hs, -⟩ := subTopicCheckFrom_plus hsub
      have hdrop : (topic.dropWhile (· ≠ 47)).any isWildcard = false :=
        List.any_eq_false.mpr (fun d hd => List.any_eq_false.mp htopic d ((List.dropWhile_sublist _).mem hd))
      have hrem : Remaining before (43 :: sub) topic ↔ Remaining (some 43) sub (topic.dropWhile (· ≠ 47)) := by
        rw [Remaining, if_pos hb, matches_one (by decide) (by decide) hs, Remaining, if_neg (by decide)]
      rw [hrem, matchLoop_plus hsub htopic]
      split
      · rename_i hnil
        rw [hnil.1, hnil.2]
        exact ⟨rfl, fun _ => remaining_nil.mpr continues_nil_nil, fun _ => rfl⟩
      · rename_i hnil
        exact ih htail hdrop (fun e => ⟨fun e' => hnil ⟨e, e'⟩, fun _ => rfl⟩)
    by_cases h35 : c = 35
    · subst h35
      obtain ⟨hb, rfl⟩ := subTopicCheckFrom_hash hsub
      rw [matchLoop_hash hsub htopic, Remaining, if_pos hb]
      exact ⟨rfl, fun _ => matches_many (by decide), fun _ => rfl⟩
    have hc : isWildcard c = false := not_isWildcard.mpr ⟨h43, h35⟩
    rw [remaining_literal h43 h35]
    by_cases he : topic.head? = some c
    · obtain ⟨rest, rfl⟩ : ∃ rest, topic = c :: rest := by
        cases topic with
        | nil => cases he
        | cons d rest => exact ⟨rest, by rw [Option.some.inj he]⟩
      have hrest : rest.any isWildcard = false := by simpa [hc] using htopic
      rw [← remaining_step, matchLoop_agree hc]
      split_ifs with h1 h2 h3 h4
      · rw [h1.1]
        exact ⟨rfl, fun _ => remaining_end htail (.inl h1.2), fun _ => rfl⟩
      · rw [h2.2]
        exact ⟨rfl, fun _ => remaining_end htail (.inr (.inl h2.1)), fun _ => rfl⟩
      · -- the check has seen the separator before '+'
        rw [h3.2] at htail
        have := (subTopicCheckFrom_plus htail).1
        exact absurd (by simpa using this) h4
      · rw [h3.1]
        exact ⟨rfl, fun _ => remaining_end htail (.inr (.inr h3.2)), fun _ => rfl⟩
      · exact ih htail hrest (fun e => ⟨fun e' => h2 ⟨e', e⟩, fun e' => absurd ⟨e, e'⟩ h1⟩)
    · rw [matchLoop_differ hc hsub htopic he]
      refine ⟨rfl, ?_⟩
      rw [decide_eq_true_iff]
      cases topic with
      | cons d topic =>
        have hne : c ≠ d := fun e => he (by rw [e]; rfl)
        exact ⟨fun h => absurd h.1 (List.cons_ne_nil d topic), fun h => absurd h (not_continues_ne hne)⟩
      | nil =>
        by_cases hsep : c = 47
        · subst hsep
          rw [continues_sep_nil (by decide)]
          constructor
          · intro hx
            obtain ⟨-, -, -, hh⟩ := hx
            obtain ⟨s, rfl⟩ : ∃ s, sub = 35 :: s := by
              cases sub with
              | nil => cases hh
              | cons d s => exact ⟨s, by rw [Option.some.inj hh]⟩
            rw [(subTopicCheckFrom_hash htail).2]
          · intro hx
            obtain rfl := hx
            exact ⟨rfl, (hend rfl).2 rfl, rfl, rfl⟩
        · exact ⟨fun h => absurd h.2.2.1 hsep, fun h => absurd h (not_continues_nil_right hsep)⟩

end Scan

/-- A filter that the check accepts matches the topics that it means. -/
theorem topicMatchesSub_eq {sub topic : Bytes} (hsub : sub ≠ []) (hcheck : mosquittoSubTopicCheck sub = .success)
    (htopic : topic ≠ []) (hplain : topic.any isWildcard = false) :
    topicMatchesSub sub topic = (.success, decide (FilterMatches sub topic)) := by
  have hfrom : subTopicCheckFrom none sub = .success := by
    by_contra hne
    rw [mosquittoSubTopicCheck, if_pos hne] at hcheck
    cases hcheck
  unfold topicMatchesSub
  rw [if_neg (by tauto)]
  split
  · rename_i hdollar
    have hno : ¬ FilterMatches sub topic := by
      intro hx
      obtain ⟨hd, -⟩ := hx
      tauto
    rw [decide_eq_false hno]
  · rename_i hdollar
    obtain ⟨hrc, hres⟩ := matchLoop_iff hfrom hplain (fun e => absurd e htopic)
    have hiff : (matchLoop none sub topic).2 = true ↔ FilterMatches sub topic := by
      rw [hres, Remaining, if_pos (.inl rfl), FilterMatches]
      tauto
    have hdec : (matchLoop none sub topic).2 = decide (FilterMatches sub topic) := by
      rw [Bool.eq_iff_iff, hiff, decide_eq_true_iff]
    exact Prod.ext hrc hdec

end Artemisia.Topic
