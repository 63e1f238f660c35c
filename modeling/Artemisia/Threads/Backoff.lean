/-
  Artemisia.Threads.Backoff — how long the loop thread asks to sleep before it connects again: the arithmetic of
  `mosquitto_loop_forever` (`loop.c`), with `mosquitto_reconnect_delay_set` (`options.c`) and the reset in
  `connack_callback` (`handle_connack.c`).

  The threads step as in `Threads.System`, and `reconnects` is kept beside them. All of it is of type
  `unsigned int`, so the product may overflow before it is compared with the maximum. With exponential backoff the
  delays go up with the square of the number of sleeps; the comment in `mosquitto.h` has them doubled. A sleep may
  be shorter than what is asked for: `interruptible_sleep` returns at once where `packet__queue` has left a byte
  in the socket pair, and takes it.

  Proved:
  - `paced_step`:   what is asked for is as without an overflow, if the next product always fits.
  - `lost_again`:   with a server that is not there, `reconnects` goes up as long as the product is not too large.
  - `backoff_iff`:  so all that is asked for is as without an overflow, and there is none, exactly when a
                    delay that is not above the maximum has a next one that fits.
-/
import Artemisia.Threads.Moves
import Mathlib.Tactic.GCongr

namespace Artemisia.Threads

open Artemisia.Property Artemisia.Client

/-! ## The delays -/

/-- `reconnect_delay`, `reconnect_delay_max` and `reconnect_exponential_backoff`. -/
structure Delays where
  delay : UInt32
  delayMax : UInt32
  exponential : Bool
  positive : delay ≠ 0

/-- `mosquitto_reinitialise`. -/
def Delays.initial : Delays := ⟨1, 1, false, by decide⟩

def reconnectDelaySet (reconnectDelay reconnectDelayMax : UInt32) (exponential : Bool) : Delays where
  delay := if reconnectDelay = 0 then 1 else reconnectDelay
  delayMax := reconnectDelayMax
  exponential := exponential
  positive := by
    split
    · decide
    · assumption

namespace Delays

variable (c : Delays)

/-- `reconnect_delay` before it is compared with the maximum. -/
def raw (reconnects : UInt32) : UInt32 :=
  if c.delayMax > c.delay then
    if c.exponential then c.delay * (reconnects + 1) * (reconnects + 1) else c.delay * (reconnects + 1)
  else c.delay

/-- What `interruptible_sleep` is asked for, and `reconnects` after it. -/
def next (reconnects : UInt32) : UInt32 × UInt32 :=
  if c.raw reconnects > c.delayMax then (c.delayMax, reconnects) else (c.raw reconnects, reconnects + 1)

def product (n : Nat) : Nat := c.delay.toNat * (n + 1) ^ (if c.exponential then 2 else 1)

/-- What is asked for the `n`th time, without an overflow. -/
def ideal (n : Nat) : Nat := min c.delayMax.toNat (c.product n)

/-- After a delay that is not above the maximum, the next one fits. -/
def Room : Prop := c.delay < c.delayMax → ∀ n, c.product n ≤ c.delayMax.toNat → c.product (n + 1) < 2 ^ 32

end Delays

/-! ## The threads with their sleeps -/

structure Waiting where
  sys : Sys
  reconnects : UInt32
  /-- What `interruptible_sleep` has been asked for since `reconnects` was last set to zero; no step
      reads them. -/
  asked : List UInt32

def Waiting.init (id : Option Bytes) (cleanStart : Bool) : Waiting := ⟨.init id cleanStart, 0, []⟩

def IsWaitingInit (w : Waiting) : Prop := ∃ id cleanStart, w = .init id cleanStart

/-- `mosquitto_loop_forever` begins, or `connack_callback` is called with the reason code 0. -/
def countsAnew (s : Sys) (a : Act) (s' : Sys) : Bool :=
  match a with
  | .loop (.tick _) => s.loop = .waitNew ∧ s'.loop = .top
  | .loop (.packet p _ _) => reportedReason s.m p = some 0
  | _ => false

/-- The inner loop of `mosquitto_loop_forever` gets to `interruptible_sleep`. -/
def sleeps (s : Sys) (a : Act) (s' : Sys) : Bool :=
  match a with
  | .loop (.tick _) => s.loop = .check1 ∧ s'.loop = .sleep
  | _ => false

def Waiting.after (c : Delays) (w : Waiting) (a : Act) (s : Sys) : Waiting :=
  if countsAnew w.sys a s then ⟨s, 0, []⟩
  else if sleeps w.sys a s then ⟨s, (c.next w.reconnects).2, w.asked ++ [(c.next w.reconnects).1]⟩
  else ⟨s, w.reconnects, w.asked⟩

def Waiting.step (c : Delays) (w : Waiting) (a : Act) : Option Waiting := (Threads.step w.sys a).map (w.after c a)

/-! ## Arithmetic -/

namespace Delays

variable {c : Delays} {n k : Nat}

theorem delay_pos (c : Delays) : 0 < c.delay.toNat := by
  have h : c.delay.toNat ≠ 0 := fun h => c.positive (UInt32.toNat_inj.mp h)
  omega

theorem product_mono (h : n ≤ k) : c.product n ≤ c.product k := by
  unfold product
  gcongr

theorem lt_product (c : Delays) (n : Nat) : n < c.product n := by
  have hdelay := c.delay_pos
  have hpow : n + 1 ≤ (n + 1) ^ (if c.exponential then 2 else 1) := Nat.le_self_pow (by split <;> omega) _
  calc n < 1 * (n + 1) := by omega
    _ ≤ c.product n := Nat.mul_le_mul hdelay hpow

theorem delay_le_product (c : Delays) (n : Nat) : c.delay.toNat ≤ c.product n :=
  Nat.le_mul_of_pos_right _ (Nat.pow_pos (Nat.succ_pos n))

/-- The product modulo 2^32, as long as `reconnects + 1` is one. -/
theorem toNat_raw {reconnects : UInt32} (hc : c.delay < c.delayMax) (h : reconnects.toNat + 1 < 2 ^ 32) :
    (c.raw reconnects).toNat = c.product reconnects.toNat % 2 ^ 32 := by
  have hone : (reconnects + 1).toNat = reconnects.toNat + 1 := by
    rw [UInt32.toNat_add]
    exact Nat.mod_eq_of_lt h
  rw [raw, if_pos hc]
  cases he : c.exponential with
  | true => simp [product, he, UInt32.toNat_mul, hone, pow_two, Nat.mul_assoc]
  | false => simp [product, he, UInt32.toNat_mul, hone]

theorem raw_exact {reconnects : UInt32} (hc : c.delay < c.delayMax) (h : c.product reconnects.toNat < 2 ^ 32) :
    (c.raw reconnects).toNat = c.product reconnects.toNat := by
  have hlt := c.lt_product reconnects.toNat
  rw [toNat_raw hc (by omega), Nat.mod_eq_of_lt h]

end Delays

/-! ## Every sleep -/

/-- What has been asked for is as without an overflow, and the next product has none. -/
structure Exact (c : Delays) (w : Waiting) : Prop where
  asked : w.asked.map UInt32.toNat = (List.range w.asked.length).map c.ideal
  product : c.delay < c.delayMax → (c.raw w.reconnects).toNat = c.product w.reconnects.toNat

/-- `reconnects` counts the sleeps up to the first product that is above the maximum. -/
structure WellPaced (c : Delays) (w : Waiting) : Prop where
  asked : w.asked.map UInt32.toNat = (List.range w.asked.length).map c.ideal
  counted : w.reconnects.toNat ≤ w.asked.length ∨ c.delayMax ≤ c.delay
  within : c.delay < c.delayMax → ∀ n < w.reconnects.toNat, c.product n ≤ c.delayMax.toNat
  stopped : c.delay < c.delayMax → w.reconnects.toNat < w.asked.length →
    c.delayMax.toNat < c.product w.reconnects.toNat

section Runs

variable {c : Delays} {w w' : Waiting} {s s' : Sys} {a : Act}

theorem WellPaced.fresh (s : Sys) : WellPaced c ⟨s, 0, []⟩ := by
  refine ⟨rfl, .inl (Nat.zero_le _), ?_, ?_⟩
  · intro _ n hn
    exact absurd hn (Nat.not_lt_zero n)
  · intro _ hn
    exact absurd hn (Nat.lt_irrefl 0)

/-- The product that comes next fits. -/
theorem WellPaced.fits (hc : c.Room) (h : WellPaced c w) (hlt : c.delay < c.delayMax) :
    c.product w.reconnects.toNat < 2 ^ 32 := by
  cases hn : w.reconnects.toNat with
  | zero =>
    have hdelay := UInt32.toNat_lt c.delay
    simpa [Delays.product] using hdelay
  | succ n => exact hc hlt n (h.within hlt n (by omega))

theorem asked_snoc {l : List UInt32} {d : UInt32} (h : l.map UInt32.toNat = (List.range l.length).map c.ideal)
    (hd : d.toNat = c.ideal l.length) : (l ++ [d]).map UInt32.toNat = (List.range (l ++ [d]).length).map
    c.ideal := by
  rw [List.map_append, h, List.length_append, List.length_singleton, List.range_succ, List.map_append,
    List.map_singleton,
    List.map_singleton, hd]

theorem WellPaced.sleep (hc : c.Room) (h : WellPaced c w) (s : Sys) :
    WellPaced c ⟨s, (c.next w.reconnects).2, w.asked ++ [(c.next w.reconnects).1]⟩ := by
  have hlen (d : UInt32) : (w.asked ++ [d]).length = w.asked.length + 1 := by simp
  by_cases hlt : c.delay < c.delayMax
  · have hfits := h.fits hc hlt
    have hraw := Delays.raw_exact hlt hfits
    have hcount : w.reconnects.toNat ≤ w.asked.length := by
      rcases h.counted with hcount | hmax
      · exact hcount
      · exact absurd hlt (UInt32.not_lt.mpr hmax)
    by_cases hover : c.raw w.reconnects > c.delayMax
    · -- the product is too large: the maximum is waited, and `reconnects` stays
      have hover' : c.delayMax.toNat < c.product w.reconnects.toNat := hraw ▸ UInt32.lt_iff_toNat_lt.mp hover
      rw [Delays.next, if_pos hover]
      refine ⟨asked_snoc h.asked ?_, .inl ?_, h.within, fun _ _ => hover'⟩
      · have hmono := Delays.product_mono (c := c) hcount
        show c.delayMax.toNat = min c.delayMax.toNat (c.product w.asked.length)
        omega
      · rw [hlen]
        exact Nat.le_succ_of_le hcount
    · have hunder : c.product w.reconnects.toNat ≤ c.delayMax.toNat := by
        rw [← hraw]
        exact UInt32.le_iff_toNat_le.mp (UInt32.not_lt.mp hover)
      have heq : w.reconnects.toNat = w.asked.length := by
        by_contra hne
        have := h.stopped hlt (by omega)
        omega
      have hone : (w.reconnects + 1).toNat = w.reconnects.toNat + 1 := by
        have hlarge := c.lt_product w.reconnects.toNat
        rw [UInt32.toNat_add]
        exact Nat.mod_eq_of_lt (by show w.reconnects.toNat + 1 < 2 ^ 32; omega)
      rw [Delays.next, if_neg hover]
      refine ⟨asked_snoc h.asked ?_, .inl ?_, fun _ n hn => ?_, fun _ hn => ?_⟩
      · rw [hraw, ← heq]
        exact (Nat.min_eq_right hunder).symm
      · rw [hlen, hone, heq]
      · show c.product n ≤ _
        have hn : n < w.reconnects.toNat + 1 := hone ▸ hn
        rcases Nat.lt_succ_iff_lt_or_eq.mp hn with hn | rfl
        · exact h.within hlt n hn
        · exact hunder
      · rw [hlen] at hn
        have hn : (w.reconnects + 1).toNat < w.asked.length + 1 := hn
        omega
  · -- the delay is not below the maximum, and nothing is multiplied
    have hmax : c.delayMax ≤ c.delay := UInt32.not_lt.mp hlt
    have hle : c.delayMax.toNat ≤ c.delay.toNat := UInt32.le_iff_toNat_le.mp hmax
    have hraw : c.raw w.reconnects = c.delay := if_neg hlt
    have hdelay : (c.next w.reconnects).1.toNat = c.delayMax.toNat := by
      rw [Delays.next, hraw]
      split
      · rfl
      · rename_i hover
        have := UInt32.le_iff_toNat_le.mp (UInt32.not_lt.mp hover)
        show c.delay.toNat = _
        omega
    refine ⟨asked_snoc h.asked ?_, .inr hmax, fun h => absurd h hlt, fun h => absurd h hlt⟩
    have hproduct := c.delay_le_product w.asked.length
    rw [hdelay]
    exact (Nat.min_eq_left (by omega)).symm

theorem paced_step (hc : c.Room) (h : WellPaced c w) (hs : w.step c a = some w') : WellPaced c w' := by
  obtain ⟨s, -, rfl⟩ := Option.map_eq_some_iff.mp hs
  unfold Waiting.after
  split
  · exact .fresh s
  · split
    · exact h.sleep hc s
    · exact ⟨h.asked, h.counted, h.within, h.stopped⟩

theorem WellPaced.exact (hc : c.Room) (h : WellPaced c w) : Exact c w :=
  ⟨h.asked, fun hlt => Delays.raw_exact hlt (h.fits hc hlt)⟩

/-! ## A server that is not there -/

def unreachable : RecEnv := ⟨fun _ => true, .errno, []⟩

/-- The first connection is made, and fails in `pselect`. -/
def losesFirst : List Act := connects .plain ++ [tick, .loop (.select .failed), .loop (.errno false)]

/-- The loop thread is about to sleep, and knows where to connect. -/
structure Away (w : Waiting) : Prop where
  loop : w.sys.loop = .check1
  state : ended w.sys.m.state = false
  host : w.sys.m.host ≠ none
  port : 0 < w.sys.m.port ∧ w.sys.m.port % 65536 ≠ 0

theorem lost_first (c : Delays) : ∃ w, Machine.Reach (Waiting.step c) IsWaitingInit Machine.anyAct w ∧ Away w ∧
    w.reconnects = 0 := by
  have hr : (Machine.run (Waiting.step c) (.init (some []) true) losesFirst).map
      (fun w => (w.sys.loop, ended w.sys.m.state, w.sys.m.host.isSome, w.sys.m.port, w.reconnects)) =
        some (.check1, false, true, 1883, 0) := by rfl
  obtain ⟨w, hw, he⟩ := Machine.reach_of_map_any IsWaitingInit ⟨_, _, rfl⟩ hr
  simp only [Prod.mk.injEq] at he
  obtain ⟨hloop, hstate, hhost, hport, hzero⟩ := he
  exact ⟨w, hw, ⟨hloop, hstate, Option.isSome_iff_ne_none.mp hhost, by omega⟩, hzero⟩

/-- A step that has nothing to do with sleeps. -/
theorem step_awake {m : Mosq} {l : LoopPc} (h : Machine.Reach (Waiting.step c) IsWaitingInit Machine.anyAct w)
    (hs : Threads.step w.sys a = some s) (hawake : countsAnew w.sys a s = false ∧ sleeps w.sys a s = false)
    (hm : s.m = m)
    (hl : s.loop = l) : ∃ w', Machine.Reach (Waiting.step c) IsWaitingInit Machine.anyAct w' ∧
      w'.reconnects = w.reconnects ∧ w'.sys.m = m ∧ w'.sys.loop = l := by
  have hstep : w.step c a = some ⟨s, w.reconnects, w.asked⟩ := by
    rw [Waiting.step, hs, Option.map_some, Waiting.after, hawake.1, hawake.2]
    rfl
  exact ⟨_, .step h trivial hstep, rfl, hm, hl⟩

/-- A piece of `mosquitto__reconnect`. -/
theorem step_reconnect (env : RecEnv) {pc : RecPc} {m : Mosq} {next : RecPc ⊕ Rc}
    (h : Machine.Reach (Waiting.step c) IsWaitingInit Machine.anyAct w) (hl : w.sys.loop = .rec_ pc)
    (he : reconnectStep env [] w.sys.m pc = (m, next)) :
    ∃ w', Machine.Reach (Waiting.step c) IsWaitingInit Machine.anyAct w' ∧ w'.reconnects = w.reconnects ∧
    w'.sys.m = m ∧
      w'.sys.loop = match next with
        | .inl pc' => .rec_ pc'
        | .inr rc => if rc = .success then .top else .check1 := by
  have hawake (s : Sys) : countsAnew w.sys (.loop (.tick env)) s = false ∧
      sleeps w.sys (.loop (.tick env)) s = false := by
    simp [countsAnew, sleeps, hl]
  cases next with
  | inl pc' =>
    have hs : Threads.step w.sys (.loop (.tick env)) = some { w.sys.upd m with loop := .rec_ pc' } := by
      simp only [Threads.step, loopStep, hl, he]
    exact step_awake h hs (hawake _) rfl rfl
  | inr rc =>
    have hs : Threads.step w.sys (.loop (.tick env)) =
        some { w.sys.upd m with loop := if rc = .success then .top else .check1 } := by
      simp only [Threads.step, loopStep, hl, he]
    exact step_awake h hs (hawake _) rfl rfl

/-- `mosquitto_reconnect` fails, and the loop thread is where it was. -/
theorem reconnect_fails (h : Machine.Reach (Waiting.step c) IsWaitingInit Machine.anyAct w)
    (hl : w.sys.loop = .rec_ .start) (hhost : w.sys.m.host ≠ none)
    (hport : 0 < w.sys.m.port ∧ w.sys.m.port % 65536 ≠ 0) :
    ∃ w', Machine.Reach (Waiting.step c) IsWaitingInit Machine.anyAct w' ∧ Away w' ∧
    w'.reconnects = w.reconnects := by
  have hstart : reconnectStep unreachable [] w.sys.m .start =
      ({ packetCleanupAll w.sys.m with pingT := false }, .inl .reset) := by
    have hknown : ¬ (w.sys.m.host = none ∨ w.sys.m.port ≤ 0) := by
      rintro (hnone | hle)
      · exact hhost hnone
      · omega
    have hno : checkAll .connect [] = .success := by decide
    simp [reconnectStep, hknown, hno]
  obtain ⟨w1, h1, hn1, hm1, hl1⟩ := step_reconnect unreachable h hl hstart
  obtain ⟨w2, h2, hn2, hm2, hl2⟩ := step_reconnect unreachable h1 hl1 rfl
  obtain ⟨w3, h3, hn3, hm3, hl3⟩ := step_reconnect unreachable h2 hl2 rfl
  have hport3 : w3.sys.m.port = w.sys.m.port := by
    rw [hm3, hm2, hm1]
    rfl
  have hhost3 : w3.sys.m.host = w.sys.m.host := by
    rw [hm3, hm2, hm1]
    rfl
  have hconnect : reconnectStep unreachable [] w3.sys.m .connect =
      ({ w3.sys.m with sock := none }, .inl (.pending .errno)) := by
    have hzero : ¬ w3.sys.m.port % 65536 = 0 := by rw [hport3]; exact hport.2
    simp [reconnectStep, hzero, unreachable]
  obtain ⟨w4, h4, hn4, hm4, hl4⟩ := step_reconnect unreachable h3 hl3 hconnect
  obtain ⟨w5, h5, hn5, hm5, hl5⟩ := step_reconnect unreachable h4 hl4 rfl
  refine ⟨w5, h5, ⟨hl5, ?_, ?_, ?_⟩, by rw [hn5, hn4, hn3, hn2, hn1]⟩
  · rw [hm5]
    rfl
  · rw [hm5, hm4]
    show w3.sys.m.host ≠ none
    rw [hhost3]
    exact hhost
  · rw [hm5, hm4]
    show 0 < w3.sys.m.port ∧ w3.sys.m.port % 65536 ≠ 0
    rw [hport3]
    exact hport

/-- `reconnects` goes up with every sleep that is not too long. -/
theorem lost_again (h : Machine.Reach (Waiting.step c) IsWaitingInit Machine.anyAct w) (haway : Away w)
    (hraw : c.raw w.reconnects ≤ c.delayMax) :
    ∃ w', Machine.Reach (Waiting.step c) IsWaitingInit Machine.anyAct w' ∧ Away w' ∧
    w'.reconnects = w.reconnects + 1 := by
  obtain ⟨hloop, hstate, hhost, hport⟩ := haway
  have hsleep : w.step c tick = some ⟨{ w.sys with loop := .sleep }, w.reconnects + 1,
      w.asked ++ [c.raw w.reconnects]⟩ := by
    have hs : Threads.step w.sys tick = some { w.sys with loop := .sleep } := by
      simp [Threads.step, tick, loopStep, hloop, hstate]
    have hnext : c.next w.reconnects = (c.raw w.reconnects, w.reconnects + 1) := if_neg (UInt32.not_lt.mpr hraw)
    rw [Waiting.step, hs, Option.map_some]
    simp [Waiting.after, tick, countsAnew, sleeps, hloop, hnext]
  have h1 := Machine.Reach.step h trivial hsleep
  obtain ⟨w2, h2, hn2, hm2, hl2⟩ := step_awake h1 (a := .loop (.slept true)) rfl ⟨rfl, rfl⟩ rfl rfl
  have hwake : Threads.step w2.sys tick = some { w2.sys with loop := .rec_ .start } := by
    have hstate2 : ended w2.sys.m.state = false := by
      rw [hm2]
      exact hstate
    simp [Threads.step, tick, loopStep, hl2, hstate2]
  obtain ⟨w3, h3, hn3, hm3, hl3⟩ := step_awake h2 hwake (by simp [tick, countsAnew, sleeps, hl2]) rfl rfl
  have hsame : w3.sys.m = w.sys.m := hm3.trans hm2
  obtain ⟨w4, h4, haway4, hn4⟩ := reconnect_fails h3 hl3 (hsame ▸ hhost) (hsame ▸ hport)
  exact ⟨w4, h4, haway4, by rw [hn4, hn3, hn2]⟩

/-- `reconnects` gets as far as there are products that are not above the maximum. -/
theorem lost_often (hlt : c.delay < c.delayMax) {n : Nat} (hn : ∀ k < n, c.product k ≤ c.delayMax.toNat) :
    ∃ w, Machine.Reach (Waiting.step c) IsWaitingInit Machine.anyAct w ∧ Away w ∧ w.reconnects.toNat = n := by
  induction n with
  | zero =>
    obtain ⟨w, hw, haway, hzero⟩ := lost_first c
    exact ⟨w, hw, haway, by rw [hzero]; rfl⟩
  | succ n ih =>
    obtain ⟨w, hw, haway, hcount⟩ := ih fun k hk => hn k (Nat.lt_succ_of_lt hk)
    have hproduct := hn n (Nat.lt_succ_self n)
    have hmax := UInt32.toNat_lt c.delayMax
    have hfits : c.product w.reconnects.toNat < 2 ^ 32 := by
      rw [hcount]
      omega
    have hraw : c.raw w.reconnects ≤ c.delayMax := by
      rw [UInt32.le_iff_toNat_le, Delays.raw_exact hlt hfits, hcount]
      exact hproduct
    obtain ⟨w', hw', haway', hcount'⟩ := lost_again hw haway hraw
    refine ⟨w', hw', haway', ?_⟩
    have hlarge := c.lt_product n
    rw [hcount', UInt32.toNat_add, hcount]
    exact Nat.mod_eq_of_lt (by show n + 1 < 2 ^ 32; omega)

/-- On every run all that has been asked for since the last accepted connection is as without an overflow,
    and there is none, exactly when a delay that is not above the maximum has a next one that fits. -/
theorem backoff_iff (c : Delays) :
    (∀ w, Machine.Reach (Waiting.step c) IsWaitingInit Machine.anyAct w → Exact c w) ↔ c.Room := by
  constructor
  · intro h hlt n hn
    have hall : ∀ k < n + 1, c.product k ≤ c.delayMax.toNat := fun k hk =>
      (Delays.product_mono (Nat.le_of_lt_succ hk)).trans hn
    obtain ⟨w, hw, -, hcount⟩ := lost_often hlt hall
    have hexact := (h w hw).product hlt
    rw [hcount] at hexact
    rw [← hexact]
    exact UInt32.toNat_lt _
  · intro hc w hw
    have hpaced : WellPaced c w := by
      refine hw.inv ?_ fun _ _ _ hi _ hs => paced_step hc hi hs
      rintro _ ⟨id, cleanStart, rfl⟩
      exact .fresh _
    exact hpaced.exact hc

end Runs

/-- The first example in `mosquitto.h`. -/
example : (List.range 6).map (reconnectDelaySet 2 10 false).ideal = [2, 4, 6, 8, 10, 10] := by decide

/-- And the second, where it has 3, 6, 12, 24, 30 and 30. -/
example : (List.range 6).map (reconnectDelaySet 3 30 true).ideal = [3, 12, 27, 30, 30, 30] := by decide

end Artemisia.Threads
