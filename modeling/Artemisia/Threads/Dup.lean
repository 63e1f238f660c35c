/-
  Artemisia.Threads.Dup — is the DUP flag set exactly on what has been sent before?

  `message__retry_check` sets it, for what `message__reconnect_reset` leaves to be sent again; a release does not.
  The reset goes by the place in the store: what fits the send maximum is sent again, and the rest for the
  first time, whether it has been sent or not.

  Proved:
  - `step_marked`:      a step that meets `Marks` hands over no PUBLISH with the wrong flag.
  - `dup_iff_sent`:     so over a run.
  - `offline_flagged`:  a message that is published without a connection has the flag when it is first sent.
-/
import Artemisia.Threads.Sendings

namespace Artemisia.Threads

open Artemisia.Property Artemisia.Client

/-! ## The flag -/

/-- A PUBLISH of the message is among these. -/
def sentBefore (uid : Nat) (log : List Sending) : Bool := log.any (·.uid = uid)

/-- Each PUBLISH has the DUP flag if there was one of its message before it, and not otherwise. -/
def Marked (x : Sys × List Sending) : Prop := Each (fun y t => y.dup = sentBefore y.uid t) x.2

/-- A reset has a retry send again only what has been sent, and has the flag of the rest say whether it
    has been. -/
def resetMarks (max : Nat) (l : List Message) (log : List Sending) : Bool :=
  (l.take max).all (fun e => due { e with state := resetOutState e } → sentBefore e.uid log) ∧
    (l.drop max).all (fun e => e.dup = sentBefore e.uid log)

def Marks (x : Sys × List Sending) (a : Act) : Bool :=
  resets x.1 a → resetMarks x.1.m.msgsOut.inflightMaximum x.1.m.msgsOut.inflight x.2

/-! ## One step -/

structure Marking (x : Sys × List Sending) : Prop where
  numbers : Numbers x
  /-- What a retry is to send has been sent. -/
  owed : ∀ e ∈ x.1.m.msgsOut.inflight, due e = true → sentBefore e.uid x.2 = true
  /-- The flag of what a release is to send. -/
  fresh : ∀ e ∈ x.1.m.msgsOut.inflight, e.state = .invalid → e.dup = sentBefore e.uid x.2
  marked : Marked x

theorem sentBefore_iff {uid : Nat} {log : List Sending} : sentBefore uid log = true ↔ ∃ z ∈ log, z.uid = uid := by
  simp [sentBefore]

/-- What is handed over for other messages does not count. -/
theorem sentBefore_append {uid : Nat} {l log : List Sending} (h : ∀ z ∈ l, z.uid ≠ uid) :
    sentBefore uid (l ++ log) = sentBefore uid log := by
  rw [sentBefore, List.any_append, ← sentBefore, ← sentBefore, Bool.or_eq_right_iff_imp]
  intro hl
  obtain ⟨z, hz, hu⟩ := List.any_eq_true.mp hl
  exact absurd (by simpa using hu) (h z hz)

section Steps

variable {x : Sys × List Sending} {a : Act}

/-- A message that is stored has not been sent. -/
theorem not_sentBefore (hi : Numbers x) : sentBefore x.1.m.published x.2 = false := by
  rw [Bool.eq_false_iff]
  intro h
  obtain ⟨z, hz, hu⟩ := sentBefore_iff.mp h
  exact absurd hu (hi.below z hz).ne

/-- The messages out and the one that is stored have the flag they are to be sent with. -/
theorem sending_dup (hi : Marking x) (sock : Option Nat) {e : Message}
    (he : e ∈ x.1.m.msgsOut.inflight ++ stored x.1 a)
    (hr : ready e = true) : (e.sending sock).dup = sentBefore e.uid x.2 := by
  unfold Message.sending
  dsimp only
  by_cases hs : e.state = .invalid
  · rw [if_pos hs]
    rcases List.mem_append.mp he with he | he
    · exact hi.fresh e he hs
    · obtain ⟨hu, -, hd, -⟩ := stored_uid he
      rw [hu, hd, not_sentBefore hi.numbers]
  · have hdue : due e = true := by simpa [ready, hs] using hr
    rw [if_neg hs]
    rcases List.mem_append.mp he with he | he
    · exact (hi.owed e he hdue).symm
    · exact absurd (stored_uid he).2.1 hs

/-- What a pass over the store hands over has the right flags. -/
theorem marked_passes (hi : Marking x) {l' h : List Message}
    (hp : Passes x.1.m.sock (x.1.m.msgsOut.inflight ++ stored x.1 a) l' h) :
    Each (fun y t => y.dup = sentBefore y.uid t) ((h.map (Message.sending x.1.m.sock)).reverse ++ x.2) := by
  refine each_append hi.marked (fun pre y post hy => ?_)
  obtain ⟨e, hmem, rfl, hlt⟩ := hp.split (uids_stored hi.numbers.uids) hy
  show (e.sending x.1.m.sock).dup = sentBefore e.uid _
  rw [sending_dup hi x.1.m.sock (hp.sublist.subset hmem) (hp.ready e hmem).2, sentBefore_append]
  intro z hz
  exact (hlt z (List.mem_reverse.mp hz)).ne

/-- The record after a pass over the store, for a message that was not sent and for one that was. -/
theorem sentBefore_passes {h : List Message} {sock : Option Nat} {e : Message} (log : List Sending) :
    ((∀ z ∈ h, z.uid ≠ e.uid) →
      sentBefore e.uid ((h.map (Message.sending sock)).reverse ++ log) = sentBefore e.uid log) ∧
    (e ∈ h → sentBefore e.uid ((h.map (Message.sending sock)).reverse ++ log) = true) := by
  constructor
  · intro hne
    refine sentBefore_append (fun z hz => ?_)
    obtain ⟨e', he', rfl⟩ := List.mem_map.mp (List.mem_reverse.mp hz)
    exact hne e' he'
  · intro he
    refine sentBefore_iff.mpr ⟨e.sending sock, List.mem_append_left _ ?_, rfl⟩
    exact List.mem_reverse.mpr (List.mem_map_of_mem he)

theorem marking_passes (hi : Marking x) {y : Sys × List Sending} (hn : Numbers y) {h : List Message}
    (hp : Passes x.1.m.sock (x.1.m.msgsOut.inflight ++ stored x.1 a) y.1.m.msgsOut.inflight h)
    (hlog : y.2 = (h.map (Message.sending x.1.m.sock)).reverse ++ x.2) : Marking y := by
  have hex := hp.exists (uids_stored hi.numbers.uids)
  refine ⟨hn, fun e' he' hd => ?_, fun e' he' hs => ?_, ?_⟩
  · obtain ⟨e, he, ⟨hu, hne⟩ | ⟨hu, hmem⟩⟩ := hex e' he'
    · have hstate := (hu.state (by simp [ready, hd])).1
      have hdue : due e = true := by simpa [due, hstate] using hd
      rw [hlog, hu.uid, (sentBefore_passes x.2).1 hne]
      rcases List.mem_append.mp he with he | he
      · exact hi.owed e he hdue
      · simp [due, (stored_uid he).2.1] at hdue
    · rw [hlog, hu.uid]
      exact (sentBefore_passes x.2).2 hmem
  · obtain ⟨e, he, ⟨hu, hne⟩ | ⟨hu, hmem⟩⟩ := hex e' he'
    · obtain ⟨hstate, hdup⟩ := hu.state (by simp [ready, hs])
      have hse : e.state = .invalid := hstate.symm.trans hs
      rw [hlog, hu.uid, hdup hse, (sentBefore_passes x.2).1 hne]
      rcases List.mem_append.mp he with he | he
      · exact hi.fresh e he hse
      · obtain ⟨huid, -, hd, -⟩ := stored_uid he
        rw [huid, hd, not_sentBefore hi.numbers]
    · obtain ⟨hstate, hne⟩ := hu.state (by simp [ready, hs])
      exact absurd (hstate.symm.trans hs) hne
  · unfold Marked
    rw [hlog]
    exact marked_passes hi hp

/-- A reset that meets the condition leaves the flags right. -/
theorem marking_reset (hi : Marking x) {y : Sys × List Sending} (hn : Numbers y) (hlog : y.2 = x.2)
    (hl : y.1.m.msgsOut.inflight = (resetOutLoop x.1.m.msgsOut.inflightMaximum x.1.m.msgsOut.inflight).2)
    (hg : resetMarks x.1.m.msgsOut.inflightMaximum x.1.m.msgsOut.inflight x.2 = true) : Marking y := by
  rw [resetMarks, decide_eq_true_eq, List.all_eq_true, List.all_eq_true] at hg
  obtain ⟨htake, hdrop⟩ := hg
  rw [resetOutLoop_eq] at hl
  refine ⟨hn, fun e' he' hd => ?_, fun e' he' hs => ?_, ?_⟩
  · rw [hl] at he'
    rw [hlog]
    rcases List.mem_append.mp he' with he' | he'
    · obtain ⟨e, he, rfl⟩ := List.mem_map.mp he'
      exact of_decide_eq_true (htake e he) hd
    · obtain ⟨e, he, rfl⟩ := List.mem_map.mp he'
      cases hd
  · rw [hl] at he'
    rw [hlog]
    rcases List.mem_append.mp he' with he' | he'
    · obtain ⟨e, he, rfl⟩ := List.mem_map.mp he'
      exact hi.fresh e (List.mem_of_mem_take he) (invalid_resetOutState hs)
    · obtain ⟨e, he, rfl⟩ := List.mem_map.mp he'
      exact of_decide_eq_true (hdrop e he)
  · unfold Marked
    rw [hlog]
    exact hi.marked

theorem step_marked {y : Sys × List Sending} (hi : Marking x) (hg : Marks x a = true)
    (h : sendStep x a = some y) :
    Marking y := by
  have hn := step_numbers hi.numbers h
  obtain ⟨hst, hlog⟩ := Machine.recorded_some.mp h
  cases hr : resets x.1 a with
  | true =>
    obtain ⟨hnone, hl⟩ := reset_sends (step_moves hst) hr
    rw [noteSendings, hnone] at hlog
    exact marking_reset hi hn hlog hl (of_decide_eq_true hg hr)
  | false =>
    obtain ⟨sent, hp, hh⟩ := passes_step (step_sends (step_moves hst)) hi.numbers.store hr
    rw [noteSendings, hh] at hlog
    exact marking_passes hi hn hp hlog

end Steps

/-! ## Runs -/

/-- In a run whose resets all meet the condition, a PUBLISH of QoS 1 or 2 has the DUP flag if a PUBLISH of its
    message was handed over before, and not otherwise. -/
theorem dup_iff_sent {x : Sys × List Sending} {id : Option Bytes} {cleanStart : Bool}
    (h : Machine.Reach sendStep (· = sendInit id cleanStart) (fun x a => Marks x a = true) x) : Marked x := by
  have hi : Marking x := by
    refine h.inv (fun x hx => ⟨init_numbers hx, ?_, ?_, ?_⟩) (fun _ _ _ hi hg hs => step_marked hi hg hs)
    all_goals
      subst hx
      simp [sendInit, Sys.init, Mosq.new, Marked, Each]
  exact hi.marked

/-- A message is sent, and sent again on the next connection; then another one is published. -/
def resendsOne : List Act := established [] ++ [publishes] ++ loses ++ [tick, tick, tick] ++
  reconnects ++ [publishes]

theorem dup_iff_sent_resendsOne : ∃ x, Machine.run sendStep (sendInit none true) resendsOne = some x ∧
    x.2.map (fun y => (y.uid, y.dup)) = [(1, false), (0, true), (0, false)] ∧ Marked x := by
  have hm : Machine.Meets sendStep (fun x a => Marks x a = true) (sendInit none true) resendsOne := by decide
  have hr : (Machine.run sendStep (sendInit none true) resendsOne).map (fun x => x.2.map fun y =>
      (y.uid, y.dup)) =
      some [(1, false), (0, true), (0, false)] := by decide
  obtain ⟨x, hx, hreach, hl⟩ := Machine.reach_of_map (· = sendInit none true) rfl hm hr
  exact ⟨x, hx, hl, dup_iff_sent hreach⟩

def offline : List Act := publishes :: established []

/-- The reset has it sent again, although it has never been sent. -/
theorem offline_flagged : ¬ ∀ x, Machine.Reach sendStep (· = sendInit none true) Machine.anyAct x → Marked x := by
  intro h
  have hr : (Machine.run sendStep (sendInit none true) offline).map (fun x => x.2.map fun y => (y.uid, y.dup)) =
      some [(0, true)] := by decide
  obtain ⟨x, hreach, hl⟩ := Machine.reach_of_map_any (· = sendInit none true) rfl hr
  obtain ⟨y, hlog, hy⟩ := List.map_eq_singleton_iff.mp hl
  have hmarked := h x hreach
  rw [Marked, hlog] at hmarked
  simp only [Prod.mk.injEq] at hy
  have hfalse : y.dup = false := hmarked.1
  rw [hy.2] at hfalse
  cases hfalse

end Artemisia.Threads
