/-
  Artemisia.Threads.Keepalive — does the keepalive do what it is for?

  The loop thread is prompt if it gets back into `pselect` within `late` ms of leaving it, and out of it within
  `late` ms of the timeout. What the application calls meanwhile is left open, and so is what the server sends.

  Proved:
  - `unanswered_since`:  an active client gives its connection up only if a PINGREQ has waited for its PINGRESP
                         as long as the least keepalive in force meanwhile.
  - `keepalive_speaks`:  with a keepalive of at most `H`, a prompt client writes a packet or queues a
                         PINGREQ every `H + 1` s and thrice `late`, from the begin of the connection on.
  - `keepalive_notices`: and from a server that it hears nothing of it is gone within `4 H + 2` s and six
                         times `late`.
  - `keepalive_off`:     without a keepalive `pselect` does not wait at all.
-/
import Artemisia.Threads.Clock
import Artemisia.Threads.Liveness
import Artemisia.Threads.Outflow

namespace Artemisia.Threads

open Artemisia.Property Artemisia.Client

/-! ## What leaves the PINGREQ alone -/

section Frames

variable (alloc : Alloc) (env : RecEnv) (m : Mosq)

@[simp] theorem pingT_emit (e : Event) : (m.emit e).pingT = m.pingT := rfl
@[simp] theorem pingT_setState (c : ClientState) : (m.setState c).pingT = m.pingT := rfl
@[simp] theorem pingT_socketClose : m.socketClose.pingT = m.pingT := rfl
@[simp] theorem pingT_socketOpen : m.socketOpen.pingT = m.pingT := rfl
@[simp] theorem pingT_packetQueue (p : Packet) : (packetQueue m p).pingT = m.pingT := rfl
@[simp] theorem pingT_incrementReceiveQuota : (incrementReceiveQuota m).pingT = m.pingT := rfl
@[simp] theorem pingT_decrementReceiveQuota : (decrementReceiveQuota m).pingT = m.pingT := rfl
@[simp] theorem pingT_incrementSendQuota : (incrementSendQuota m).pingT = m.pingT := rfl
@[simp] theorem pingT_decrementSendQuota : (decrementSendQuota m).pingT = m.pingT := rfl
@[simp] theorem pingT_connackLimits (l : List MosquittoProperty) : (connackLimits m l).pingT = m.pingT := rfl
@[simp] theorem pingT_completeMessage (d : MsgData) (mid : UInt16) :
    (completeMessage m d mid).pingT = m.pingT := rfl
@[simp] theorem pingT_midGenerate : (midGenerate m).1.pingT = m.pingT := rfl
@[simp] theorem pingT_messageQueueIn (msg : Message) : (messageQueueIn m msg).pingT = m.pingT := rfl

@[simp] theorem pingT_sendPacket (n : Nat) (p : Packet) : (sendPacket alloc m n p).1.pingT = m.pingT := by
  unfold sendPacket
  split <;> rfl

@[simp] theorem pingT_sendPuback (mid : UInt16) (r : UInt8) : (sendPuback alloc m mid r).1.pingT = m.pingT := by
  simp [sendPuback, sendCommandWithMid]

@[simp] theorem pingT_sendPubcomp (mid : UInt16) : (sendPubcomp alloc m mid).1.pingT = m.pingT := by
  simp [sendPubcomp, sendCommandWithMid]

@[simp] theorem pingT_sendPubrec (mid : UInt16) (r : UInt8) : (sendPubrec alloc m mid r).1.pingT = m.pingT := by
  simp only [sendPubrec, sendCommandWithMid, pingT_sendPacket]
  split <;> simp

@[simp] theorem pingT_sendPubrel (mid : UInt16) : (sendPubrel alloc m mid).1.pingT = m.pingT := by
  simp [sendPubrel, sendCommandWithMid]

@[simp] theorem pingT_sendPingresp : (sendPingresp alloc m).1.pingT = m.pingT := by
  simp [sendPingresp, sendSimpleCommand]

@[simp] theorem pingT_sendPublish (msg : Message) : (sendPublish alloc m msg).1.pingT = m.pingT := by
  unfold sendPublish sendRealPublish
  repeat' split
  all_goals simp

@[simp] theorem pingT_releaseLoop (l : List Message) : (releaseLoop alloc m l).1.pingT = m.pingT := by
  induction l generalizing m with
  | nil => rfl
  | cons cur rest ih =>
    have hs := pingT_sendPublish alloc m cur.released
    unfold releaseLoop
    repeat' split
    · rename_i m' e
      rw [e] at hs
      exact (ih _).trans hs
    · rename_i m' rc _ e
      rw [e] at hs
      exact hs
    · exact ih m
    · rfl

@[simp] theorem pingT_messageReleaseToInflight : (messageReleaseToInflight alloc m).1.pingT = m.pingT :=
  pingT_releaseLoop alloc m _

@[simp] theorem pingT_messageQueueOut (msg : Message) : (messageQueueOut alloc m msg).1.pingT = m.pingT :=
  pingT_messageReleaseToInflight alloc _

@[simp] theorem pingT_retryLoop (l : List Message) : (retryLoop alloc m l).1.pingT = m.pingT := by
  induction l generalizing m with
  | nil => rfl
  | cons msg rest ih =>
    unfold retryLoop
    split <;> simp [ih]

@[simp] theorem pingT_messageRetryCheck : (messageRetryCheck alloc m).pingT = m.pingT := pingT_retryLoop alloc m _

@[simp] theorem pingT_mosquittoPublishV5 (a : PublishArgs) :
    (mosquittoPublishV5 alloc m a).1.pingT = m.pingT := by
  unfold mosquittoPublishV5
  dsimp only
  repeat' split
  all_goals simp

@[simp] theorem pingT_handlePublish (p : PublishIn) : (handlePublish alloc m p).1.pingT = m.pingT := by
  unfold handlePublish acceptPublish
  repeat' split
  all_goals simp

@[simp] theorem pingT_handlePubrel (flags : UInt8) (mid : Except Rc UInt16) (tail : Except Rc UInt8) :
    (handlePubrel alloc m flags mid tail).1.pingT = m.pingT := by
  unfold handlePubrel releaseMessage
  dsimp only
  repeat' split
  all_goals simp

@[simp] theorem pingT_handlePubackcomp (type : Ack) (mid : Except Rc UInt16) (tail : Except Rc UInt8) :
    (handlePubackcomp alloc m type mid tail).1.pingT = m.pingT := by
  unfold handlePubackcomp acknowledge
  repeat' split
  all_goals simp

@[simp] theorem pingT_handlePubrec (mid : Except Rc UInt16) (tail : Except Rc UInt8) :
    (handlePubrec alloc m mid tail).1.pingT = m.pingT := by
  unfold handlePubrec receiveMessage refuseMessage
  repeat' split
  all_goals simp

@[simp] theorem pingT_handleConnack (flags reason : Except Rc UInt8) (l : Except Rc (List MosquittoProperty)) :
    (handleConnack m flags reason l).1.pingT = m.pingT := by
  unfold handleConnack
  repeat' split
  all_goals simp

@[simp] theorem pingT_handleDisconnect (reason : Except Rc UInt8) (tail : Rc) :
    (handleDisconnect m reason tail).1.pingT = m.pingT := by
  unfold handleDisconnect
  repeat' split
  all_goals rfl

@[simp] theorem pingT_connackSwitch (reason : UInt8) : (connackSwitch alloc m reason).1.pingT = m.pingT := by
  unfold connackSwitch
  repeat' split
  all_goals simp

@[simp] theorem pingT_disconnectSend (r : UInt8) (l : List MosquittoProperty) :
    (disconnectSend alloc m r l).1.pingT = m.pingT := by
  unfold disconnectSend sendDisconnect
  split <;> simp

@[simp] theorem pingT_setupMosquitto (c : ConnectConfig) : (setupMosquitto m c).pingT = m.pingT := by
  obtain ⟨username, password, e⟩ := setupMosquitto_eq m c
  rw [e]

@[simp] theorem pingT_connectBind (c : ConnectConfig) : (connectBind env m c).1.pingT = m.pingT := by
  rcases connectBind_cases m env c with ⟨e, -⟩ | ⟨id, e⟩
  · rw [e]
  · rw [e]

@[simp] theorem pingT_sendConnect (l : List MosquittoProperty) : (sendConnect alloc m l).1.pingT = m.pingT := by
  have ha : (adoptReceiveMaximum m l).pingT = m.pingT := by
    obtain ⟨maximum, quota, e⟩ := adoptReceiveMaximum_eq m l
    rw [e]
  unfold sendConnect
  split
  · rfl
  · dsimp only
    split
    · exact ha
    · rw [pingT_sendPacket, ha]

@[simp] theorem pingT_packetWriteLoop (stop : Rc) (taken : Nat) :
    (packetWriteLoop stop taken m).1.pingT = m.pingT := by
  induction taken generalizing m with
  | zero =>
    unfold packetWriteLoop
    split <;> rfl
  | succ n ih =>
    unfold packetWriteLoop
    split
    · rfl
    · rfl
    · refine (ih _).trans ?_
      split <;> rfl

@[simp] theorem pingT_packetWrite (stop : Rc) (taken : Nat) : (packetWrite stop taken m).1.pingT = m.pingT := by
  have ht : (takeNext m).pingT = m.pingT := by
    unfold takeNext
    split <;> rfl
  unfold packetWrite
  repeat' split
  all_goals simp [ht]

end Frames

/-- `handle__pingresp` takes a PINGRESP. -/
def answers (s : Sys) : Act → Bool
  | .loop (.packet .pingresp _ _) => s.m.state = .active
  | _ => false

section Pings

variable {s s' : Sys} {a : Act}

theorem pingT_recMoves {env : RecEnv} {l : List MosquittoProperty} {m m' : Mosq} {pc : RecPc} {next : RecPc ⊕ Rc}
    (h : RecMoves env l m pc m' next) :
    (pc = .start ∧ next = .inl .reset ∧ m'.pingT = false) ∨
    (m'.pingT = m.pingT ∧ (pc = .start → next ≠ .inl .reset)) := by
  cases h with
  | start => exact .inl ⟨rfl, rfl, rfl⟩
  | sent hs => exact .inr ⟨by simp, by simp⟩
  | unsent rc hs => exact .inr ⟨by simp, by simp⟩
  | _ => exact .inr ⟨rfl, by simp⟩

theorem pingT_handlePacket (alloc : Alloc) (m : Mosq) (p : InPacket) :
    (handlePacket alloc m p).1.pingT = m.pingT ∨
      (p = .pingresp ∧ m.state = .active ∧ (handlePacket alloc m p).1.pingT = false) := by
  cases p with
  | pingresp =>
    by_cases hs : m.state = .active
    · right
      simp [handlePacket, hs]
    · left
      simp [handlePacket, hs]
  | _ =>
    left
    simp only [handlePacket]
    repeat' split
    all_goals simp

/-- With memory for it, the PINGREQ is queued. -/
theorem pings_pingT (hs : Threads.step s a = some s') (hp : pings s a = true) :
    ∃ due alloc, a = .loop (.keepalive due alloc) ∧ (alloc .pingreq = true → s'.m.pingT = true) := by
  cases a with
  | loop e =>
    cases e with
    | keepalive due alloc =>
      refine ⟨due, alloc, rfl, fun halloc => ?_⟩
      simp only [pings, decide_eq_true_eq] at hp
      obtain ⟨-, hsock, hdue, hk, hping⟩ := hp
      obtain ⟨-, ⟨h, -⟩ | ⟨-, h | h, -⟩ | ⟨-, -, -, rfl⟩⟩ := keepalive_cases hs
      · exact absurd h hsock
      · simp [h] at hdue
      · exact absurd h hk
      · rw [keepaliveDue, if_pos hping]
        simp [sendPingreq, sendSimpleCommand, sendPacket, packetAlloc, halloc]
    | _ => cases hp
  | _ => cases hp

theorem pingT_keepalive {due : Bool} {alloc : Alloc}
    (h : Threads.step s (.loop (.keepalive due alloc)) = some s') :
    pings s (.loop (.keepalive due alloc)) = true ∨ s'.m.pingT = s.m.pingT := by
  obtain ⟨hl, ⟨-, rfl⟩ | ⟨-, -, rfl⟩ | ⟨hs, rfl, hk, rfl⟩⟩ := keepalive_cases h
  · exact .inr rfl
  · exact .inr rfl
  · unfold keepaliveDue
    split
    · rename_i ha
      exact .inl (by simpa [pings, hl, hs, hk] using ha)
    · exact .inr rfl

/-- A PINGREQ waits for its answer until there is one, or the next `mosquitto__reconnect`. -/
theorem step_pingT (hs : Threads.step s a = some s') :
    ((restarts s a s' = true ∨ answers s a = true) ∧ s'.m.pingT = false) ∨ pings s a = true ∨
    s'.m.pingT = s.m.pingT := by
  by_cases hk : ∃ due alloc, a = .loop (.keepalive due alloc)
  · obtain ⟨due, alloc, rfl⟩ := hk
    exact .inr (pingT_keepalive hs)
  cases step_moves hs with
  | connect c hq => exact .inr (.inr (by simp [startConnect]))
  | publish alloc a hq ha => exact .inr (.inr (by simp))
  | bind env c hq => exact .inr (.inr (by simp))
  | discSend env r l hq => exact .inr (.inr (by simp))
  | queueRec env pc pc' l m hq hm =>
    rcases pingT_recMoves hm with ⟨rfl, e, hp⟩ | ⟨hp, -⟩
    · cases e
      exact .inl ⟨.inl (by simp [restarts, hq]), hp⟩
    · exact .inr (.inr hp)
  | queueRecEnd env pc l m rc hq hm =>
    rcases pingT_recMoves hm with ⟨-, e, -⟩ | ⟨hp, -⟩
    · cases e
    · exact .inr (.inr hp)
  | loopRec env pc pc' m hl hm =>
    rcases pingT_recMoves hm with ⟨rfl, e, hp⟩ | ⟨hp, -⟩
    · cases e
      exact .inl ⟨.inl (by simp [restarts, hl]), hp⟩
    · exact .inr (.inr hp)
  | loopRecEnd env pc m rc hl hm =>
    rcases pingT_recMoves hm with ⟨-, e, -⟩ | ⟨hp, -⟩
    · cases e
    · exact .inr (.inr hp)
  | packet i n p again alloc hl hsock hst t ht =>
    have hm : s'.m = (handlePacket alloc s.m p).1 := outflow_readMoves ht
    rw [hm]
    rcases pingT_handlePacket alloc s.m p with e | ⟨rfl, ha, e⟩
    · exact .inr (.inr e)
    · exact .inl ⟨.inr (by simp [answers, ha]), e⟩
  | connack r max turn env hl => exact .inr (.inr (by simp))
  | discCall turn env hl => exact .inr (.inr rfl)
  | rcCall rc turn env hl => exact .inr (.inr rfl)
  | kaCall rc env hl => exact .inr (.inr rfl)
  | write i n taken e again m rc hl he => exact .inr (.inr (by simpa [he] using pingT_packetWrite s.m e.rc taken))
  | writeDisconnect i n taken e again m hl he =>
    exact .inr (.inr (by simpa [he] using pingT_packetWrite s.m e.rc taken))
  | ping alloc hl hsock ht => exact absurd ⟨true, alloc, rfl⟩ hk
  | _ => exact .inr (.inr rfl)

/-- After either nothing waits. -/
theorem answered_pingT (h : Moves s a s') (ha : restarts s a s' = true ∨ answers s a = true) :
    s'.m.pingT = false := by
  rcases ha with ha | ha
  · cases h with
    | queueRec env pc pc' l m hq hm =>
      rcases pingT_recMoves hm with ⟨-, -, e⟩ | ⟨-, hne⟩
      · exact e
      · cases pc <;> cases pc' <;> simp [restarts, hq] at ha hne
    | loopRec env pc pc' m hl hm =>
      rcases pingT_recMoves hm with ⟨-, -, e⟩ | ⟨-, hne⟩
      · exact e
      · cases pc <;> cases pc' <;> simp [restarts, hl] at ha hne
    | queueRecEnd env pc l m rc hq hm => cases pc <;> simp [restarts, hq] at ha
    | loopRecEnd env pc m rc hl hm =>
      simp only [restarts, decide_eq_true_eq] at ha
      have hne := ha.2
      split at hne <;> cases hne
    | create env c hq ht => simp [restarts, hq] at ha
    | created env c hq ht => simp [restarts, hq] at ha
    | bind env c hq => simp [restarts, hq] at ha
    | setNew env l hq => simp [restarts, hq] at ha
    | discSend env r l hq => simp [restarts, hq] at ha
    | waitNew env hl => simp [restarts, hl] at ha
    | connack r max turn env hl => simp [restarts, hl] at ha
    | discCall turn env hl => simp [restarts, hl] at ha
    | rcClose rc turn env hl => simp [restarts, hl] at ha
    | rcCall rc turn env hl => simp [restarts, hl] at ha
    | kaCall rc env hl => simp [restarts, hl] at ha
    | check1 env hl => simp [restarts, hl] at ha
    | check2 env hl => simp [restarts, hl] at ha
    | _ => cases ha
  · cases h with
    | packet i n p again alloc hl hsock hst t ht =>
      cases p with
      | pingresp =>
        have hact : s.m.state = .active := by simpa [answers] using ha
        have hm : s'.m = (handlePacket alloc s.m .pingresp).1 := outflow_readMoves ht
        simp [hm, handlePacket, hact]
      | _ => cases ha
    | _ => cases ha

theorem callsBack_afterTurn {m : Mosq} {rc : Rc} {turn : Turn} : callsBack (afterTurn m rc turn) = false :=
  afterTurn_elim (P := fun pc => callsBack pc = false)
    (fun _ => afterIo_elim (P := fun pc => callsBack pc = false) (fun _ => rfl) rfl rfl) (fun _ => rfl)
      (fun _ _ => rfl)
    (fun _ _ => rfl)

theorem hears_answers (h : Moves s a s') (ha : answers s a = true) (large : Bool) :
    hears s a large s' = true := by
  cases h with
  | packet i n p again alloc hl hsock hst t ht =>
    cases p with
    | pingresp =>
      have hact : s.m.state = .active := by simpa [answers] using ha
      have hdone : handlePacket alloc s.m .pingresp = ({ s.m with pingT := false }, .done .success) := by
        simp [handlePacket, hact]
      simp only [hears, hl]
      cases ht with
      | done m rc e => simp [callsBack_afterTurn]
      | connack m r max e => exact absurd (congrArg Prod.snd (hdone.symm.trans e)) (by simp)
      | unsupported m e => simp [callsBack_afterTurn]
      | disconnect e => exact absurd (congrArg Prod.snd (hdone.symm.trans e)) (by simp)
    | _ => cases ha
  | _ => cases ha

end Pings

/-! ## What is recorded -/

/-- When things last happened, in milliseconds where nothing else is said. -/
structure Watch where
  /-- The loop thread went into `pselect` or came out of it, or into `mosquitto_loop`. -/
  moved : Nat
  /-- The connection began, a packet was written or a PINGREQ was queued. -/
  spoke : Nat
  /-- The connection began, or `packet__read` got something. -/
  heard : Nat
  /-- A PINGREQ has been queued since. -/
  asked : Bool
  /-- The time, in seconds, of the last PINGREQ without an answer. -/
  pinged : Option Nat
  /-- The least keepalive in force since then. -/
  least : Nat
  /-- There was no keepalive when `next_msg_out` was last set. -/
  off : Bool

def Watch.init : Watch := ⟨0, 0, 0, false, none, 0, false⟩

def enters (s s' : Sys) : Bool := place s.loop = .out ∧ place s'.loop ≠ .out

/-- A connection begins, or the loop thread takes it up. -/
def begins (s : Sys) (a : Act) (s' : Sys) : Bool := s'.m.conns ≠ s.m.conns || enters s s' || restarts s a s'

def Watch.after (w : Watch) (t : Timed) (a : Act) (large : Bool) (s' : Sys) : Watch :=
  let s := t.sys
  { moved := if isSelect a || enters s s' then t.clock else w.moved
    spoke := if begins s a s' || speaks s a s' || pings s a then t.clock else w.spoke
    heard := if begins s a s' || hears s a large s' then t.clock else w.heard
    asked := if begins s a s' || hears s a large s' then false else w.asked || pings s a
    pinged :=
      if restarts s a s' || answers s a then none else if pings s a && s'.m.pingT then some t.time else w.pinged
    least := min (if pings s a then s.m.keepalive else w.least) s'.m.keepalive
    off := if speaks s a s' || restarts s a s' || pings s a then s.m.keepalive = 0 else w.off }

def note (t : Timed) (a : TimedAct) (t' : Timed) (w : Watch) : Watch :=
  match a with
  | .pass _ => w
  | .block => { w with moved := t.clock }
  | .act a large => w.after t a large t'.sys

abbrev Watched := Timed × Watch

def Watched.step : Watched → TimedAct → Option Watched := Machine.recorded Timed.step note

def IsWatchedInit (x : Watched) : Prop := IsTimedInit x.1 ∧ x.2 = .init

/-- A step that reads, writes or begins. -/
theorem watched_act {x y : Watched} {a : Act} {large : Bool} (h : Watched.step x (.act a large) = some y) :
    x.1.agrees a = true ∧ ∃ s, Threads.step x.1.sys a = some s ∧
    y = (x.1.after a large s, x.2.after x.1 a large s) := by
  obtain ⟨h1, h2⟩ := Machine.recorded_some.mp h
  obtain ⟨ha, s, hs, e⟩ := step_act h1
  refine ⟨ha, s, hs, ?_⟩
  rw [e] at h2
  exact Prod.ext e h2

theorem watched_pass {x y : Watched} {ms : Nat} (h : Watched.step x (.pass ms) = some y) :
    y = ({ x.1 with clock := x.1.clock + ms }, x.2) := by
  obtain ⟨h1, h2⟩ := Machine.recorded_some.mp h
  exact Prod.ext (Option.some.inj h1).symm h2

theorem watched_block {x y : Watched} (h : Watched.step x .block = some y) :
    (x.1.sys.loop = .top ∧ x.1.wakeAt = none ∧ x.1.sys.m.sock ≠ none) ∧
      y = ({ x.1 with wakeAt := some (x.1.clock + (pselectTimeout x.1.timeout x.1.nextMsgOut x.1.time).toNat) },
        { x.2 with moved := x.1.clock }) := by
  obtain ⟨h1, h2⟩ := Machine.recorded_some.mp h
  simp only [Timed.step] at h1
  split at h1
  · rename_i hc
    exact ⟨hc, Prod.ext (Option.some.inj h1).symm h2⟩
  · cases h1

/-! ## What a client gives up for -/

section Unanswered

variable {x y : Watched} {a : TimedAct}

/-- A PINGREQ that waits is known with its time, and the times have been set since. -/
def Waits (x : Watched) : Prop :=
  x.1.sys.m.pingT = true → x.2.least ≤ x.1.sys.m.keepalive ∧
    ∃ p, x.2.pinged = some p ∧ p ≤ x.1.time ∧ p ≤ x.1.lastMsgIn ∧ p + x.2.least ≤ x.1.nextMsgOut

theorem act_waits {b : Act} {large : Bool} (h : Waits x) (hs : Watched.step x (.act b large) = some y) :
    Waits y := by
  obtain ⟨-, s, hst, rfl⟩ := watched_act hs
  intro hy
  have hping : s.m.pingT = true := hy
  have hleast : (x.2.after x.1 b large s).least =
      min (if pings x.1.sys b then x.1.sys.m.keepalive else x.2.least) s.m.keepalive := rfl
  have hpinged : (x.2.after x.1 b large s).pinged = if restarts x.1.sys b s || answers x.1.sys b then none
      else if pings x.1.sys b && s.m.pingT then some x.1.time else x.2.pinged := rfl
  have hlast : (x.1.after b large s).lastMsgIn =
      if hears x.1.sys b large s ∨ restarts x.1.sys b s ∨ pings x.1.sys b then x.1.time else x.1.lastMsgIn := rfl
  have hnext : (x.1.after b large s).nextMsgOut =
      if speaks x.1.sys b s ∨ restarts x.1.sys b s ∨ pings x.1.sys b then x.1.time + x.1.sys.m.keepalive
      else x.1.nextMsgOut := rfl
  refine ⟨by rw [hleast]; exact Nat.min_le_right .., ?_⟩
  show ∃ p, (x.2.after x.1 b large s).pinged = some p ∧ p ≤ x.1.time ∧ p ≤ (x.1.after b large s).lastMsgIn ∧
    p + (x.2.after x.1 b large s).least ≤ (x.1.after b large s).nextMsgOut
  rcases step_pingT hst with ⟨-, h'⟩ | hp | h'
  · simp [h'] at hping
  · -- it has just been queued
    obtain ⟨due, alloc, rfl, -⟩ := pings_pingT hst hp
    refine ⟨x.1.time, ?_, Nat.le_refl _, ?_, ?_⟩
    · rw [hpinged, hp, hping]
      rfl
    · rw [hlast, if_pos (.inr (.inr hp))]
    · rw [hnext, if_pos (.inr (.inr hp)), hleast, if_pos hp]
      exact Nat.add_le_add_left (Nat.min_le_left ..) _
  · have hbefore := h'.symm.trans hping
    have hp : pings x.1.sys b = false := by
      by_contra hp
      obtain ⟨due, alloc, rfl, -⟩ := pings_pingT hst (by simpa using hp)
      simp [pings, hbefore] at hp
    have hstill : ¬ (restarts x.1.sys b s || answers x.1.sys b) = true := by
      intro hr
      have := answered_pingT (step_moves hst) (by simpa using hr)
      simp [this] at hping
    obtain ⟨hle, p, hsome, hnow, hin, hout⟩ := h hbefore
    refine ⟨p, ?_, hnow, ?_, ?_⟩
    · rw [hpinged, if_neg hstill, hp]
      exact hsome
    · rw [hlast]
      split
      · exact hnow
      · exact hin
    · have : (x.2.after x.1 b large s).least ≤ x.2.least := by
        rw [hleast, hp]
        exact Nat.min_le_left ..
      rw [hnext]
      split
      · omega
      · omega

theorem step_waits (h : Waits x) (hs : Watched.step x a = some y) : Waits y := by
  cases a with
  | pass ms =>
    obtain rfl := watched_pass hs
    intro hping
    obtain ⟨hle, p, hsome, hnow, hin, hout⟩ := h hping
    exact ⟨hle, p, hsome, hnow.trans (Nat.div_le_div_right (Nat.le_add_right ..)), hin, hout⟩
  | block =>
    obtain ⟨-, rfl⟩ := watched_block hs
    exact h
  | act b large => exact act_waits h hs

/-- Where the socket is closed for the keepalive. -/
theorem gives_up {s s' : Sys} {a : Act} {rc : Rc} (h : Threads.step s a = some s') (hl : s.loop = .misc)
    (hk : s'.loop = .kaCall rc) : (∃ alloc, a = .loop (.keepalive true alloc)) ∧ timesOut s.m true = true := by
  cases a with
  | loop e =>
    cases e with
    | keepalive due alloc =>
      cases step_moves h with
      | unanswered alloc rc hl hs ht => exact ⟨⟨alloc, rfl⟩, ht⟩
      | misc due alloc rc hl ht => cases hk
      | ping alloc hl hs ht => cases hk
    | _ => simp [Threads.step, loopStep, hl] at h
  | queue env =>
    cases step_moves h with
    | create env c hq ht => cases hk
    | _ =>
      have hk : s.loop = .kaCall rc := hk
      rw [hl] at hk
      cases hk
  | _ =>
    cases step_moves h <;>
    · have hk : s.loop = .kaCall rc := hk
      rw [hl] at hk
      cases hk

/-- An active client that closes its socket for the keepalive has had no answer to a PINGREQ for the least
    keepalive in force since then. -/
theorem unanswered_since {b : Act} {large : Bool} {rc : Rc}
    (h : Machine.Reach Watched.step IsWatchedInit Machine.anyAct x) (hs : Watched.step x (.act b large) = some y)
    (hl : x.1.sys.loop = .misc) (hk : y.1.sys.loop = .kaCall rc) (ha : x.1.sys.m.state = .active) :
    ∃ p, x.2.pinged = some p ∧ p + x.2.least ≤ x.1.time := by
  have hwaits : Waits x := by
    refine Machine.Reach.inv (I := Waits) ?_ (fun _ _ _ h _ hs => step_waits h hs) h
    intro x hx hping
    obtain ⟨⟨id, cleanStart, clock, e⟩, -⟩ := hx
    rw [e] at hping
    cases hping
  obtain ⟨hagrees, s, hst, rfl⟩ := watched_act hs
  obtain ⟨⟨alloc, rfl⟩, hto⟩ := gives_up hst hl hk
  have hdue : x.1.due = true := by simpa [Timed.agrees] using hagrees.symm
  simp only [timesOut, decide_eq_true_eq] at hto
  obtain ⟨-, hoff, hno⟩ := hto
  have hping : x.1.sys.m.pingT = true := by simpa [ha] using hno
  obtain ⟨hle, p, hsome, hnow, hin, hout⟩ := hwaits hping
  refine ⟨p, hsome, ?_⟩
  simp only [Timed.due, decide_eq_true_eq] at hdue
  rcases hdue.2 with h' | h'
  · omega
  · omega

end Unanswered

/-! ### Runs with a clock -/

def quietly (l : List Act) : List TimedAct := l.map fun a => .act a false

/-- The connection is made and accepted, and the loop thread goes on to `pselect`. -/
def timedEstablished (properties : List MosquittoProperty) : List TimedAct :=
  quietly (connects .plain ++ [tick]) ++ [.block, .pass 20] ++ quietly (writes ++ ends) ++ [.block, .pass 500] ++
    quietly (reads (connack 0 properties) ++ [tick] ++ idles) ++ [.block]

/-- `pselect` returns for the sake of the keepalive. -/
def wakesToCheck : List TimedAct := quietly [.loop (.select (.ready false)), .loop (.writable false)]

def check : Act := .loop (.keepalive true RecEnv.good.alloc)

/-- A PINGREQ is queued, and a keepalive later the next check is at hand. -/
def unanswered : List TimedAct :=
  timedEstablished [] ++ [.pass 60000] ++ wakesToCheck ++ quietly [check, .loop (.errno false)] ++
    [.block, .pass 60000] ++
    wakesToCheck

def atTenSeconds : Watched := (.init none true 10000, .init)

theorem atTenSeconds_init : IsWatchedInit atTenSeconds := ⟨⟨none, true, 10000, rfl⟩, rfl⟩

theorem unanswered_since_unanswered : ∃ x : Watched, x.1.time = 130 ∧ ∃ p, x.2.pinged = some p ∧
    p + x.2.least ≤ x.1.time := by
  have hr : (Machine.run Watched.step atTenSeconds unanswered).map
      (fun x => (x.1.time, x.1.sys.loop, x.1.sys.m.state,
      (Watched.step x (.act check false)).map fun y => y.1.sys.loop)) =
        some (130, .misc, .active, some (.kaCall .keepalive)) := by decide
  obtain ⟨x, hx, he⟩ := Machine.reach_of_map_any IsWatchedInit atTenSeconds_init hr
  simp only [Prod.mk.injEq] at he
  obtain ⟨htime, hl, ha, hs⟩ := he
  obtain ⟨y, hs, hk⟩ := Option.map_eq_some_iff.mp hs
  exact ⟨x, htime, unanswered_since hx hs hl hk ha⟩

/-! ## No keepalive -/

section Off

variable {x y : Watched} {a : TimedAct}

def started : LoopPc → Bool
  | .none | .waitNew => false
  | _ => true

theorem loopTimeout_long (keepalive : Nat) : 1000 ≤ loopTimeout keepalive := by
  unfold loopTimeout
  split <;> omega

theorem started_step {s s' : Sys} {a : Act} (h : Threads.step s a = some s') (hs : started s'.loop = true) :
    started s.loop = true ∨ (s.loop = .waitNew ∧ s'.loop ≠ .waitNew) := by
  cases hl : s.loop with
  | none =>
    cases a with
    | loop e => cases e <;> simp [Threads.step, loopStep, hl] at h
    | queue env =>
      cases step_moves h with
      | create => cases hs
      | _ =>
        have hs : started s.loop = true := hs
        rw [hl] at hs
        cases hs
    | _ =>
      cases step_moves h <;>
      · have hs : started s.loop = true := hs
        rw [hl] at hs
        cases hs
  | waitNew =>
    refine .inr ⟨rfl, fun e => ?_⟩
    rw [e] at hs
    cases hs
  | _ => exact .inl rfl

/-- When there was no keepalive the next packet is due at once. -/
structure Idle (x : Watched) : Prop where
  due : x.2.off = true → x.1.nextMsgOut ≤ x.1.time
  timeout : started x.1.sys.loop = true → 1000 ≤ x.1.timeout

theorem step_idle (h : Idle x) (hs : Watched.step x a = some y) : Idle y := by
  cases a with
  | pass ms =>
    obtain rfl := watched_pass hs
    exact ⟨fun ho => (h.due ho).trans (Nat.div_le_div_right (Nat.le_add_right ..)), h.timeout⟩
  | block =>
    obtain ⟨-, rfl⟩ := watched_block hs
    exact ⟨h.due, h.timeout⟩
  | act b large =>
    obtain ⟨-, s, hst, rfl⟩ := watched_act hs
    refine ⟨fun ho => ?_, fun hstart => ?_⟩
    · have hoff : (if speaks x.1.sys b s || restarts x.1.sys b s || pings x.1.sys b then
          decide (x.1.sys.m.keepalive = 0)
          else x.2.off) = true := ho
      show (if speaks x.1.sys b s ∨ restarts x.1.sys b s ∨ pings x.1.sys b then x.1.time + x.1.sys.m.keepalive
        else x.1.nextMsgOut) ≤ x.1.time
      split at hoff
      · rename_i hc
        have hk : x.1.sys.m.keepalive = 0 := by simpa using hoff
        rw [if_pos (by simpa [or_assoc] using hc), hk]
        exact Nat.le_refl _
      · rename_i hc
        rw [if_neg (by simpa [and_assoc] using hc)]
        exact h.due hoff
    · show 1000 ≤ (if _ then _ else _ : Int)
      split
      · exact loopTimeout_long _
      · rename_i hno
        exact h.timeout ((started_step hst hstart).resolve_right hno)

/-- Without a keepalive when `next_msg_out` was last set, `pselect` returns at once, each time that
    `mosquitto_loop` is called in the 24 days after that. -/
theorem keepalive_off (h : Machine.Reach Watched.step IsWatchedInit Machine.anyAct x) (hoff : x.2.off = true)
    (htop : x.1.sys.loop = .top) (hset : x.1.nextMsgOut ≠ 0) (hlate : x.1.time ≤ x.1.nextMsgOut + 2147483) :
    pselectTimeout x.1.timeout x.1.nextMsgOut x.1.time = 0 := by
  have hidle : Idle x := by
    refine Machine.Reach.inv (I := Idle) ?_ (fun _ _ _ h _ hs => step_idle h hs) h
    intro x hx
    obtain ⟨⟨id, cleanStart, clock, e⟩, hw⟩ := hx
    refine ⟨fun ho => ?_, fun hstart => ?_⟩
    · rw [hw] at ho
      cases ho
    · rw [e] at hstart
      cases hstart
  have hdue := hidle.due hoff
  have hlong := hidle.timeout (by rw [htop]; rfl)
  have hclip : clipTimeout x.1.timeout x.1.nextMsgOut x.1.time = ((x.1.nextMsgOut : Int) - x.1.time) * 1000 := by
    rw [clipTimeout, if_pos ⟨hset, by omega⟩]
    exact Int.bmod_eq_of_le (by omega) (by omega)
  rw [pselectTimeout, if_neg (show ¬ x.1.timeout < 0 by omega), hclip]
  split <;> omega

/-- The server turns the keepalive off, and a packet is written after that. -/
def turnedOff : List TimedAct :=
  timedEstablished [⟨.serverKeepAlive, (0 : UInt16)⟩] ++ [.pass 50] ++
    quietly (reads .pingreq ++ [.loop (.writable true), .loop (.write 1 .blocked true)] ++ ends) ++ [.pass 2000]

theorem keepalive_off_turnedOff : ∃ x : Watched, x.1.sys.loop = .top ∧ (x.1.nextMsgOut, x.1.time) = (10, 12) ∧
    pselectTimeout x.1.timeout x.1.nextMsgOut x.1.time = 0 := by
  have hr : (Machine.run Watched.step atTenSeconds turnedOff).map
      (fun x => (x.1.sys.loop, x.1.nextMsgOut, x.1.time, x.2.off)) =
      some (.top, 10, 12, true) := by decide
  obtain ⟨x, hx, he⟩ := Machine.reach_of_map_any IsWatchedInit atTenSeconds_init hr
  simp only [Prod.mk.injEq] at he
  obtain ⟨hl, hn, ht, ho⟩ := he
  exact ⟨x, hl, by rw [hn, ht], keepalive_off hx ho hl (by omega) (by omega)⟩

end Off

/-! ## A prompt loop thread -/

/-- The keepalive is on and at most `max`; the loop thread is never `late` ms late, and never 24 days;
    `pselect` is not interrupted, and there is memory for a PINGREQ. -/
def prompt (late max : Nat) (x : Watched) (a : TimedAct) : Bool :=
  x.1.sys.m.keepalive ≠ 0 && x.1.sys.m.keepalive ≤ max &&
  match a with
  | .pass ms => place x.1.sys.loop = .out || x.1.clock + ms ≤ x.1.wakeAt.getD x.2.moved + late
  | .block => x.1.time ≤ x.1.nextMsgOut + 2147483
  | .act (.loop (.select .interrupted)) _ => false
  | .act (.loop (.keepalive _ alloc)) _ => alloc .pingreq
  | _ => true

section Prompt

variable {late max : Nat} {x y : Watched} {a : TimedAct}

theorem prompt_keepalive (h : prompt late max x a = true) :
    x.1.sys.m.keepalive ≠ 0 ∧ x.1.sys.m.keepalive ≤ max := by
  simp only [prompt, Bool.and_eq_true, decide_eq_true_eq] at h
  exact h.1

/-- Where the times stand. -/
structure Ticking (late max : Nat) (x : Watched) : Prop where
  created : Created x.1.sys
  next : x.1.nextMsgOut ≤ x.1.time + max
  set : x.1.nextMsgOut ≠ 0
  last : x.1.lastMsgIn ≤ x.1.time
  timeout : 0 ≤ x.1.timeout ∧ x.1.timeout % 1000 = 0 ∧ x.1.timeout < 2147483648
  blocked : ∀ w, x.1.wakeAt = some w → x.1.sys.loop = .top ∧ x.1.clock ≤ w + late ∧ w ≤ x.1.clock +
    1000 * max + 1000
  moved : place x.1.sys.loop ≠ .out → x.2.moved ≤ x.1.clock
  awake : place x.1.sys.loop ≠ .out → x.1.wakeAt = none → x.1.clock ≤ x.2.moved + late

theorem init_ticking (hmin : 60 ≤ max) (h : IsWatchedInit x) : Ticking late max x := by
  obtain ⟨⟨id, cleanStart, clock, h1⟩, h2⟩ := h
  obtain ⟨t, w⟩ := x
  subst h1 h2
  refine ⟨.init id cleanStart, Nat.add_le_add_left hmin _, Nat.succ_ne_zero _, Nat.le_refl _, ?_, ?_, ?_, ?_⟩
  · exact ⟨Int.le_refl 0, rfl, (by decide : (0 : Int) < 2147483648)⟩
  · intro w hw
    cases hw
  · intro hp
    exact absurd rfl hp
  · intro hp
    exact absurd rfl hp

theorem pass_ticking {ms : Nat} (h : Ticking late max x) (hp : prompt late max x (.pass ms) = true)
    (hs : Watched.step x (.pass ms) = some y) : Ticking late max y := by
  cases watched_pass hs
  have htime : x.1.time ≤ (x.1.clock + ms) / 1000 := Nat.div_le_div_right (Nat.le_add_right ..)
  have hlate : place x.1.sys.loop ≠ .out → x.1.clock + ms ≤ x.1.wakeAt.getD x.2.moved + late := by
    intro hne
    simp only [prompt, Bool.and_eq_true, Bool.or_eq_true, decide_eq_true_eq] at hp
    exact hp.2.resolve_left hne
  refine ⟨h.created, h.next.trans (Nat.add_le_add_right htime _), h.set, h.last.trans htime,
    h.timeout, ?_, ?_, ?_⟩
  · intro w hw
    obtain ⟨htop, -, hmax⟩ := h.blocked w hw
    have hnow := hlate (by rw [htop]; simp [place])
    rw [show x.1.wakeAt = some w from hw] at hnow
    exact ⟨htop, hnow, by simp only; omega⟩
  · intro hne
    exact (h.moved hne).trans (Nat.le_add_right ..)
  · intro hne hw
    have hnow := hlate hne
    rw [show x.1.wakeAt = none from hw] at hnow
    exact hnow

/-- `pselect` is told to wake up when `next_msg_out` is reached. -/
theorem block_wakes (h : Ticking late max x) (hp : prompt late max x .block = true) :
    (pselectTimeout x.1.timeout x.1.nextMsgOut x.1.time).toNat ≤ (x.1.nextMsgOut - x.1.time) * 1000 := by
  obtain ⟨h0, h1, h2⟩ := h.timeout
  simp only [prompt, Bool.and_eq_true, decide_eq_true_eq] at hp
  have := pselectTimeout_le h0 h1 h2 h.set hp.2
  omega

theorem block_ticking (h : Ticking late max x) (hp : prompt late max x .block = true)
    (hs : Watched.step x .block = some y) : Ticking late max y := by
  obtain ⟨⟨htop, hw, -⟩, rfl⟩ := watched_block hs
  have hwait := block_wakes h hp
  have hnext := h.next
  refine ⟨h.created, h.next, h.set, h.last, h.timeout, ?_, fun _ => Nat.le_refl _, ?_⟩
  · intro w hw
    cases hw
    refine ⟨htop, ?_, ?_⟩
    · simp only
      omega
    · simp only
      omega
  · intro _ hw
    cases hw

/-- `pselect` is what follows the top of `mosquitto_loop`. -/
theorem step_top {s s' : Sys} {a : Act} (hc : Created s) (h : Threads.step s a = some s') (hl : s.loop = .top)
    (ha : isSelect a = false) : s'.loop = .top := by
  cases a with
  | loop e =>
    cases e with
    | select r => cases ha
    | _ => simp [Threads.step, loopStep, hl] at h
  | queue env =>
    have hself : s.m.threaded = .self := hc.loop (by simp [hl])
    cases step_moves h with
    | create env c hq ht =>
      rw [hself] at ht
      cases ht
    | _ => exact hl
  | _ => cases step_moves h <;> exact hl

theorem select_top {s s' : Sys} {a : Act} (h : Threads.step s a = some s') (ha : isSelect a = true) :
    s.loop = .top := by
  cases step_moves h with
  | select r hl => exact hl
  | _ => cases ha

theorem act_ticking {b : Act} {large : Bool} (hmax : max < 65536) (h : Ticking late max x)
    (hp : prompt late max x (.act b large) = true) (hs : Watched.step x (.act b large) = some y) :
    Ticking late max y := by
  obtain ⟨-, s, hst, rfl⟩ := watched_act hs
  obtain ⟨hk, hle⟩ := prompt_keepalive hp
  have hmoved : place s.loop ≠ .out → (isSelect b || enters x.1.sys s) = true ∨ place x.1.sys.loop ≠ .out := by
    intro hne
    by_cases ho : place x.1.sys.loop = .out
    · exact .inl (by simp [enters, ho, hne])
    · exact .inr ho
  refine ⟨step_created h.created (step_moves hst), ?_, ?_, ?_, ?_, ?_, ?_, ?_⟩
  · show (if _ then _ else _) ≤ x.1.time + max
    split
    · exact Nat.add_le_add_left hle _
    · exact h.next
  · show (if _ then _ else _) ≠ 0
    split
    · exact (Nat.add_pos_right _ (Nat.pos_of_ne_zero hk)).ne'
    · exact h.set
  · show (if _ then _ else _) ≤ x.1.time
    split
    · exact Nat.le_refl _
    · exact h.last
  · show 0 ≤ (if _ then _ else _ : Int) ∧ (if _ then _ else _ : Int) % 1000 = 0 ∧ (if _ then _ else _ : Int) < _
    split
    · exact loopTimeout_ok (by omega)
    · exact h.timeout
  · intro w hw
    have hw : (if isSelect b then none else x.1.wakeAt) = some w := hw
    split at hw
    · cases hw
    · rename_i hsel
      obtain ⟨htop, hnow, hlate⟩ := h.blocked w hw
      exact ⟨step_top h.created hst htop (by simpa using hsel), hnow, hlate⟩
  · intro hne
    show (if _ then _ else _) ≤ x.1.clock
    split
    · exact Nat.le_refl _
    · rename_i hno
      exact h.moved ((hmoved hne).resolve_left hno)
  · intro hne hw
    have hw : (if isSelect b then none else x.1.wakeAt) = none := hw
    show x.1.clock ≤ (if _ then _ else _) + late
    split
    · exact Nat.le_add_right ..
    · rename_i hno
      have hsel : isSelect b = false := by
        simp only [Bool.or_eq_true, not_or] at hno
        simpa using hno.1
      exact h.awake ((hmoved hne).resolve_left hno) (by simpa [hsel] using hw)

theorem step_ticking (hmax : max < 65536) (h : Ticking late max x) (hp : prompt late max x a = true)
    (hs : Watched.step x a = some y) : Ticking late max y := by
  cases a with
  | pass ms => exact pass_ticking h hp hs
  | block => exact block_ticking h hp hs
  | act b large => exact act_ticking hmax h hp hs

/-! ### How long it may take from some moment on -/

/-- The loop thread has moved on since `base` as a prompt one does that waits for `wait` ms at most: a check at
    least each time it comes out of `pselect`. -/
structure Paced (late max wait base : Nat) (t : Timed) (moved : Nat) : Prop where
  top : place t.sys.loop = .top → t.wakeAt = none → moved ≤ base + 1000 * max
  blocked : ∀ w, t.wakeAt = some w → w ≤ base + wait + late
  body : place t.sys.loop = .body → moved ≤ base + wait + 2 * late

variable {wait base : Nat}

/-- From now on, or later. -/
theorem Paced.fresh (hx : Ticking late max x) (hne : place x.1.sys.loop ≠ .out) (hb : x.1.clock ≤ base)
    (hwait : 1000 * max + 1000 ≤ wait) : Paced late max wait base x.1 x.2.moved := by
  have hmoved := hx.moved hne
  refine ⟨fun _ _ => by omega, fun w hw => ?_, fun _ => by omega⟩
  obtain ⟨-, -, h⟩ := hx.blocked w hw
  omega

theorem Paced.clock_le (h : Paced late max wait base x.1 x.2.moved) (hx : Ticking late max x)
    (hne : place x.1.sys.loop ≠ .out) (hwait : 1000 * max ≤ wait) : x.1.clock ≤ base + wait + 3 * late := by
  cases hw : x.1.wakeAt with
  | some w =>
    obtain ⟨-, hnow, -⟩ := hx.blocked w hw
    have := h.blocked w hw
    omega
  | none =>
    have hnow := hx.awake hne hw
    cases hp : place x.1.sys.loop with
    | out => exact absurd hp hne
    | top =>
      have := h.top hp hw
      omega
    | body =>
      have := h.body hp
      omega

/-- `pselect` is entered. -/
theorem Paced.block (hs : Watched.step x .block = some y)
    (hw : x.1.clock + (pselectTimeout x.1.timeout x.1.nextMsgOut x.1.time).toNat ≤ base + wait + late) :
    Paced late max wait base y.1 y.2.moved := by
  obtain ⟨⟨htop, -, -⟩, rfl⟩ := watched_block hs
  refine ⟨fun _ h => ?_, fun w h => ?_, fun h => ?_⟩
  · cases h
  · cases h
    exact hw
  · simp only [htop] at h
    cases h

/-- A step with a socket, while the loop thread is in `mosquitto_loop`: only the check needs a look. -/
theorem Paced.act {b : Act} {large : Bool} {s : Sys} (h : Paced late max wait base x.1 x.2.moved)
    (hx : Ticking late max x) (hp : prompt late max x (.act b large) = true) (ha : x.1.agrees b = true)
    (hst : Threads.step x.1.sys b = some s) (hsock : s.m.sock ≠ none)
    (hin : place x.1.sys.loop ≠ .out) (hcheck : Checked x.1.sys b → x.1.clock ≤ base + 1000 * max)
    (hwait : 1000 * max ≤ wait) :
    Paced late max wait base (x.1.after b large s) (x.2.after x.1 b large s).moved := by
  have hnow := h.clock_le hx hin hwait
  have hent : enters x.1.sys s = false := by simp [enters, hin]
  have hmoved : (x.2.after x.1 b large s).moved = if isSelect b then x.1.clock else x.2.moved := by
    simp only [Watch.after, hent, Bool.or_false]
  have hne : b ≠ .loop (.select .interrupted) := by
    rintro rfl
    simp [prompt] at hp
  refine ⟨fun htop hw => ?_, fun w hw => ?_, fun hbody => ?_⟩
  · rcases step_place (step_moves hst) hsock htop hne with ho | ⟨ht, hsel⟩ | hc
    · exact absurd ho hin
    · have hw : (if isSelect b then none else x.1.wakeAt) = none := hw
      rw [hmoved, hsel]
      exact h.top ht (by simpa [hsel] using hw)
    · have hm := hx.moved hin
      have := hcheck hc
      rw [hmoved]
      split <;> omega
  · have hw : (if isSelect b then none else x.1.wakeAt) = some w := hw
    split at hw
    · cases hw
    · exact h.blocked w hw
  · rw [hmoved]
    split
    · rename_i hsel
      have htop : x.1.sys.loop = .top := select_top hst hsel
      cases hw : x.1.wakeAt with
      | some w =>
        obtain ⟨-, hlate, -⟩ := hx.blocked w hw
        have := h.blocked w hw
        omega
      | none =>
        have hlate := hx.awake hin hw
        have := h.top (by rw [htop]; rfl) hw
        omega
    · rename_i hsel
      cases hpl : place x.1.sys.loop with
      | out => exact absurd hpl hin
      | body => exact h.body hpl
      | top =>
        cases hw : x.1.wakeAt with
        | none =>
          have := h.top hpl hw
          omega
        | some w =>
          -- the loop thread does not leave `pselect` but by its end
          obtain ⟨htop, -, -⟩ := hx.blocked w hw
          have hstays := step_top hx.created hst htop (by simpa using hsel)
          have hbody : place s.loop = .body := hbody
          rw [hstays] at hbody
          cases hbody

end Prompt

/-! ## The client speaks -/

section Speaking

variable {late max wait : Nat} {x y : Watched} {a : TimedAct}

/-- While there is a socket and the loop thread is in `mosquitto_loop`. -/
structure Spoken (late max wait : Nat) (x : Watched) : Prop where
  spoke : x.2.spoke ≤ x.1.clock
  next : x.1.nextMsgOut * 1000 ≤ x.2.spoke + 1000 * max
  paced : Paced late max wait x.2.spoke x.1 x.2.moved

def Speaks (late max wait : Nat) (x : Watched) : Prop :=
  place x.1.sys.loop ≠ .out → x.1.sys.m.sock ≠ none → Spoken late max wait x

theorem pass_speaks {ms : Nat} (h : Speaks late max wait x) (hs : Watched.step x (.pass ms) = some y) :
    Speaks late max wait y := by
  obtain rfl := watched_pass hs
  intro hin hsock
  obtain ⟨hspoke, hnext, hpaced⟩ := h hin hsock
  exact ⟨hspoke.trans (Nat.le_add_right ..), hnext, ⟨hpaced.top, hpaced.blocked, hpaced.body⟩⟩

theorem block_speaks (hlong : 1000 * max + 1000 ≤ wait) (hx : Ticking late max x) (h : Speaks late max wait x)
    (hp : prompt late max x .block = true) (hs : Watched.step x .block = some y) : Speaks late max wait y := by
  intro hin hsock
  obtain ⟨⟨htop, hw, hsock'⟩, e⟩ := watched_block hs
  have hplace : place x.1.sys.loop = .top := by rw [htop]; rfl
  obtain ⟨hspoke, hnext, hpaced⟩ := h (by rw [hplace]; simp) hsock'
  have hwait := block_wakes hx hp
  have hnow := hx.awake (by rw [hplace]; simp) hw
  have hmoved := hpaced.top hplace hw
  have htime := x.1.time_le
  have hspk : y.2.spoke = x.2.spoke := by rw [e]
  refine ⟨by rw [e]; exact hspoke, by rw [e]; exact hnext, ?_⟩
  rw [hspk]
  refine Paced.block hs ?_
  generalize (pselectTimeout x.1.timeout x.1.nextMsgOut x.1.time).toNat = n at hwait ⊢
  omega

theorem act_speaks {b : Act} {large : Bool} (hmax : max < 65536) (hlong : 1000 * max + 1000 ≤ wait)
    (hx : Ticking late max x) (h : Speaks late max wait x) (hp : prompt late max x (.act b large) = true)
    (hs : Watched.step x (.act b large) = some y) : Speaks late max wait y := by
  have hy := step_ticking hmax hx hp hs
  obtain ⟨ha, s, hst, e⟩ := watched_act hs
  have hclock : y.1.clock = x.1.clock := by rw [e]; rfl
  have htime : y.1.time = x.1.time := by rw [e]; rfl
  have hsys : y.1.sys = s := by rw [e]; rfl
  have hspk : y.2.spoke = if begins x.1.sys b s || speaks x.1.sys b s || pings x.1.sys b then x.1.clock
      else x.2.spoke := by
    rw [e]
    rfl
  intro hin hsock
  by_cases hnew : (begins x.1.sys b s || speaks x.1.sys b s || pings x.1.sys b) = true
  · -- from now on
    rw [if_pos hnew] at hspk
    have hnext := hy.next
    have := x.1.time_le
    refine ⟨by omega, by omega, ?_⟩
    exact Paced.fresh hy hin (by omega) hlong
  · rw [if_neg hnew] at hspk
    simp only [begins, Bool.or_eq_true, not_or, Bool.not_eq_true] at hnew
    obtain ⟨⟨⟨⟨hconns, hent⟩, hrestart⟩, hspeak⟩, hping⟩ := hnew
    have hnext : y.1.nextMsgOut = x.1.nextMsgOut := by
      rw [e]
      simp [Timed.after, hrestart, hspeak, hping]
    rw [hsys] at hin hsock
    have hin' : place x.1.sys.loop ≠ .out := by
      intro ho
      simp [enters, ho, hin] at hent
    have hsock' : x.1.sys.m.sock ≠ none := by
      rcases step_sock (step_moves hst) hsock with h' | h'
      · exact h'
      · simp [h'] at hconns
    obtain ⟨hspoke, hold, hpaced⟩ := h hin' hsock'
    refine ⟨by omega, by rw [hnext, hspk]; exact hold, ?_⟩
    rw [hspk, e]
    refine hpaced.act hx hp ha hst hsock hin' ?_ (by omega)
    -- nothing is due, so it is not yet time for `next_msg_out`
    rintro ⟨-, due, alloc, rfl, hwhy⟩
    have hdue : due = x.1.due := by simpa [Timed.agrees] using ha
    have hoff := (prompt_keepalive hp).1
    have : due = false := by
      rcases hwhy with h' | h' | h'
      · simp [h'] at hping
      · exact h'
      · exact absurd h' hoff
    have hearly := (Timed.due_eq_false hoff (hdue.symm.trans this)).1
    have := x.1.time_le
    omega

theorem step_speaks (hmax : max < 65536) (hlong : 1000 * max + 1000 ≤ wait) (hx : Ticking late max x)
    (h : Speaks late max wait x) (hp : prompt late max x a = true)
    (hs : Watched.step x a = some y) : Speaks late max wait y := by
  cases a with
  | pass ms => exact pass_speaks h hs
  | block => exact block_speaks hlong hx h hp hs
  | act b large => exact act_speaks hmax hlong hx h hp hs

/-- While the loop thread is in `mosquitto_loop` with a socket, the last packet written or PINGREQ queued, or
    the begin of the connection, is never more than the keepalive, a second and three delays ago. -/
theorem keepalive_speaks (hmin : 60 ≤ max) (hmax : max < 65536)
    (h : Machine.Reach Watched.step IsWatchedInit (fun x a => prompt late max x a = true) x)
    (hin : place x.1.sys.loop ≠ .out) (hsock : x.1.sys.m.sock ≠ none) :
    x.1.clock ≤ x.2.spoke + (1000 * max + 1000) + 3 * late := by
  have hinv : Ticking late max x ∧ Speaks late max (1000 * max + 1000) x := by
    refine Machine.Reach.inv (I := fun x => Ticking late max x ∧ Speaks late max (1000 * max + 1000) x) ?_ ?_ h
    · intro x hx
      refine ⟨init_ticking hmin hx, fun hne => ?_⟩
      obtain ⟨⟨id, cleanStart, clock, e⟩, -⟩ := hx
      rw [e] at hne
      exact absurd rfl hne
    · intro x a y hx hp hs
      exact ⟨step_ticking hmax hx.1 hp hs, step_speaks hmax (Nat.le_refl _) hx.1 hx.2 hp hs⟩
  obtain ⟨-, -, hpaced⟩ := hinv.2 hin hsock
  exact hpaced.clock_le hinv.1 hin (Nat.le_add_right ..)

/-- Just before `pselect` returns to have a PINGREQ sent. -/
def aKeepaliveLater : List TimedAct := timedEstablished [] ++ [.pass 60000]

theorem keepalive_speaks_aKeepaliveLater : ∃ x : Watched, (x.1.clock, x.2.spoke) = (70520, 10020) ∧
    x.1.clock ≤ x.2.spoke + (1000 * 60 + 1000) + 3 * 50 := by
  have hm : Machine.Meets Watched.step (fun x a => prompt 50 60 x a = true) atTenSeconds aKeepaliveLater := by
    decide
  have hr : (Machine.run Watched.step atTenSeconds aKeepaliveLater).map (fun x =>
      (x.1.clock, x.2.spoke, place x.1.sys.loop, x.1.sys.m.sock)) = some (70520, 10020, .top, some 0) := by decide
  obtain ⟨x, -, hx, he⟩ := Machine.reach_of_map IsWatchedInit atTenSeconds_init hm hr
  simp only [Prod.mk.injEq] at he
  obtain ⟨hc, hk, hp, hs⟩ := he
  exact ⟨x, by rw [hc, hk], keepalive_speaks (by decide) (by decide) hx (by simp [hp]) (by simp [hs])⟩

end Speaking

/-! ## The server is heard -/

section Hearing

variable {late max wait : Nat} {x y : Watched} {a : TimedAct}

/-- The moment from which the client has waited: once a PINGREQ is queued it waits anew. -/
def Watch.base (late wait : Nat) (w : Watch) : Nat := w.heard + if w.asked then wait + 3 * late else 0

structure Heard (late max wait : Nat) (x : Watched) : Prop where
  heard : x.2.heard ≤ x.1.clock
  last : x.1.lastMsgIn * 1000 ≤ x.2.base late wait
  asked : x.2.asked = true → x.1.sys.m.pingT = true
  paced : Paced late max wait (x.2.base late wait) x.1 x.2.moved

def Hears (late max wait : Nat) (x : Watched) : Prop :=
  place x.1.sys.loop ≠ .out → x.1.sys.m.sock ≠ none → Heard late max wait x

theorem pass_hears {ms : Nat} (h : Hears late max wait x) (hs : Watched.step x (.pass ms) = some y) :
    Hears late max wait y := by
  obtain rfl := watched_pass hs
  intro hin hsock
  obtain ⟨hheard, hlast, hasked, hpaced⟩ := h hin hsock
  exact ⟨hheard.trans (Nat.le_add_right ..), hlast, hasked, ⟨hpaced.top, hpaced.blocked, hpaced.body⟩⟩

theorem block_hears (hlong : 2000 * max + 1000 ≤ wait) (hx : Ticking late max x) (h : Hears late max wait x)
    (hp : prompt late max x .block = true)
    (hs : Watched.step x .block = some y) : Hears late max wait y := by
  intro hin hsock
  obtain ⟨⟨htop, hw, hsock'⟩, e⟩ := watched_block hs
  have hplace : place x.1.sys.loop = .top := by rw [htop]; rfl
  obtain ⟨hheard, hlast, hasked, hpaced⟩ := h (by rw [hplace]; simp) hsock'
  have hwait := block_wakes hx hp
  have hnow := hx.awake (by rw [hplace]; simp) hw
  have hmoved := hpaced.top hplace hw
  have hnext := hx.next
  have htime := x.1.time_le
  have hbase : y.2.base late wait = x.2.base late wait := by rw [e, Watch.base, Watch.base]
  refine ⟨by rw [e]; exact hheard, by rw [hbase, e]; exact hlast, by rw [e]; exact hasked, ?_⟩
  rw [hbase]
  refine Paced.block hs ?_
  generalize (pselectTimeout x.1.timeout x.1.nextMsgOut x.1.time).toNat = n at hwait ⊢
  omega

theorem act_hears {b : Act} {large : Bool} (hmax : max < 65536) (hlong : 2000 * max + 1000 ≤ wait)
    (hx : Ticking late max x) (h : Hears late max wait x) (hp : prompt late max x (.act b large) = true)
    (hs : Watched.step x (.act b large) = some y) : Hears late max wait y := by
  have hy := step_ticking hmax hx hp hs
  obtain ⟨ha, s, hst, e⟩ := watched_act hs
  have hclock : y.1.clock = x.1.clock := by rw [e]; rfl
  have hsys : y.1.sys = s := by rw [e]; rfl
  have hheard' : y.2.heard = if begins x.1.sys b s || hears x.1.sys b large s then x.1.clock else x.2.heard := by
    rw [e]
    rfl
  have hasked' : y.2.asked = if begins x.1.sys b s || hears x.1.sys b large s then false else x.2.asked ||
      pings x.1.sys b := by
    rw [e]
    rfl
  have hshort : 1000 * max + 1000 ≤ wait := by omega
  have htime := y.1.time_le
  have hylast := hy.last
  intro hin hsock
  by_cases hnew : (begins x.1.sys b s || hears x.1.sys b large s) = true
  · -- from now on
    rw [if_pos hnew] at hheard' hasked'
    have hbase : y.2.base late wait = y.1.clock := by
      rw [Watch.base, hasked', hheard', hclock]
      rfl
    refine ⟨by omega, by omega, by simp [hasked'], ?_⟩
    exact Paced.fresh hy hin (Nat.le_of_eq hbase.symm) hshort
  rw [if_neg hnew] at hheard' hasked'
  simp only [begins, Bool.or_eq_true, not_or, Bool.not_eq_true] at hnew
  obtain ⟨⟨⟨hconns, hent⟩, hrestart⟩, hhear⟩ := hnew
  rw [hsys] at hin hsock
  have hin' : place x.1.sys.loop ≠ .out := by
    intro ho
    simp [enters, ho, hin] at hent
  have hsock' : x.1.sys.m.sock ≠ none := by
    rcases step_sock (step_moves hst) hsock with h' | h'
    · exact h'
    · simp [h'] at hconns
  obtain ⟨hheard, hlast, hasked, hpaced⟩ := h hin' hsock'
  have hnow := hpaced.clock_le hx hin' (by omega)
  by_cases hping : pings x.1.sys b = true
  · -- a PINGREQ: there was none before
    obtain ⟨due, alloc, rfl, hsent⟩ := pings_pingT hst hping
    have halloc : alloc .pingreq = true := by
      simp only [prompt, Bool.and_eq_true] at hp
      exact hp.2
    have hnone : x.2.asked = false := by
      cases hask : x.2.asked with
      | false => rfl
      | true =>
        have := hasked hask
        simp [pings, this] at hping
    have hbase : y.2.base late wait = x.2.base late wait + wait + 3 * late := by
      simp only [Watch.base, hasked', hheard', hnone, hping, Bool.or_true, if_true, Bool.false_eq_true, if_false]
      omega
    have hlate : y.1.lastMsgIn * 1000 ≤ y.1.clock := (Nat.mul_le_mul_right 1000 hylast).trans htime.1
    refine ⟨by omega, hlate.trans (by omega), fun _ => by rw [hsys]; exact hsent halloc, ?_⟩
    exact Paced.fresh hy (by rw [hsys]; exact hin) (by omega) hshort
  · simp only [Bool.not_eq_true] at hping
    have hlast' : y.1.lastMsgIn = x.1.lastMsgIn := by
      rw [e]
      simp [Timed.after, hrestart, hhear, hping]
    rw [hping, Bool.or_false] at hasked'
    have hbase : y.2.base late wait = x.2.base late wait := by rw [Watch.base, hasked', hheard', Watch.base]
    refine ⟨by omega, by rw [hlast', hbase]; exact hlast, fun hask => ?_, ?_⟩
    · rw [hsys]
      rcases step_pingT hst with ⟨h' | h', -⟩ | h' | h'
      · simp [h'] at hrestart
      · simp [hears_answers (step_moves hst) h'] at hhear
      · simp [h'] at hping
      · rw [h']
        exact hasked (hasked' ▸ hask)
    · rw [hbase, e]
      refine hpaced.act hx hp ha hst hsock hin' ?_ (by omega)
      -- nothing is due, so the last packet is not that long ago
      rintro ⟨-, due, alloc, rfl, hwhy⟩
      have hdue : due = x.1.due := by simpa [Timed.agrees] using ha
      obtain ⟨hoff, hle⟩ := prompt_keepalive hp
      have : due = false := by
        rcases hwhy with h' | h' | h'
        · simp [h'] at hping
        · exact h'
        · exact absurd h' hoff
      have hrecent := (Timed.due_eq_false hoff (hdue.symm.trans this)).2
      have := x.1.time_le
      omega

theorem step_hears (hmax : max < 65536) (hlong : 2000 * max + 1000 ≤ wait) (hx : Ticking late max x)
    (h : Hears late max wait x) (hp : prompt late max x a = true)
    (hs : Watched.step x a = some y) : Hears late max wait y := by
  cases a with
  | pass ms => exact pass_hears h hs
  | block => exact block_hears hlong hx h hp hs
  | act b large => exact act_hears hmax hlong hx h hp hs

theorem hears_within (hmin : 60 ≤ max) (hmax : max < 65536) (hlong : 2000 * max + 1000 ≤ wait)
    (h : Machine.Reach Watched.step IsWatchedInit (fun x a => prompt late max x a = true) x)
    (hin : place x.1.sys.loop ≠ .out) (hsock : x.1.sys.m.sock ≠ none) :
    x.1.clock ≤ x.2.heard + 2 * wait + 6 * late := by
  have hinv : Ticking late max x ∧ Hears late max wait x := by
    refine Machine.Reach.inv (I := fun x => Ticking late max x ∧ Hears late max wait x) ?_ ?_ h
    · intro x hx
      refine ⟨init_ticking hmin hx, fun hne => ?_⟩
      obtain ⟨⟨id, cleanStart, clock, e⟩, -⟩ := hx
      rw [e] at hne
      exact absurd rfl hne
    · intro x a y hx hp hs
      exact ⟨step_ticking hmax hx.1 hp hs, step_hears hmax hlong hx.1 hx.2 hp hs⟩
  obtain ⟨-, -, -, hpaced⟩ := hinv.2 hin hsock
  have hnow := hpaced.clock_le hinv.1 hin (by omega)
  unfold Watch.base at hnow
  split at hnow <;> omega

/-- While the loop thread is in `mosquitto_loop` with a socket, something has been heard on it within that
    time, be it a piece of a large packet, or the connection has begun. -/
theorem keepalive_notices (hmin : 60 ≤ max) (hmax : max < 65536)
    (h : Machine.Reach Watched.step IsWatchedInit (fun x a => prompt late max x a = true) x)
    (hin : place x.1.sys.loop ≠ .out) (hsock : x.1.sys.m.sock ≠ none) :
    x.1.clock ≤ x.2.heard + 2 * (2000 * max + 1000) + 6 * late :=
  hears_within hmin hmax (Nat.le_refl _) h hin hsock

theorem keepalive_notices_aKeepaliveLater : ∃ x : Watched, (x.1.clock, x.2.heard) = (70520, 10520) ∧
    x.1.clock ≤ x.2.heard + 2 * (2000 * 60 + 1000) + 6 * 50 := by
  have hm : Machine.Meets Watched.step (fun x a => prompt 50 60 x a = true) atTenSeconds aKeepaliveLater := by
    decide
  have hr : (Machine.run Watched.step atTenSeconds aKeepaliveLater).map (fun x =>
      (x.1.clock, x.2.heard, place x.1.sys.loop, x.1.sys.m.sock)) = some (70520, 10520, .top, some 0) := by decide
  obtain ⟨x, -, hx, he⟩ := Machine.reach_of_map IsWatchedInit atTenSeconds_init hm hr
  simp only [Prod.mk.injEq] at he
  obtain ⟨hc, hk, hp, hs⟩ := he
  exact ⟨x, by rw [hc, hk], keepalive_notices (by decide) (by decide) hx (by simp [hp]) (by simp [hs])⟩

end Hearing

end Artemisia.Threads
