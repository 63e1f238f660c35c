/-
  Artemisia.Threads.Disconnect — is a disconnect of the application final?

  `mosquitto_disconnect_v5` leaves its word in `mosq->state` only, where `mosquitto__reconnect` and
  `handle__connack` write as well.

  Proved:
  - `step_stands`:           while a disconnect stands, the state says so and the loop thread opens no socket.
  - `disconnect_final`:      in a run where no disconnect is refused or falls into `mosquitto__reconnect`,
                             and none is followed by a CONNACK that accepts, the client stays as it is until
                             `connect()`.
  - `duringReconnect_not_final`: a disconnect between the reset and the connect of a reconnect is forgotten.
-/
import Artemisia.Threads.Moves

namespace Artemisia.Threads

open Artemisia.Property Artemisia.Client

/-! ## The property -/

/-- From the return of a disconnect to the next `connect()` the client is not active, and no socket has been
    opened. -/
def DisconnectFinal (s : Sys) : Prop := ∀ k, s.discReturned = some k → s.m.state ≠ .active ∧ s.m.conns = k

/-- A disconnect has set the state, and `connect()` has not been called since. -/
def stands (s : Sys) : Bool :=
  match s.queue with
  | .discSend .. => true
  | _ => s.discReturned.isSome

def LoopPc.recPc : LoopPc → Option RecPc
  | .rec_ pc => some pc
  | _ => Option.none

def LoopPc.accepting : LoopPc → Bool
  | .connack r _ _ => r = 0
  | _ => false

/-- A disconnect passes its checks and finds the loop thread outside `mosquitto__reconnect`, or past the
    last state that is set there. While it stands no CONNACK accepts, and a CONNECT that is still to be
    queued is. -/
def Undisturbed (s : Sys) : Act → Prop
  | .disconnect _ l =>
    disconnectChecks s.m l = .success ∧ (s.loop.recPc = none ∨ s.loop.recPc = some .sendConnect)
  | .loop (.tick env) => stands s = true → s.loop.accepting = false ∧
      (s.loop.recPc = some .sendConnect → (sendConnect env.alloc s.m []).2 = .success)
  | _ => True

instance (s : Sys) : (a : Act) → Decidable (Undisturbed s a)
  | .disconnect _ _ => inferInstanceAs (Decidable (_ ∧ _))
  | .loop (.tick _) => inferInstanceAs (Decidable (_ → _))
  | .loop (.select _) | .loop (.packet ..) | .loop (.noPacket ..) | .loop (.writable _) | .loop (.write ..)
  | .loop (.keepalive ..) | .loop (.errno _) | .loop (.slept _) | .connect _ | .publish ..
  | .queue _ => isTrue trivial

structure Stands (s : Sys) : Prop where
  state : stands s = true → s.m.state = .disconnected
  loop : stands s = true → s.loop.recPc = none ∨ s.loop.recPc = some .sendConnect
  queue : s.discReturned ≠ none → s.queue = .idle ∨ ∃ r l, s.queue = .discSend r l
  conns : ∀ k, s.discReturned = some k → s.m.conns = k

/-! ## One step -/

@[simp] theorem recPc_afterIo (m : Mosq) (rc : Rc) (turn : Turn) : (afterIo m rc turn).recPc = none :=
  afterIo_elim (P := (·.recPc = none)) (fun _ => rfl) rfl rfl

@[simp] theorem recPc_afterTurn (m : Mosq) (rc : Rc) (turn : Turn) : (afterTurn m rc turn).recPc = none :=
  afterTurn_elim (P := (·.recPc = none)) (fun _ => recPc_afterIo ..) (fun _ => rfl) (fun _ _ => rfl)
    (fun _ _ => rfl)

@[simp] theorem recPc_selectNext (m : Mosq) (r : Select) : (selectNext m r).recPc = none :=
  selectNext_elim (P := (·.recPc = none)) (fun _ => rfl) rfl (fun _ => rfl)

theorem stands_of_returned {s : Sys} (h : s.discReturned ≠ none) : stands s = true := by
  unfold stands
  split
  · rfl
  · exact Option.isSome_iff_ne_none.mpr h

/-- A step of the loop thread, or of a call that is not about the connection. -/
theorem Stands.keep {s s' : Sys} (hi : Stands s) (hq : s'.queue = s.queue) (hd : s'.discReturned = s.discReturned)
    (hm : stands s = true → s'.m.state = .disconnected ∧
    (s'.loop.recPc = none ∨ s'.loop.recPc = some .sendConnect) ∧
      s'.m.conns = s.m.conns) : Stands s' := by
  have hs : stands s' = stands s := by simp [stands, hq, hd]
  refine ⟨fun h => (hm (hs ▸ h)).1, fun h => (hm (hs ▸ h)).2.1, fun h => ?_, fun k h => ?_⟩
  · rw [hq]
    exact hi.queue (hd ▸ h)
  · rw [hd] at h
    rw [(hm (stands_of_returned (by simp [h]))).2.2]
    exact hi.conns k h

/-- A step that leaves the connection alone. -/
theorem Stands.same {s s' : Sys} (hi : Stands s) (hq : s'.queue = s.queue) (hd : s'.discReturned = s.discReturned)
    (hm : s'.m.conn = s.m.conn) (hl : s'.loop = s.loop ∨ s'.loop.recPc = none) : Stands s' := by
  refine hi.keep hq hd (fun h => ⟨(state_of_conn hm).trans (hi.state h), ?_, conns_of_conn hm⟩)
  rcases hl with e | e
  · rw [e]
    exact hi.loop h
  · exact .inl e

/-- A step in the middle of `connect()`. -/
theorem Stands.connecting {s s' : Sys} (hi : Stands s) (h1 : s.queue ≠ .idle)
    (h2 : ∀ r l, s.queue ≠ .discSend r l)
    (hd : s'.discReturned = s.discReturned) (hq : ∀ r l, s'.queue ≠ .discSend r l) : Stands s' := by
  have hn : s.discReturned = none := by
    by_contra h
    rcases hi.queue h with e | ⟨r, l, e⟩
    · exact h1 e
    · exact h2 r l e
  have hs : stands s' = false := by
    unfold stands
    split
    · rename_i r l e
      exact absurd e (hq r l)
    · simp [hd, hn]
  refine ⟨?_, ?_, ?_, ?_⟩
  · simp [hs]
  · simp [hs]
  · simp [hd, hn]
  · simp [hd, hn]

theorem step_stands {s s' : Sys} {a : Act} (hi : Stands s) (hg : Undisturbed s a) (h : Moves s a s') :
    Stands s' := by
  cases h with
  | connect c hq =>
    refine ⟨fun h => ?_, fun h => ?_, fun h => absurd rfl h, fun k h => by cases h⟩
    all_goals simp [stands, startConnect] at h
  | publish alloc a hq ha => exact hi.same rfl rfl (conn_mosquittoPublishV5 ..) (.inl rfl)
  | refused r l hq hc => exact absurd hg.1 hc
  | disconnect r l hq hc => exact ⟨fun _ => rfl, fun _ => hg.2, fun _ => .inr ⟨r, l, rfl⟩, hi.conns⟩
  | create env c hq ht => exact hi.connecting (by simp [hq]) (by simp [hq]) rfl (by simp)
  | created env c hq ht => exact hi.connecting (by simp [hq]) (by simp [hq]) rfl (by simp)
  | bind env c hq =>
    refine hi.connecting (by simp [hq]) (by simp [hq]) rfl (fun r l => ?_)
    dsimp only
    split <;> simp
  | setNew env l hq => exact hi.connecting (by simp [hq]) (by simp [hq]) rfl (by simp)
  | queueRec env pc pc' l m hq e => exact hi.connecting (by simp [hq]) (by simp [hq]) rfl (by simp)
  | queueRecEnd env pc l m rc hq e => exact hi.connecting (by simp [hq]) (by simp [hq]) rfl (by simp)
  | discSend env r l hq =>
    have hst : stands s = true := by simp [stands, hq]
    have hm := conn_disconnectSend env.alloc s.m r l
    refine ⟨fun _ => (state_of_conn hm).trans (hi.state hst), fun _ => hi.loop hst, fun _ => .inl rfl,
      fun k hk => ?_⟩
    cases hk
    exact conns_of_conn hm
  | waitNew env hl =>
    refine hi.same rfl rfl rfl (.inr ?_)
    dsimp only
    split <;> rfl
  | select r hl => exact hi.same rfl rfl rfl (.inr (recPc_selectNext ..))
  | packet i n p again alloc hl hs hp t ht =>
    cases ht with
    | done m rc e hc he hr => exact hi.same rfl rfl hc (.inr (by simp))
    | connack m r max e hc he hr => exact hi.same rfl rfl hc (.inr rfl)
    | unsupported m e hc he hr => exact hi.same rfl rfl hc (.inr (by simp))
    | disconnect e he hr => exact hi.keep rfl rfl (fun _ => ⟨rfl, .inl rfl, rfl⟩)
  | noPacket i n e again rc hl hrc => exact hi.same rfl rfl rfl (.inr (by simp))
  | connack r max turn env hl =>
    have hm := conn_connackSwitch env.alloc s.m r
    refine hi.keep rfl rfl (fun hst => ?_)
    have hr : r ≠ 0 := by simpa [hl, LoopPc.accepting] using (hg hst).1
    rw [if_neg (fun e => hr e.1)] at hm
    exact ⟨(state_of_conn hm).trans (hi.state hst), .inl (by simp), conns_of_conn hm⟩
  | discCall turn env hl => exact hi.keep rfl rfl (fun hst => ⟨hi.state hst, .inl (by simp), rfl⟩)
  | selWrite b hl =>
    refine hi.same rfl rfl rfl (.inr ?_)
    dsimp only
    split <;> rfl
  | write i n taken e again m rc hl he => exact hi.same rfl rfl (conn_written he) (.inr (by simp))
  | writeDisconnect i n taken e again m hl he =>
    have hm := conn_writtenDisconnect he
    exact hi.keep rfl rfl (fun _ => ⟨congrArg Conn.state hm, .inl rfl, congrArg Conn.conns hm⟩)
  | rcClose rc turn env hl => exact hi.keep rfl rfl (fun hst => ⟨hi.state hst, .inl rfl, rfl⟩)
  | rcCall rc turn env hl => exact hi.keep rfl rfl (fun hst => ⟨hi.state hst, .inl (by simp), rfl⟩)
  | misc due alloc rc hl ht => exact hi.same rfl rfl rfl (.inr rfl)
  | ping alloc hl hs hp => exact hi.same rfl rfl (conn_sendPingreq ..) (.inr rfl)
  | unanswered alloc rc hl hs ht => exact hi.keep rfl rfl (fun hst => ⟨hi.state hst, .inl rfl, rfl⟩)
  | kaCall rc env hl => exact hi.keep rfl rfl (fun hst => ⟨hi.state hst, .inl rfl, rfl⟩)
  | ret rc eproto hl =>
    refine hi.same rfl rfl rfl (.inr ?_)
    dsimp only
    repeat' split
    all_goals rfl
  | check1 env hl =>
    refine hi.same rfl rfl rfl (.inr ?_)
    dsimp only
    split <;> rfl
  | sleep ok hl =>
    refine hi.same rfl rfl rfl (.inr ?_)
    cases ok <;> rfl
  | check2 env hl =>
    -- the state is looked at before the reconnect begins
    refine hi.keep rfl rfl (fun hst => ⟨hi.state hst, .inl ?_, rfl⟩)
    simp [hi.state hst, ended, LoopPc.recPc]
  | loopRec env pc pc' m hl e =>
    refine hi.keep rfl rfl (fun hst => ?_)
    have hpc : pc = .sendConnect := by simpa [hl, LoopPc.recPc] using hi.loop hst
    subst hpc
    cases e with
    | unsent rc hs => exact absurd ((hg hst).2 (by simp [hl, LoopPc.recPc])) hs
  | loopRecEnd env pc m rc hl e =>
    refine hi.keep rfl rfl (fun hst => ?_)
    have hpc : pc = .sendConnect := by simpa [hl, LoopPc.recPc] using hi.loop hst
    subst hpc
    cases e with
    | sent hs =>
      have hm := conn_sendConnect env.alloc s.m []
      exact ⟨(state_of_conn hm).trans (hi.state hst), .inl rfl, conns_of_conn hm⟩

/-! ## Runs -/

theorem init_stands {s : Sys} (h : IsInit s) : Stands s := by
  obtain ⟨id, cleanStart, rfl⟩ := h
  refine ⟨?_, ?_, ?_, ?_⟩ <;> simp [stands, Sys.init]

theorem Stands.final {s : Sys} (hi : Stands s) : DisconnectFinal s := by
  intro k hk
  refine ⟨?_, hi.conns k hk⟩
  rw [hi.state (stands_of_returned (by simp [hk]))]
  decide

/-- In a run whose disconnects are not disturbed, a disconnect is final until `connect()` is called. -/
theorem disconnect_final {s : Sys} (h : Machine.Reach step IsInit Undisturbed s) : DisconnectFinal s :=
  (h.inv (fun _ => init_stands) (fun _ _ _ hi hg hs => step_stands hi hg (step_moves hs))).final

/-- A disconnect of an established connection is carried out. -/
def carriedOut : List Act :=
  established [] ++ [.disconnect 0 [], goOn] ++ writes ++ [tick, .loop (.errno false)]

theorem disconnect_final_carriedOut : ∃ s, Machine.run step (Sys.init none true) carriedOut = some s ∧
    s.discReturned = some 1 ∧ s.m.sock = none ∧ DisconnectFinal s := by
  have hm : Machine.Meets step Undisturbed (Sys.init none true) carriedOut := by decide
  have hr : (Machine.run step (Sys.init none true) carriedOut).map (fun s => (s.discReturned, s.m.sock)) =
      some (some 1, none) := by decide
  obtain ⟨s, hs, hreach, hd⟩ := Machine.reach_of_map IsInit ⟨none, true, rfl⟩ hm hr
  simp only [Prod.mk.injEq] at hd
  exact ⟨s, hs, hd.1, hd.2, disconnect_final hreach⟩

def loses : List Act :=
  [.loop (.select (.ready true)), .loop (.noPacket .lost false), tick, tick, .loop (.errno false), tick,
   .loop (.slept true), tick]

/-- The application disconnects while the loop thread waits for the new connection. -/
def duringReconnect : List Act :=
  established [] ++ loses ++ [tick, tick, tick, .disconnect 0 [], goOn] ++ [tick, tick, tick] ++
    reads (connack 0 []) ++
    [tick]

/-- The disconnect has returned, and the client is active on a new connection. -/
theorem duringReconnect_not_final :
    ¬ ∀ s, Machine.Reach step IsInit Machine.anyAct s → DisconnectFinal s := by
  intro h
  have hr : (Machine.run step (Sys.init none true) duringReconnect).map
      (fun s => (s.discReturned, s.m.state, s.m.sock)) = some (some 1, .active, some 1) := by decide
  obtain ⟨s, hs, hd⟩ := Machine.reach_of_map_any IsInit ⟨none, true, rfl⟩ hr
  simp only [Prod.mk.injEq] at hd
  exact (h s hs 1 hd.1).1 hd.2.1

end Artemisia.Threads
