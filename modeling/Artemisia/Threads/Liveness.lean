/-
  Artemisia.Threads.Liveness — is there a loop thread where `mosq->threaded` says so?

  `mosquitto_loop_start` sets the flag and creates the thread; when `mosquitto_loop_forever` returns, the
  thread ends and nothing takes the flag back. The next `mosquitto_loop_start` answers `MOSQ_ERR_INVAL`,
  which `setupMosquitto` does not look at.

  Proved:
  - `step_created`:   the flag is set from the thread's creation on, ended or not.
  - `alive_iff`:      over a run, the flag and every open socket have a running thread exactly when
                      `mosquitto_loop_forever` never returns.
  - `connectTwice_without_thread`: connect, disconnect, connect leaves a CONNECT that nobody writes.
-/
import Artemisia.Threads.Moves

namespace Artemisia.Threads

open Artemisia.Property Artemisia.Client

/-! ## The property -/

def LoopPc.running : LoopPc → Bool
  | .none | .exited => false
  | _ => true

/-- The flag, and an open socket, mean a running thread. -/
structure Alive (s : Sys) : Prop where
  thread : s.m.threaded = .self → s.loop.running = true
  socket : s.m.sock ≠ none → s.loop.running = true

/-- The step makes `mosquitto_loop_forever` return. -/
def Exits (s : Sys) : Act → Prop
  | .loop (.errno eproto) => ∃ rc, s.loop = .ret rc ∧ rc ≠ .success ∧ (fatal rc = true ∨ eproto = true)
  | .loop (.tick _) => (s.loop = .check1 ∨ s.loop = .check2) ∧ ended s.m.state = true
  | .loop (.slept ok) => s.loop = .sleep ∧ ok = false
  | _ => False

/-- The flag says that there was a thread, and `connect()` goes on only with it set. -/
structure Created (s : Sys) : Prop where
  loop : s.loop ≠ .none → s.m.threaded = .self
  queue : (∀ c, s.queue ≠ .loopStart c) → s.queue ≠ .idle → (∀ r l, s.queue ≠ .discSend r l) →
    s.m.threaded = .self

/-! ## Where the loop goes -/

@[simp] theorem running_afterIo (m : Mosq) (rc : Rc) (turn : Turn) : (afterIo m rc turn).running = true :=
  afterIo_elim (P := (·.running = true)) (fun _ => rfl) rfl rfl

@[simp] theorem running_afterTurn (m : Mosq) (rc : Rc) (turn : Turn) : (afterTurn m rc turn).running = true :=
  afterTurn_elim (P := (·.running = true)) (fun _ => running_afterIo ..) (fun _ => rfl) (fun _ _ => rfl)
    (fun _ _ => rfl)

@[simp] theorem running_selectNext (m : Mosq) (r : Select) : (selectNext m r).running = true :=
  selectNext_elim (P := (·.running = true)) (fun _ => rfl) rfl (fun _ => rfl)

theorem running_ne_none {pc : LoopPc} (h : pc.running = true) : pc ≠ .none := by
  intro hx
  obtain rfl := hx
  simp [LoopPc.running] at h

/-- Where the loop thread goes in a step: nowhere, on, or out. -/
theorem step_running {s s' : Sys} {a : Act} (h : Moves s a s') :
    (s'.loop = s.loop ∧ ¬ Exits s a) ∨
      (s'.loop.running = true ∧ (s.loop.running = true ∨ s'.m.threaded = .self) ∧ ¬ Exits s a) ∨
      (s.loop.running = true ∧ s'.loop = .exited ∧ Exits s a) := by
  cases h with
  | connect c hq => exact .inl ⟨rfl, fun h => h⟩
  | publish alloc a hq ha => exact .inl ⟨rfl, fun h => h⟩
  | refused r l hq hc => exact .inl ⟨rfl, fun h => h⟩
  | disconnect r l hq hc => exact .inl ⟨rfl, fun h => h⟩
  | create env c hq ht => exact .inr (.inl ⟨rfl, .inr rfl, fun h => h⟩)
  | created env c hq ht => exact .inl ⟨rfl, fun h => h⟩
  | bind env c hq => exact .inl ⟨rfl, fun h => h⟩
  | setNew env l hq => exact .inl ⟨rfl, fun h => h⟩
  | queueRec env pc pc' l m hq e => exact .inl ⟨rfl, fun h => h⟩
  | queueRecEnd env pc l m rc hq e => exact .inl ⟨rfl, fun h => h⟩
  | discSend env r l hq => exact .inl ⟨rfl, fun h => h⟩
  | waitNew env hl =>
    refine .inr (.inl ⟨?_, .inl (by simp [hl, LoopPc.running]), by simp [Exits, hl]⟩)
    dsimp only
    split <;> rfl
  | select r hl => exact .inr (.inl ⟨by simp, .inl (by simp [hl, LoopPc.running]), fun h => h⟩)
  | packet i n p again alloc hl hs hp t ht =>
    refine .inr (.inl ⟨?_, .inl (by simp [hl, LoopPc.running]), fun h => h⟩)
    cases ht with
    | done m rc e hc he hr => simp
    | connack m r max e hc he hr => rfl
    | unsupported m e hc he hr => simp
    | disconnect e he hr => rfl
  | noPacket i n e again rc hl hrc => exact .inr (.inl ⟨by simp, .inl (by simp [hl, LoopPc.running]), fun h => h⟩)
  | connack r max turn env hl =>
    exact .inr (.inl ⟨by simp, .inl (by simp [hl, LoopPc.running]), by simp [Exits, hl]⟩)
  | discCall turn env hl => exact .inr (.inl ⟨by simp, .inl (by simp [hl, LoopPc.running]), by simp [Exits, hl]⟩)
  | selWrite b hl =>
    refine .inr (.inl ⟨?_, .inl (by simp [hl, LoopPc.running]), fun h => h⟩)
    dsimp only
    split <;> rfl
  | write i n taken e again m rc hl he =>
    exact .inr (.inl ⟨by simp, .inl (by simp [hl, LoopPc.running]), fun h => h⟩)
  | writeDisconnect i n taken e again m hl he =>
    exact .inr (.inl ⟨rfl, .inl (by simp [hl, LoopPc.running]), fun h => h⟩)
  | rcClose rc turn env hl => exact .inr (.inl ⟨rfl, .inl (by simp [hl, LoopPc.running]), by simp [Exits, hl]⟩)
  | rcCall rc turn env hl => exact .inr (.inl ⟨by simp, .inl (by simp [hl, LoopPc.running]), by simp [Exits, hl]⟩)
  | misc due alloc rc hl ht => exact .inr (.inl ⟨rfl, .inl (by simp [hl, LoopPc.running]), fun h => h⟩)
  | ping alloc hl hs hp => exact .inr (.inl ⟨rfl, .inl (by simp [hl, LoopPc.running]), fun h => h⟩)
  | unanswered alloc rc hl hs ht => exact .inr (.inl ⟨rfl, .inl (by simp [hl, LoopPc.running]), fun h => h⟩)
  | kaCall rc env hl => exact .inr (.inl ⟨rfl, .inl (by simp [hl, LoopPc.running]), by simp [Exits, hl]⟩)
  | ret rc eproto hl =>
    have hrun : s.loop.running = true ∨ s.m.threaded = .self := .inl (by simp [hl, LoopPc.running])
    by_cases hr : rc = .success
    · exact .inr (.inl ⟨by simp [hr, LoopPc.running], hrun, by simp [Exits, hl, hr]⟩)
    by_cases hf : fatal rc = true ∨ eproto = true
    · exact .inr (.inr ⟨by simp [hl, LoopPc.running], by simp [hr, hf], ⟨rc, hl, hr, hf⟩⟩)
    · exact .inr (.inl ⟨by simp [hr, hf, LoopPc.running], hrun, by simpa [Exits, hl, hr] using hf⟩)
  | check1 env hl =>
    by_cases he : ended s.m.state = true
    · exact .inr (.inr ⟨by simp [hl, LoopPc.running], by simp [he], ⟨.inl hl, he⟩⟩)
    · exact .inr (.inl ⟨by simp [he, LoopPc.running], .inl (by simp [hl, LoopPc.running]), by simp [Exits, he]⟩)
  | sleep ok hl =>
    cases ok with
    | false => exact .inr (.inr ⟨by simp [hl, LoopPc.running], by simp, ⟨hl, rfl⟩⟩)
    | true => exact .inr (.inl ⟨by simp [LoopPc.running], .inl (by simp [hl, LoopPc.running]), by simp [Exits]⟩)
  | check2 env hl =>
    by_cases he : ended s.m.state = true
    · exact .inr (.inr ⟨by simp [hl, LoopPc.running], by simp [he], ⟨.inr hl, he⟩⟩)
    · exact .inr (.inl ⟨by simp [he, LoopPc.running], .inl (by simp [hl, LoopPc.running]), by simp [Exits, he]⟩)
  | loopRec env pc pc' m hl e => exact .inr (.inl ⟨rfl, .inl (by simp [hl, LoopPc.running]), by simp [Exits, hl]⟩)
  | loopRecEnd env pc m rc hl e =>
    refine .inr (.inl ⟨?_, .inl (by simp [hl, LoopPc.running]), by simp [Exits, hl]⟩)
    dsimp only
    split <;> rfl

/-! ## The flag and the socket -/

/-- The flag changes only with the thread's creation. -/
theorem step_threaded {s s' : Sys} {a : Act} (h : Moves s a s') :
    s'.m.threaded = s.m.threaded ∨ (s'.m.threaded = .self ∧ s'.loop = .waitNew) := by
  cases h with
  | connect c hq => exact .inl (congrArg Conn.threaded (conn_setupMosquitto ..))
  | publish alloc a hq ha => exact .inl (threaded_of_conn (conn_mosquittoPublishV5 ..))
  | create env c hq ht => exact .inr ⟨rfl, rfl⟩
  | bind env c hq => exact .inl (threaded_of_conn (conn_connectBind ..))
  | queueRec env pc pc' l m hq e => exact .inl (conn_recMoves_protocol e).1
  | queueRecEnd env pc l m rc hq e => exact .inl (conn_recMoves_protocol e).1
  | discSend env r l hq => exact .inl (threaded_of_conn (conn_disconnectSend ..))
  | packet i n p again alloc hl hs hp t ht =>
    cases ht with
    | done m rc e hc he hr => exact .inl (threaded_of_conn hc)
    | connack m r max e hc he hr => exact .inl (threaded_of_conn hc)
    | unsupported m e hc he hr => exact .inl (threaded_of_conn hc)
    | disconnect e he hr => exact .inl rfl
  | connack r max turn env hl =>
    obtain ⟨c, hm⟩ := connackSwitch_state env.alloc s.m r
    exact .inl (congrArg Conn.threaded hm)
  | write i n taken e again m rc hl he => exact .inl (threaded_of_conn (conn_written he))
  | writeDisconnect i n taken e again m hl he => exact .inl (congrArg Conn.threaded (conn_writtenDisconnect he))
  | ping alloc hl hs hp => exact .inl (threaded_of_conn (conn_sendPingreq ..))
  | loopRec env pc pc' m hl e => exact .inl (conn_recMoves_protocol e).1
  | loopRecEnd env pc m rc hl e => exact .inl (conn_recMoves_protocol e).1
  | _ => exact .inl rfl

/-- A socket is opened only by a thread in `mosquitto__reconnect`. -/
theorem step_socket {s s' : Sys} {a : Act} (h : Moves s a s') (hs' : s'.m.sock ≠ none) :
    s.m.sock ≠ none ∨ (∃ pc, s.loop = .rec_ pc) ∨ ∃ pc l, s.queue = .rec_ pc l := by
  have keep : s'.m.sock = s.m.sock → s.m.sock ≠ none := fun e => e ▸ hs'
  cases h with
  | connect c hq => exact .inl (keep (congrArg Conn.sock (conn_setupMosquitto ..)))
  | publish alloc a hq ha => exact .inl (keep (sock_of_conn (conn_mosquittoPublishV5 ..)))
  | bind env c hq => exact .inl (keep (sock_of_conn (conn_connectBind ..)))
  | queueRec env pc pc' l m hq e => exact .inr (.inr ⟨pc, l, hq⟩)
  | queueRecEnd env pc l m rc hq e => exact .inr (.inr ⟨pc, l, hq⟩)
  | discSend env r l hq => exact .inl (keep (sock_of_conn (conn_disconnectSend ..)))
  | packet i n p again alloc hl hs hp t ht => exact .inl hs
  | connack r max turn env hl =>
    obtain ⟨c, hm⟩ := connackSwitch_state env.alloc s.m r
    exact .inl (keep (congrArg Conn.sock hm))
  | write i n taken e again m rc hl he => exact .inl (keep (sock_of_conn (conn_written he)))
  | writeDisconnect i n taken e again m hl he => exact absurd (congrArg Conn.sock (conn_writtenDisconnect he)) hs'
  | rcClose rc turn env hl => exact absurd rfl hs'
  | ping alloc hl hs hp => exact .inl hs
  | unanswered alloc rc hl hs ht => exact .inl hs
  | loopRec env pc pc' m hl e => exact .inr (.inl ⟨pc, hl⟩)
  | loopRecEnd env pc m rc hl e => exact .inr (.inl ⟨pc, hl⟩)
  | _ => exact .inl hs'

theorem step_created {s s' : Sys} {a : Act} (hi : Created s) (h : Moves s a s') : Created s' := by
  have hthread : s.m.threaded = .self → s'.m.threaded = .self := by
    intro ht
    rcases step_threaded h with e | ⟨e, -⟩
    · exact e.trans ht
    · exact e
  refine ⟨fun hl => ?_, fun h1 h2 h3 => ?_⟩
  · by_cases hs : s.loop = .none
    · rcases step_running h with ⟨e, -⟩ | ⟨-, e | e, -⟩ | ⟨e, -⟩
      · exact absurd (e.trans hs) hl
      · exact absurd hs (running_ne_none e)
      · exact e
      · exact absurd hs (running_ne_none e)
    · exact hthread (hi.loop hs)
  · cases h with
    | connect c hq => exact absurd rfl (h1 _)
    | create env c hq ht => rfl
    | created env c hq ht =>
      cases ht' : s.m.threaded with
      | none => exact absurd ht' ht
      | self => rfl
    | bind env c hq => exact hthread (hi.queue (by simp [hq]) (by simp [hq]) (by simp [hq]))
    | setNew env l hq => exact hthread (hi.queue (by simp [hq]) (by simp [hq]) (by simp [hq]))
    | queueRec env pc pc' l m hq e => exact hthread (hi.queue (by simp [hq]) (by simp [hq]) (by simp [hq]))
    | queueRecEnd env pc l m rc hq e => exact absurd rfl h2
    | discSend env r l hq => exact absurd rfl h2
    | disconnect r l hq hc => exact absurd rfl (h3 r l)
    | packet i n p again alloc hl hs hp t ht =>
      rw [(readMoves_frame ht).1] at h1 h2 h3
      exact hthread (hi.queue h1 h2 h3)
    | _ => exact hthread (hi.queue h1 h2 h3)

/-! ## Runs -/

/-- A step keeps the property exactly when it does not end the loop. -/
theorem step_alive_iff {s s' : Sys} {a : Act} (hi : Created s) (hp : Alive s) (h : Moves s a s') :
    Alive s' ↔ ¬ Exits s a := by
  rcases step_running h with ⟨hl, he⟩ | ⟨hl, -, he⟩ | ⟨hr, hl, he⟩
  · refine ⟨fun _ => he, fun _ => ⟨fun ht => ?_, fun hs => ?_⟩⟩
    · rcases step_threaded h with e | ⟨-, e⟩
      · exact hl ▸ hp.thread (e.symm.trans ht)
      · rw [e]
        rfl
    · rw [hl]
      rcases step_socket h hs with e | ⟨pc, e⟩ | ⟨pc, l, e⟩
      · exact hp.socket e
      · rw [e]
        rfl
      · exact hp.thread (hi.queue (by simp [e]) (by simp [e]) (by simp [e]))
  · exact ⟨fun _ => he, fun _ => ⟨fun _ => hl, fun _ => hl⟩⟩
  · refine ⟨fun ha => ?_, fun hn => absurd he hn⟩
    have ht : s'.m.threaded = .self := by
      rcases step_threaded h with e | ⟨e, -⟩
      · exact e.trans (hi.loop (running_ne_none hr))
      · exact e
    have := ha.thread ht
    simp [hl, LoopPc.running] at this

theorem Created.init (id : Option Bytes) (cleanStart : Bool) : Created (Sys.init id cleanStart) :=
  ⟨fun h => absurd rfl h, fun _ h => absurd rfl h⟩

theorem Alive.init (id : Option Bytes) (cleanStart : Bool) : Alive (Sys.init id cleanStart) :=
  ⟨fun h => (by cases h), fun h => absurd rfl h⟩

/-- Over a run the flag and every open socket have a running loop thread exactly when no step ends the loop. -/
theorem alive_iff (id : Option Bytes) (cleanStart : Bool) (as : List Act) :
    Machine.Along step Alive (Sys.init id cleanStart) as ↔
      Machine.Meets step (fun s a => ¬ Exits s a) (Sys.init id cleanStart) as :=
  Machine.along_iff_meets (fun _ _ _ hi h => step_created hi (step_moves h))
    (fun _ _ _ hi hp h => step_alive_iff hi hp (step_moves h)) as (.init id cleanStart) (.init id cleanStart)

/-- `disconnect()` is carried out, the loop thread ends, and the application connects again. -/
def connectTwice : List Act :=
  established [] ++ [.disconnect 0 [], goOn] ++ writes ++
    [tick, .loop (.errno false), .loop (.select .interrupted), .loop (.errno false), tick] ++ connects .plain

/-- The second CONNECT is queued on an open socket, and no thread will write it. -/
theorem connectTwice_without_thread :
    ¬ ∀ s, Machine.Reach step IsInit Machine.anyAct s → Alive s := by
  intro h
  have hr : (Machine.run step (Sys.init none true) connectTwice).map (fun s => (s.m.threaded, s.loop, s.m.sock)) =
      some (.self, .exited, some 1) := by decide
  obtain ⟨s, hs, hd⟩ := Machine.reach_of_map_any IsInit ⟨none, true, rfl⟩ hr
  simp only [Prod.mk.injEq] at hd
  have := (h s hs).thread hd.1
  simp [hd.2.1, LoopPc.running] at this

end Artemisia.Threads
