/-
  Artemisia.Threads.Sides — where the two threads stand in `mosquitto__reconnect`, and what a step makes of it.

  Either thread may be in there: the loop thread when it reconnects, the application's queue in `connect()`.

  Proved:
  - `call_sides`: a step is a piece of `mosquitto__reconnect` of its thread, or it opens no socket and its
                  thread is at most about to start there.
  - `call_other`: the other thread stays where it is.
-/
import Artemisia.Threads.Calls
import Artemisia.Threads.Liveness
import Artemisia.Threads.Stranded

namespace Artemisia.Threads

open Artemisia.Property Artemisia.Client

/-! ## The two threads -/

inductive Side where
  | queue | loop
  deriving DecidableEq, Repr

def Side.other : Side → Side
  | .queue => .loop
  | .loop => .queue

/-- Where the thread stands in `mosquitto__reconnect`. -/
def pcOf (s : Sys) : Side → Option RecPc
  | .queue => s.queue.recPc
  | .loop => s.loop.recPc

def sideOf : Call → Side
  | .act (.loop _) => .loop
  | _ => .queue

@[simp] theorem other_ne (a : Side) : a.other ≠ a := by
  cases a <;> simp [Side.other]

theorem side_cases (a b : Side) : b = a ∨ b = a.other := by
  cases a <;> cases b <;> simp [Side.other]

/-- What a step makes of where the threads stand. -/
inductive SideMoves (s : Sys) (c : Call) (s' : Sys) : Prop where
  | piece (a : Act) (env : RecEnv) (pc : RecPc) (l : List MosquittoProperty) (next : RecPc ⊕ Rc) : c = .act a →
      recAt s a = some (env, pc, l) → RecMoves env l s.m pc s'.m next → pcOf s (sideOf c) = some pc →
      pcOf s' (sideOf c) = next.getLeft? → SideMoves s c s'
  | away : (∀ a, c = .act a → recAt s a = none) →
      (pcOf s' (sideOf c) = pcOf s (sideOf c) ∨ pcOf s' (sideOf c) = none ∨
      pcOf s' (sideOf c) = some .start) → (s'.m.sock = s.m.sock ∨ s'.m.sock = none) → s'.m.conns = s.m.conns →
      SideMoves s c s'

/-- A step that is no piece of `mosquitto__reconnect`, with the connection as it was. -/
theorem sideMoves_conn {s s' : Sys} {a : Act} (ha : recAt s a = none)
    (hp : pcOf s' (sideOf (.act a)) = pcOf s (sideOf (.act a)) ∨
    pcOf s' (sideOf (.act a)) = none ∨ pcOf s' (sideOf (.act a)) = some .start) (hc : s'.m.conn = s.m.conn) :
    SideMoves s (.act a) s' := by
  refine .away (fun b hb => ?_) hp (.inl (sock_of_conn hc)) (conns_of_conn hc)
  cases hb
  exact ha

theorem act_sides {s s' : Sys} {a : Act} (h : Moves s a s') : SideMoves s (.act a) s' := by
  cases h with
  | connect c hq =>
    refine .away (fun b hb => by cases hb; rfl) (.inr (.inl rfl)) (.inl ?_) ?_
    · exact congrArg Conn.sock (conn_setupMosquitto s.m _)
    · exact congrArg Conn.conns (conn_setupMosquitto s.m _)
  | publish alloc a hq ha => exact sideMoves_conn rfl (.inl rfl) (conn_mosquittoPublishV5 ..)
  | refused r l hq hc => exact sideMoves_conn rfl (.inl rfl) rfl
  | disconnect r l hq hc => exact .away (fun b hb => by cases hb; rfl) (.inr (.inl rfl)) (.inl rfl) rfl
  | create env c hq ht => exact .away (fun b hb => by cases hb; simp [recAt, hq]) (.inr (.inl rfl)) (.inl rfl) rfl
  | created env c hq ht => exact sideMoves_conn (by simp [recAt, hq]) (.inr (.inl rfl)) rfl
  | bind env c hq =>
    refine sideMoves_conn (by simp [recAt, hq]) (.inr (.inl ?_)) (conn_connectBind ..)
    show QueuePc.recPc (if _ then _ else _) = none
    split <;> rfl
  | setNew env l hq => exact .away (fun b hb => by cases hb; simp [recAt, hq]) (.inr (.inr rfl)) (.inl rfl) rfl
  | queueRec env pc pc' l m hq e =>
    exact .piece _ env pc l _ rfl (by simp [recAt, hq]) e (by simp [pcOf, sideOf, hq, QueuePc.recPc]) rfl
  | queueRecEnd env pc l m rc hq e =>
    exact .piece _ env pc l _ rfl (by simp [recAt, hq]) e (by simp [pcOf, sideOf, hq, QueuePc.recPc]) rfl
  | discSend env r l hq => exact sideMoves_conn (by simp [recAt, hq]) (.inr (.inl rfl)) (conn_disconnectSend ..)
  | waitNew env hl =>
    refine sideMoves_conn (by simp [recAt, hl]) (.inr (.inl ?_)) rfl
    show LoopPc.recPc (if _ then _ else _) = none
    split <;> rfl
  | select r hl => exact sideMoves_conn rfl (.inr (.inl (by simp [pcOf, sideOf]))) rfl
  | packet i n p again alloc hl hs hp t ht =>
    cases ht with
    | done m rc e hc he hr => exact sideMoves_conn rfl (.inr (.inl (by simp [pcOf, sideOf]))) hc
    | connack m r max e hc he hr => exact sideMoves_conn rfl (.inr (.inl rfl)) hc
    | unsupported m e hc he hr => exact sideMoves_conn rfl (.inr (.inl (by simp [pcOf, sideOf]))) hc
    | disconnect e he hr => exact .away (fun b hb => by cases hb; rfl) (.inr (.inl rfl)) (.inr rfl) rfl
  | noPacket i n e again rc hl hrc => exact sideMoves_conn rfl (.inr (.inl (by simp [pcOf, sideOf]))) rfl
  | connack r max turn env hl =>
    obtain ⟨c, hm⟩ := connackSwitch_state env.alloc s.m r
    refine .away (fun b hb => by cases hb; simp [recAt, hl]) (.inr (.inl (by simp [pcOf, sideOf]))) (.inl ?_) ?_
    · exact congrArg Conn.sock hm
    · exact congrArg Conn.conns hm
  | discCall turn env hl =>
    exact .away (fun b hb => by cases hb; simp [recAt, hl]) (.inr (.inl (by simp [pcOf, sideOf]))) (.inl rfl) rfl
  | selWrite b hl =>
    refine sideMoves_conn rfl (.inr (.inl ?_)) rfl
    show LoopPc.recPc (if _ then _ else _) = none
    split <;> rfl
  | write i n taken e again m rc hl he =>
    exact sideMoves_conn rfl (.inr (.inl (by simp [pcOf, sideOf]))) (conn_written he)
  | writeDisconnect i n taken e again m hl he =>
    have hc := conn_writtenDisconnect he
    exact .away (fun b hb => by cases hb; rfl) (.inr (.inl rfl)) (.inr (congrArg Conn.sock hc))
      (congrArg Conn.conns hc)
  | rcClose rc turn env hl =>
    exact .away (fun b hb => by cases hb; simp [recAt, hl]) (.inr (.inl rfl)) (.inr rfl) rfl
  | rcCall rc turn env hl =>
    exact .away (fun b hb => by cases hb; simp [recAt, hl]) (.inr (.inl (by simp [pcOf, sideOf]))) (.inl rfl) rfl
  | misc due alloc rc hl ht => exact sideMoves_conn rfl (.inr (.inl rfl)) rfl
  | ping alloc hl hs hp => exact sideMoves_conn rfl (.inr (.inl rfl)) (conn_sendPingreq ..)
  | unanswered alloc rc hl hs ht => exact .away (fun b hb => by cases hb; rfl) (.inr (.inl rfl)) (.inr rfl) rfl
  | kaCall rc env hl => exact .away (fun b hb => by cases hb; simp [recAt, hl]) (.inr (.inl rfl)) (.inl rfl) rfl
  | ret rc eproto hl =>
    refine sideMoves_conn rfl (.inr (.inl ?_)) rfl
    show LoopPc.recPc (if _ then _ else _) = none
    repeat' split
    all_goals rfl
  | check1 env hl =>
    refine sideMoves_conn (by simp [recAt, hl]) (.inr (.inl ?_)) rfl
    show LoopPc.recPc (if _ then _ else _) = none
    split <;> rfl
  | sleep ok hl =>
    refine sideMoves_conn rfl (.inr (.inl ?_)) rfl
    cases ok <;> rfl
  | check2 env hl =>
    refine sideMoves_conn (by simp [recAt, hl]) (.inr ?_) rfl
    show LoopPc.recPc (if _ then _ else _) = none ∨ LoopPc.recPc (if _ then _ else _) = some .start
    split
    · exact .inl rfl
    · exact .inr rfl
  | loopRec env pc pc' m hl e =>
    exact .piece _ env pc [] _ rfl (by simp [recAt, hl]) e (by simp [pcOf, sideOf, hl, LoopPc.recPc]) rfl
  | loopRecEnd env pc m rc hl e =>
    refine .piece _ env pc [] _ rfl (by simp [recAt, hl]) e (by simp [pcOf, sideOf, hl, LoopPc.recPc]) ?_
    show LoopPc.recPc (if _ then _ else _) = none
    split <;> rfl

theorem call_sides {s s' : Sys} {c : Call} (h : callStep s c = some s') : SideMoves s c s' := by
  rcases call_cases h with ⟨a, rfl, hm⟩ | ⟨hne, hq, hasks, hs⟩
  · exact act_sides hm
  · have hc : s'.m.conn = s.m.conn := by
      rcases hasks with e | ⟨p, -, e⟩
      · rw [e]
      · rw [e]
        rfl
    refine .away (fun a ha => absurd ha (hne a)) (.inl ?_) (.inl (sock_of_conn hc)) (conns_of_conn hc)
    rw [hs]
    rfl

/-- A thread that is in `mosquitto__reconnect` goes on there. -/
theorem pcOf_away {s s' : Sys} {c : Call} (h : callStep s c = some s') (ha : ∀ a, c = .act a → recAt s a = none) :
    pcOf s (sideOf c) = none := by
  have hq : ∀ pc, s.queue.recPc = some pc → ∃ l, s.queue = .rec_ pc l := by
    intro pc hpc
    cases hq : s.queue with
    | rec_ at_ l =>
      rw [hq] at hpc
      cases hpc
      exact ⟨l, rfl⟩
    | _ =>
      rw [hq] at hpc
      cases hpc
  have hl : ∀ pc, s.loop.recPc = some pc → s.loop = .rec_ pc := by
    intro pc hpc
    cases hl : s.loop with
    | rec_ at_ =>
      rw [hl] at hpc
      cases hpc
      rfl
    | _ =>
      rw [hl] at hpc
      cases hpc
  by_contra hne
  obtain ⟨pc, hpc⟩ := Option.ne_none_iff_exists'.mp hne
  cases c with
  | act a =>
    cases a with
    | loop e =>
      have hl := hl pc hpc
      cases e with
      | tick env =>
        have := ha _ rfl
        simp [recAt, hl] at this
      | _ => simp [callStep, step, loopStep, hl] at h
    | queue env =>
      obtain ⟨l, hq⟩ := hq pc hpc
      have := ha _ rfl
      simp [recAt, hq] at this
    | _ =>
      obtain ⟨l, hq⟩ := hq pc hpc
      simp [callStep, step, hq] at h
  | _ =>
    obtain ⟨l, hq⟩ := hq pc hpc
    simp [callStep, hq] at h

/-- The other thread stays where it is. -/
theorem call_other {s s' : Sys} {c : Call} (hi : Created s) (h : callStep s c = some s') :
    pcOf s' (sideOf c).other = pcOf s (sideOf c).other := by
  rcases call_cases h with ⟨a, rfl, hm⟩ | ⟨hne, hq, hasks, hs⟩
  · cases hm with
    | create env c hq ht =>
      -- there is no loop thread yet
      have hnone : s.loop = .none := by
        by_contra hne
        rw [hi.loop hne] at ht
        cases ht
      show none = s.loop.recPc
      rw [hnone]
      rfl
    | packet i n p again alloc hl hs hp t ht => exact congrArg QueuePc.recPc (readMoves_frame ht).1
    | _ => rfl
  · rw [hs]
    cases c with
    | act a => exact absurd rfl (hne a)
    | _ => rfl

theorem call_created {s s' : Sys} {c : Call} (hi : Created s) (h : callStep s c = some s') : Created s' := by
  rcases call_cases h with ⟨a, rfl, hm⟩ | ⟨hne, hq, hasks, hs⟩
  · exact step_created hi hm
  · have ht : s'.m.threaded = s.m.threaded := by
      rcases hasks with e | ⟨p, -, e⟩
      · rw [e]
      · rw [e]
        rfl
    rw [hs]
    exact ⟨fun hl => ht.trans (hi.loop hl), fun h1 h2 => absurd hq h2⟩

end Artemisia.Threads
