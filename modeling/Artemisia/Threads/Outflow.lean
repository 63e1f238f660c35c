/-
  Artemisia.Threads.Outflow — what a step of the two threads hands to `packet__queue`: PUBLISHes, with the
  messages they are for, and CONNECTs.

  Proved:
  - `step_outflow`:    the PUBLISHes and CONNECTs a step queues are those of `handed` and `connectsNow`.
  - `handed_sendable`: each PUBLISH has passed the checks of its size.
-/
import Artemisia.Client.Handed
import Artemisia.Threads.Moves

namespace Artemisia.Threads

open Artemisia.Property Artemisia.Client

/-! ## What a step hands over -/

/-- The packets that a step hands to `packet__queue` for the messages out. -/
def handed (s : Sys) : Act → List (Message × Packet)
  | .publish alloc a => publishHands alloc s.m a
  | .loop (.packet p _ alloc) => packetHands alloc s.m p
  | .loop (.tick env) => match s.loop with
    | .connack reason _ _ => connackHands env.alloc s.m reason
    | _ => []
  | _ => []

/-- How many messages a step publishes. -/
def publishesNow (s : Sys) : Act → Nat
  | .publish _ a => if publishChecks s.m a = .success then 1 else 0
  | _ => 0

/-- The CONNECTs that a step hands to `packet__queue`. -/
def connectsNow (s : Sys) : Act → List ConnectData
  | .queue env => match s.queue with
    | .rec_ .sendConnect properties => connectHands env.alloc s.m properties
    | _ => []
  | .loop (.tick env) => match s.loop with
    | .rec_ .sendConnect => connectHands env.alloc s.m []
    | _ => []
  | _ => []

theorem outflow_recMoves {env : RecEnv} {l : List MosquittoProperty} {m m' : Mosq} {pc : RecPc}
    {next : RecPc ⊕ Rc}
    (h : RecMoves env l m pc m' next) :
    m'.outflow = m.outflow.connect (if pc = .sendConnect then connectHands env.alloc m l else []) := by
  cases h with
  | sent hs => exact outflow_sendConnect env.alloc m l
  | unsent rc hs => exact outflow_sendConnect env.alloc m l
  | _ => rfl

theorem outflow_readMoves {s t : Sys} {p : InPacket} {turn : Turn} {alloc : Alloc}
    (h : ReadMoves s p turn alloc t) :
    t.m = (handlePacket alloc s.m p).1 := by
  cases h with
  | done m rc e => exact (congrArg Prod.fst e).symm
  | connack m r max e => exact (congrArg Prod.fst e).symm
  | unsupported m e => exact (congrArg Prod.fst e).symm
  | disconnect e => exact (congrArg Prod.fst e).symm

theorem connectsNow_queue {s : Sys} {env : RecEnv} {l : List MosquittoProperty} {pc : RecPc}
    (h : s.queue = .rec_ pc l) :
    connectsNow s (.queue env) = if pc = .sendConnect then connectHands env.alloc s.m l else [] := by
  cases pc <;> simp [connectsNow, h]

theorem connectsNow_loop {s : Sys} {env : RecEnv} {pc : RecPc} (h : s.loop = .rec_ pc) :
    connectsNow s (.loop (.tick env)) = if pc = .sendConnect then connectHands env.alloc s.m [] else [] := by
  cases pc <;> simp [connectsNow, h]

/-- The PUBLISHes and CONNECTs a step queues are those that are listed; the will is left alone. -/
theorem step_outflow {s s' : Sys} {a : Act} (h : Moves s a s') : s'.m.outflow =
    (Outflow.connect { s.m.outflow with published := s.m.published + publishesNow s a } (connectsNow s a)).add
      (publishesOf (handed s a)) := by
  cases h with
  | connect c hq => exact outflow_setupMosquitto s.m _
  | publish alloc a hq ha => exact outflow_publish alloc s.m a
  | create env c hq ht => simp [connectsNow, hq, handed, publishesNow, Outflow.connect, Mosq.outflow]
  | created env c hq ht => simp [connectsNow, hq, handed, publishesNow, Outflow.connect, Mosq.outflow]
  | bind env c hq =>
    simp only [connectsNow, hq]
    exact outflow_connectBind s.m env c
  | setNew env l hq =>
    simp only [connectsNow, hq]
    rfl
  | queueRec env pc pc' l m hq e =>
    rw [connectsNow_queue hq]
    exact outflow_recMoves e
  | queueRecEnd env pc l m rc hq e =>
    rw [connectsNow_queue hq]
    exact outflow_recMoves e
  | discSend env r l hq =>
    simp only [connectsNow, hq]
    exact outflow_disconnectSend env.alloc s.m r l
  | packet i n p again alloc hl hs hp t ht =>
    rw [outflow_readMoves ht]
    exact outflow_handlePacket alloc s.m p
  | connack r max turn env hl =>
    simp only [handed, connectsNow, hl]
    exact outflow_connackSwitch env.alloc s.m r
  | write i n taken e again m rc hl he =>
    have hm := outflow_packetWrite s.m e.rc taken
    rw [he] at hm
    exact hm
  | writeDisconnect i n taken e again m hl he =>
    have hm := outflow_packetWrite s.m e.rc taken
    rw [he] at hm
    exact hm
  | ping alloc hl hs ht => exact outflow_sendPingreq alloc s.m
  | loopRec env pc pc' m hl e =>
    rw [connectsNow_loop hl]
    simp only [handed, hl]
    exact outflow_recMoves e
  | loopRecEnd env pc m rc hl e =>
    rw [connectsNow_loop hl]
    simp only [handed, hl]
    exact outflow_recMoves e
  | waitNew env hl => simp only [handed, connectsNow, hl]; rfl
  | discCall turn env hl => simp only [handed, connectsNow, hl]; rfl
  | rcClose rc turn env hl => simp only [handed, connectsNow, hl]; rfl
  | rcCall rc turn env hl => simp only [handed, connectsNow, hl]; rfl
  | kaCall rc env hl => simp only [handed, connectsNow, hl]; rfl
  | check1 env hl => simp only [handed, connectsNow, hl]; rfl
  | check2 env hl => simp only [handed, connectsNow, hl]; rfl
  | _ => rfl

/-- The PUBLISHes among them have passed the checks of their size. -/
theorem handed_sendable {s : Sys} {b : Act} {x : Message × Packet} (h : x ∈ handed s b)
    (hx : x.2.isPublish = true) :
    Sendable s.m x.1 := by
  cases b with
  | publish alloc a => exact publishHands_sendable h
  | loop ev =>
    cases ev with
    | packet p again alloc => exact packetHands_sendable h hx
    | tick env =>
      simp only [handed] at h
      split at h
      · exact connackHands_sendable h hx
      · cases h
    | _ => cases h
  | _ => cases h

end Artemisia.Threads
