/-
  Artemisia.Threads.StoreInvariant — the two stores over the runs of the threads: their counters, and the
  QoS and the state of each entry. What a server sends may be anything: no acknowledgement, and no PUBLISH,
  breaks them.

  Proved:
  - `inStore_handlePacket`: no packet that is read breaks the messages in.
  - `call_stores`:          no step breaks either store.
  - `stores_reached`:       so in every state that is reached.
-/
import Artemisia.Client.Counted
import Artemisia.Inbound.ReceiveQuota
import Artemisia.Threads.Calls

namespace Artemisia.Threads

open Artemisia.Property Artemisia.Client Artemisia.Inbound

structure BothStores (m : Mosq) : Prop where
  out : OutStore m.msgsOut
  in_ : InStore m.msgsIn

theorem BothStores.congr {m m' : Mosq} (h : BothStores m) (ho : m'.msgsOut = m.msgsOut)
    (hi : m'.msgsIn = m.msgsIn) : BothStores m' :=
  ⟨ho ▸ h.out, hi ▸ h.in_⟩

/-! ## The messages in -/

section Inbound

variable (alloc : Alloc) (m : Mosq)

theorem inStore_handlePublish (p : PublishIn) (h : InStore m.msgsIn) :
    InStore (handlePublish alloc m p).1.msgsIn := by
  unfold handlePublish
  split
  · exact h
  · unfold acceptPublish
    split
    · exact h
    · rw [msgsIn_emit, msgsIn_sendPuback]
      exact h.decrementQuota.incrementQuota
    · rename_i hq
      show InStore ((sendPubrec alloc (decrementReceiveQuota m) _ 0).1.msgsIn.append _)
      rw [msgsIn_sendPubrec]
      exact h.decrementQuota.append hq rfl
    · exact h

theorem inStore_handlePubrel (flags : UInt8) (mid : Except Rc UInt16) (tail : Except Rc UInt8)
    (h : InStore m.msgsIn) :
    InStore (handlePubrel alloc m flags mid tail).1.msgsIn := by
  have hsent (i : UInt16) : InStore (sendPubcomp alloc m i).1.msgsIn := by
    rw [msgsIn_sendPubcomp]
    exact h.incrementQuota
  unfold handlePubrel
  split
  · exact h
  · unfold releaseMessage
    dsimp only
    split
    · rename_i e
      have hless := (hsent _).remove e
      split
      · exact hless
      · exact hless
    · repeat' split
      all_goals exact hsent _

theorem inStore_handlePacket (p : InPacket) (h : InStore m.msgsIn) :
    InStore (handlePacket alloc m p).1.msgsIn := by
  cases p with
  | publish p => exact inStore_handlePublish alloc m p h
  | pubrel flags mid tail => exact inStore_handlePubrel alloc m flags mid tail h
  | disconnect reason tail => exact (msgsIn_handleDisconnect m reason tail).symm ▸ h
  | _ =>
    simp only [handlePacket]
    repeat' split
    all_goals simpa using h

theorem inStore_adoptReceiveMaximum (l : List MosquittoProperty) (h : InStore m.msgsIn) :
    InStore (adoptReceiveMaximum m l).msgsIn := by
  obtain ⟨maximum, quota, e⟩ := adoptReceiveMaximum_eq m l
  rw [e]
  exact h.congr rfl rfl

theorem inStore_sendConnect (l : List MosquittoProperty) (h : InStore m.msgsIn) :
    InStore (sendConnect alloc m l).1.msgsIn := by
  have ha := inStore_adoptReceiveMaximum m l h
  rcases sendConnect_cases alloc m l with ⟨-, e⟩ | ⟨rc, -, e | e⟩
  · rw [e]
    exact ha
  · rw [e]
    exact h
  · rw [e]
    exact ha

end Inbound

/-! ## One step -/

section Steps

variable {s s' : Sys}

theorem stores_handlePacket {m : Mosq} (alloc : Alloc) (p : InPacket) (h : BothStores m) :
    BothStores (handlePacket alloc m p).1 :=
  ⟨outStore_handlePacket alloc m p h.out, inStore_handlePacket alloc m p h.in_⟩

theorem stores_connackSwitch {m : Mosq} (alloc : Alloc) (r : UInt8) (h : BothStores m) :
    BothStores (connackSwitch alloc m r).1 :=
  ⟨outStore_connackSwitch alloc m r h.out, (msgsIn_connackSwitch alloc m r).symm ▸ h.in_⟩

theorem stores_publish {m : Mosq} (alloc : Alloc) (a : PublishArgs) (h : BothStores m) :
    BothStores (mosquittoPublishV5 alloc m a).1 :=
  ⟨outStore_publish alloc m a h.out, (msgsIn_mosquittoPublishV5 alloc m a).symm ▸ h.in_⟩

/-- The options set the two maxima. -/
theorem stores_setupMosquitto {m : Mosq} (c : ConnectConfig) (h : BothStores m) :
    BothStores (setupMosquitto m c) := by
  obtain ⟨username, password, e⟩ := setupMosquitto_eq m c
  rw [e]
  by_cases h5 : c.protocolVersion = .mqtt5
  · rw [if_pos h5, if_pos h5]
    exact ⟨h.out.congr rfl rfl, h.in_.congr rfl rfl⟩
  · rw [if_neg h5, if_neg h5]
    exact ⟨h.out, h.in_⟩

/-- `mosquitto__connect_init` fills the two quotas. -/
theorem stores_connectBind {m : Mosq} (env : RecEnv) (c : ConnectConfig) (h : BothStores m) :
    BothStores (connectBind env m c).1 := by
  rcases connectBind_cases m env c with ⟨e, -⟩ | ⟨id, e⟩
  · rw [e]
    exact h
  · rw [e]
    exact ⟨h.out.congr rfl rfl, h.in_.congr rfl rfl⟩

theorem stores_recMoves {env : RecEnv} {l : List MosquittoProperty} {m m' : Mosq} {pc : RecPc} {next : RecPc ⊕ Rc}
    (hs : BothStores m) (h : RecMoves env l m pc m' next) : BothStores m' := by
  have hconnect : BothStores (sendConnect env.alloc m l).1 :=
    ⟨(msgsOut_sendConnect env.alloc m l).symm ▸ hs.out, inStore_sendConnect env.alloc m l hs.in_⟩
  cases h with
  | reset => exact ⟨outStore_reset m hs.out, hs.in_.reset⟩
  | sent _ => exact hconnect
  | unsent rc _ => exact hconnect
  | _ => exact hs.congr rfl rfl

theorem stores_packetWrite {m : Mosq} (stop : Rc) (n : Nat) (h : BothStores m) :
    BothStores (packetWrite stop n m).1 :=
  h.congr (msgsOut_packetWrite m stop n) (msgsIn_packetWrite m stop n)

theorem act_stores {a : Act} (hs : BothStores s.m) (h : Moves s a s') : BothStores s'.m := by
  cases h with
  | connect c hq => exact stores_setupMosquitto _ hs
  | publish alloc a hq ha => exact stores_publish alloc a hs
  | bind env c hq => exact stores_connectBind env c hs
  | queueRec env pc pc' l m hq e => exact stores_recMoves hs e
  | queueRecEnd env pc l m rc hq e => exact stores_recMoves hs e
  | loopRec env pc pc' m hl e => exact stores_recMoves hs e
  | loopRecEnd env pc m rc hl e => exact stores_recMoves hs e
  | discSend env r l hq =>
    refine hs.congr (msgsOut_disconnectSend env.alloc s.m r l) ?_
    show (disconnectSend env.alloc s.m r l).1.msgsIn = s.m.msgsIn
    unfold disconnectSend
    split
    · rfl
    · exact msgsIn_sendPacket ..
  | packet i n p again alloc hl hsock hst t ht =>
    rw [outflow_readMoves ht]
    exact stores_handlePacket alloc p hs
  | connack r max turn env hl => exact stores_connackSwitch env.alloc r hs
  | write i n taken e again m rc hl he =>
    rw [show m = (packetWrite e.rc taken s.m).1 by rw [he]]
    exact stores_packetWrite e.rc taken hs
  | writeDisconnect i n taken e again m hl he =>
    rw [show m = (packetWrite e.rc taken s.m).1 by rw [he]]
    exact stores_packetWrite e.rc taken hs
  | ping alloc hl hsock ht =>
    refine hs.congr (msgsOut_sendPingreq alloc s.m) ?_
    have hp : (sendPacket alloc s.m 0 .pingreq).1.msgsIn = s.m.msgsIn := msgsIn_sendPacket ..
    show (sendPingreq alloc s.m).1.msgsIn = s.m.msgsIn
    unfold sendPingreq sendSimpleCommand
    split
    · rename_i e
      rw [e] at hp
      exact hp
    · exact hp
  | _ => exact hs.congr rfl rfl

/-- No step breaks a store: a subscribe or an unsubscribe does not touch them. -/
theorem call_stores {c : Call} (hs : BothStores s.m) (h : callStep s c = some s') : BothStores s'.m := by
  rcases call_cases h with ⟨a, rfl, hm⟩ | ⟨-, -, hasks | ⟨p, -, hasks⟩, -⟩
  · exact act_stores hs hm
  · rw [hasks]
    exact hs
  · rw [hasks]
    exact hs.congr rfl rfl

theorem init_stores (h : IsInit s) : BothStores s.m := by
  obtain ⟨id, cleanStart, rfl⟩ := h
  exact ⟨⟨rfl, StoreOk.nil⟩, ⟨rfl, by simp [Sys.init, Mosq.new]⟩⟩

end Steps

/-! ## Runs -/

/-- In every state that is reached, both counters are right and every entry is in a state its QoS allows. -/
theorem stores_reached {s : Sys} (h : Machine.Reach callStep IsInit Machine.anyAct s) :
    s.m.msgsOut.queueLen = s.m.msgsOut.inflight.length ∧ s.m.msgsIn.queueLen = s.m.msgsIn.inflight.length ∧
    (∀ e ∈ s.m.msgsOut.inflight,
      (e.qos = 1 ∧ (e.state = .invalid ∨ e.state = .publishQos1 ∨ e.state = .waitForPuback)) ∨
      (e.qos = 2 ∧ (e.state = .invalid ∨ e.state = .publishQos2 ∨ e.state = .waitForPubrec ∨
      e.state = .waitForPubcomp
        ∨ e.state = .resendPubrel))) ∧
    ∀ e ∈ s.m.msgsIn.inflight, e.qos = 2 ∧ e.state = .waitForPubrel := by
  have hs : BothStores s.m := h.inv (I := fun s => BothStores s.m) (fun _ => init_stores)
      (fun _ _ _ hi _ hst => call_stores hi hst)
  exact ⟨hs.out.counted, hs.in_.counted, hs.out.entries, hs.in_.entries⟩

/-- A PUBLISH of QoS 2, with the packet id of a message out. -/
def qos2In : InPacket :=
  .publish { dup := false, qos := 2, retain := false, topic := .ok (.of [116]), mid := .ok 1,
             properties := .ok [],
             payload := [], uid := 0 }

/-- A message is published, the server sends the same packet twice, and the connection is lost and made again. -/
def twice : List Act :=
  established [] ++ [publishes] ++ reads qos2In ++ idles ++ reads qos2In ++ idles ++ loses ++ [tick, tick, tick]

theorem stores_reached_twice : ∃ s, Machine.Reach callStep IsInit Machine.anyAct s ∧ s.m.msgsIn.queueLen = 2 ∧
    s.m.msgsOut.queueLen = s.m.msgsOut.inflight.length ∧ s.m.msgsIn.queueLen = s.m.msgsIn.inflight.length := by
  have hr : (Machine.run callStep (Sys.init none true) (twice.map .act)).map (fun s => s.m.msgsIn.queueLen) =
      some 2 := by
    decide
  obtain ⟨s, hs, hd⟩ := Machine.reach_of_map_any IsInit ⟨none, true, rfl⟩ hr
  obtain ⟨hout, hin, -⟩ := stores_reached hs
  exact ⟨s, hs, hd, hout, hin⟩

end Artemisia.Threads
