/-
  Artemisia.Threads.Calls — the two threads with all the calls that take a packet id: subscribe and unsubscribe
  beside publish. Each is one step of the application's queue.

  Proved:
  - `call_changes`: a step sends what is ordinary, or is one of the few that change more.
  - `call_store`:   every message out stays in one of the states its QoS allows.
  - `call_contents`, `call_drawn`, `call_queue`: what a step makes of the messages out, of the packet ids,
                                                 and of what
                    is to be written.
-/
import Artemisia.Client.Sends
import Artemisia.Client.Subscribe
import Artemisia.Threads.Republish

namespace Artemisia.Threads

open Artemisia.Property Artemisia.Client

inductive Call where
  | act (a : Act)
  | subscribe (alloc : Alloc) (a : SubscribeArgs)
  | unsubscribe (alloc : Alloc) (a : UnsubscribeArgs)

def callStep (s : Sys) : Call → Option Sys
  | .act a => step s a
  | .subscribe alloc a => match s.queue with
    | .idle => some (s.upd (mosquittoSubscribeMultiple alloc s.m a).1)
    | _ => none
  | .unsubscribe alloc a => match s.queue with
    | .idle => some (s.upd (mosquittoUnsubscribeMultiple alloc s.m a).1)
    | _ => none

/-! ## What a step changes -/

/-- The piece of `mosquitto__reconnect` that a step takes, with the properties of the CONNECT. -/
def recAt (s : Sys) : Act → Option (RecEnv × RecPc × List MosquittoProperty)
  | .queue env => match s.queue with
    | .rec_ pc l => some (env, pc, l)
    | _ => none
  | .loop (.tick env) => match s.loop with
    | .rec_ pc => some (env, pc, [])
    | _ => none
  | _ => none

/-- The packet id of the message out that a step completes. -/
def ackedNow (s : Sys) : Call → Option UInt16
  | .act (.loop (.packet p _ _)) => acked s.m p
  | _ => none

/-- The messages that a step puts into the store. -/
def storedNow (s : Sys) : Call → List Message
  | .act a => stored s a
  | _ => []

/-- What a step makes of the client. -/
inductive Changes (s : Sys) : Call → Mosq → Prop where
  | sends (c : Call) (m : Mosq) : storedNow s c = [] → Sends (ackedNow s c) s.m m → Changes s c m
  | connect (c : ConnectConfig) :
      Changes s (.act (.connect c)) (setupMosquitto s.m (if c.protocolVersion = .mqtt5 then c
        else { c with properties := [] }))
  | publish (alloc : Alloc) (a : PublishArgs) : (mosquittoPublishV5 alloc s.m a).2 ≠ .aborted →
      Changes s (.act (.publish alloc a)) (mosquittoPublishV5 alloc s.m a).1
  /-- A SUBSCRIBE or an UNSUBSCRIBE, with a packet id that has just been drawn. -/
  | asks (c : Call) (p : Packet) : (∀ a, c ≠ .act a) → p.ordinary = true →
      Changes s c (packetQueue (midGenerate s.m).1 p)
  | bind (env : RecEnv) (c : ConnectConfig) : s.queue = .connectBind c →
      Changes s (.act (.queue env)) (connectBind env s.m c).1
  | reconnect (a : Act) (env : RecEnv) (pc : RecPc) (l : List MosquittoProperty) (m : Mosq) (next : RecPc ⊕ Rc) :
      recAt s a = some (env, pc, l) → RecMoves env l s.m pc m next → Changes s (.act a) m
  | connack (flags reason : Except Rc UInt8) (l : Except Rc (List MosquittoProperty)) (again :
      Bool) (alloc : Alloc) :
      Changes s (.act (.loop (.packet (.connack flags reason l) again alloc)))
        (handleConnack s.m flags reason l).1
  | disconnected (reason : Except Rc UInt8) (tail : Rc) (again : Bool) (alloc : Alloc) :
      Changes s (.act (.loop (.packet (.disconnect reason tail) again alloc))) (doClientDisconnect s.m)
  | written (taken : Nat) (e : WriteEnd) (again : Bool) :
      Changes s (.act (.loop (.write taken e again))) (packetWrite e.rc taken s.m).1

theorem Changes.quiet {s : Sys} {a : Act} {m : Mosq} (hs : stored s a = []) (ha : ackedNow s (.act a) = none)
    (h : Sends none s.m m) : Changes s (.act a) m := .sends _ _ hs (by rw [ha]; exact h)

theorem changes_packet {s : Sys} {p : InPacket} {again : Bool} {alloc : Alloc} :
    Changes s (.act (.loop (.packet p again alloc))) (handlePacket alloc s.m p).1 := by
  by_cases hp : p.sends = true
  · exact .sends _ _ rfl (sends_handlePacket alloc s.m hp)
  cases p with
  | connack flags reason l => exact .connack flags reason l again alloc
  | disconnect reason tail =>
    have hnone : Changes s (.act (.loop (.packet (.disconnect reason tail) again alloc))) s.m :=
      .quiet rfl rfl (.refl _)
    simp only [handlePacket, handleDisconnect]
    split
    · exact hnone
    · split
      · exact hnone
      · split
        · exact hnone
        · exact .disconnected _ tail again alloc
  | _ => exact absurd rfl hp

theorem act_changes {s s' : Sys} {a : Act} (hs : StoreOk s.m.msgsOut.inflight) (h : Moves s a s') :
    Changes s (.act a) s'.m := by
  cases h with
  | connect c hq => exact .connect c
  | publish alloc a hq ha => exact .publish alloc a ha
  | bind env c hq => exact .bind env c hq
  | queueRec env pc pc' l m hq e => exact .reconnect _ env pc l m _ (by simp [recAt, hq]) e
  | queueRecEnd env pc l m rc hq e => exact .reconnect _ env pc l m _ (by simp [recAt, hq]) e
  | discSend env r l hq => exact .quiet rfl rfl (sends_disconnectSend env.alloc s.m r l)
  | packet i n p again alloc hl hsock hst t ht =>
    rw [outflow_readMoves ht]
    exact changes_packet
  | connack r max turn env hl => exact .quiet rfl rfl (sends_connackSwitch env.alloc s.m r hs)
  | write i n taken e again m rc hl he =>
    rw [show m = (packetWrite e.rc taken s.m).1 by rw [he]]
    exact .written taken e again
  | writeDisconnect i n taken e again m hl he =>
    rw [show m = (packetWrite e.rc taken s.m).1 by rw [he]]
    exact .written taken e again
  | ping alloc hl hsock ht => exact .quiet rfl rfl (sends_sendPingreq alloc s.m)
  | loopRec env pc pc' m hl e => exact .reconnect _ env pc [] m _ (by simp [recAt, hl]) e
  | loopRecEnd env pc m rc hl e => exact .reconnect _ env pc [] m _ (by simp [recAt, hl]) e
  | _ => exact .quiet rfl rfl (.same rfl rfl rfl rfl rfl)

/-- What a call of subscribe or unsubscribe makes of the client. -/
def Asks (m m' : Mosq) : Prop := m' = m ∨ ∃ p, p.ordinary = true ∧ m' = packetQueue (midGenerate m).1 p

theorem asks_subscribe (alloc : Alloc) (m : Mosq) (a : SubscribeArgs) :
    Asks m (mosquittoSubscribeMultiple alloc m a).1 := by
  rcases subscribe_cases alloc m a with ⟨-, -, h⟩ | ⟨rc, -, h⟩
  · rw [h]
    exact .inr ⟨_, rfl, rfl⟩
  · rw [h]
    exact .inl rfl

theorem asks_unsubscribe (alloc : Alloc) (m : Mosq) (a : UnsubscribeArgs) :
    Asks m (mosquittoUnsubscribeMultiple alloc m a).1 := by
  rcases unsubscribe_cases alloc m a with ⟨-, -, h⟩ | ⟨rc, -, h⟩
  · rw [h]
    exact .inr ⟨_, rfl, rfl⟩
  · rw [h]
    exact .inl rfl

theorem call_cases {s s' : Sys} {c : Call} (h : callStep s c = some s') :
    (∃ a, c = .act a ∧ Moves s a s') ∨ ((∀ a, c ≠ .act a) ∧ s.queue = .idle ∧ Asks s.m s'.m ∧
    s' = s.upd s'.m) := by
  cases c with
  | act a => exact .inl ⟨a, rfl, step_moves h⟩
  | subscribe alloc a =>
    simp only [callStep] at h
    split at h
    · rename_i hq
      cases h
      exact .inr ⟨fun _ => by simp, hq, asks_subscribe alloc s.m a, rfl⟩
    · cases h
  | unsubscribe alloc a =>
    simp only [callStep] at h
    split at h
    · rename_i hq
      cases h
      exact .inr ⟨fun _ => by simp, hq, asks_unsubscribe alloc s.m a, rfl⟩
    · cases h

theorem asks_changes {s : Sys} {c : Call} {m : Mosq} (hc : ∀ a, c ≠ .act a) (h : Asks s.m m) : Changes s c m := by
  rcases h with rfl | ⟨p, hp, rfl⟩
  · cases c with
    | act a => exact absurd rfl (hc a)
    | _ => exact .sends _ _ rfl (.refl _)
  · exact .asks c p hc hp

theorem call_changes {s s' : Sys} {c : Call} (hs : StoreOk s.m.msgsOut.inflight) (h : callStep s c = some s') :
    Changes s c s'.m := by
  rcases call_cases h with ⟨a, rfl, hm⟩ | ⟨hne, -, hasks, -⟩
  · exact act_changes hs hm
  · exact asks_changes hne hasks

/-! ## The states of the messages out -/

theorem act_store {s s' : Sys} {a : Act} (hs : StoreOk s.m.msgsOut.inflight) (h : Moves s a s') :
    StoreOk s'.m.msgsOut.inflight := by
  rcases step_store h with hl | ⟨-, -, hl⟩
  · refine StoreOk.later (storeOk_append.mpr ⟨hs, ?_⟩) hl
    cases a with
    | publish alloc a =>
      simp only [stored]
      split
      · rename_i hc
        exact storeOk_cons.mpr ⟨outOk_messageOf s.m _ hc.1 hc.2, StoreOk.nil⟩
      · exact StoreOk.nil
    | _ => exact StoreOk.nil
  · rw [hl]
    exact storeOk_reset s.m hs

theorem call_store {s s' : Sys} {c : Call} (hs : StoreOk s.m.msgsOut.inflight) (h : callStep s c = some s') :
    StoreOk s'.m.msgsOut.inflight := by
  rcases call_cases h with ⟨a, rfl, hm⟩ | ⟨-, -, hasks | ⟨p, -, hasks⟩, -⟩
  · exact act_store hs hm
  · rw [hasks]
    exact hs
  · rw [hasks]
    exact hs

/-! ## What a step makes of the client -/

section Laws

variable {s s' : Sys} {c : Call} {m : Mosq}

theorem contents_setupMosquitto (m : Mosq) (c : ConnectConfig) : (setupMosquitto m c).contents = m.contents :=
  contents_of_inflight (inflight_setupMosquitto m c)

theorem contents_recMoves {env : RecEnv} {l : List MosquittoProperty} {m m' : Mosq} {pc : RecPc}
    {next : RecPc ⊕ Rc}
    (h : RecMoves env l m pc m' next) : m'.contents = m.contents := by
  cases h with
  | reset =>
    show (resetOutLoop m.msgsOut.inflightMaximum m.msgsOut.inflight).2.map Message.said = _
    rw [resetOutLoop_eq, List.map_append, List.map_map, List.map_map]
    conv_rhs => rw [Mosq.contents, ← List.take_append_drop m.msgsOut.inflightMaximum m.msgsOut.inflight,
      List.map_append]
    rfl
  | sent hs => exact contents_of_inflight (congrArg MsgData.inflight (msgsOut_sendConnect env.alloc m l))
  | unsent rc hs => exact contents_of_inflight (congrArg MsgData.inflight (msgsOut_sendConnect env.alloc m l))
  | _ => rfl

/-- A piece of `mosquitto__reconnect` completes nothing and stores nothing. -/
theorem recAt_quiet {a : Act} {x : RecEnv × RecPc × List MosquittoProperty} (h : recAt s a = some x) :
    ackedNow s (.act a) = none ∧ storedNow s (.act a) = [] := by
  cases a with
  | loop e =>
    cases e with
    | tick env => exact ⟨rfl, rfl⟩
    | _ => cases h
  | queue env => exact ⟨rfl, rfl⟩
  | _ => cases h

/-- A step completes a message, or puts one at the end; of the others nothing changes that they say. -/
theorem changes_contents (h : Changes s c m) :
    m.contents = without (ackedNow s c) s.m.contents ++ (storedNow s c).map Message.said := by
  have hnil {m' : Mosq} (h : m'.contents = s.m.contents) :
      m'.contents = without none s.m.contents ++ List.map Message.said [] := by
    rw [h]
    exact (List.append_nil _).symm
  cases h with
  | sends _ _ hs h => rw [h.contents, hs, List.map_nil, List.append_nil]
  | connect c => exact hnil (contents_setupMosquitto s.m _)
  | publish alloc a ha =>
    rcases publish_cases alloc s.m a ha with ⟨hc, h⟩ | ⟨hc, h0, h⟩ | ⟨hc, h0, h⟩
    · rw [h]
      simp [storedNow, stored, hc, ackedNow, without]
    · rw [h, contents_of_inflight (congrArg MsgData.inflight (msgsOut_sendPublish ..))]
      simp [storedNow, stored, h0, ackedNow, without]
      rfl
    · rw [h.contents]
      simp only [storedNow, stored, hc, h0, ne_eq, not_false_eq_true, and_self, if_true]
      exact List.map_append
  | asks c p hne hp =>
    cases c with
    | act a => exact absurd rfl (hne a)
    | _ => exact hnil rfl
  | bind env c hq => exact hnil (contents_of_inflight (inflight_connectBind s.m env c))
  | reconnect a env pc l m next ha h =>
    obtain ⟨hack, hstore⟩ := recAt_quiet ha
    rw [hack, hstore]
    exact hnil (contents_recMoves h)
  | connack flags reason l again alloc =>
    exact hnil (contents_of_inflight (msgsOut_handleConnack s.m flags reason l))
  | disconnected reason tail again alloc => exact hnil rfl
  | written taken e again =>
    obtain ⟨k, h⟩ := takes_packetWrite s.m e.rc taken
    exact hnil h.contents

theorem ledger_setupMosquitto (m : Mosq) (c : ConnectConfig) : (setupMosquitto m c).ledger = m.ledger := by
  obtain ⟨username, password, e⟩ := setupMosquitto_eq m c
  rw [e]
  rfl

theorem ledger_connectBind (env : RecEnv) (m : Mosq) (c : ConnectConfig) :
    (connectBind env m c).1.ledger = m.ledger := by
  rcases connectBind_cases m env c with ⟨e, -⟩ | ⟨id, e⟩
  · rw [e]
  · rw [e]
    rfl

theorem ledger_handleConnack (m : Mosq) (flags reason : Except Rc UInt8)
    (l : Except Rc (List MosquittoProperty)) :
    (handleConnack m flags reason l).1.ledger = m.ledger := by
  unfold handleConnack
  repeat' split
  all_goals rfl

/-- A CONNECT is complete when it is written, and nobody is told. -/
theorem ledger_sendConnect (alloc : Alloc) (m : Mosq) (l : List MosquittoProperty) :
    ∃ q, (sendConnect alloc m l).1.ledger = { m.ledger with queue := unwritten m ++ q } ∧
      ∀ p ∈ q, p.completes = none := by
  have ha : (adoptReceiveMaximum m l).ledger = m.ledger := by
    obtain ⟨maximum, quota, e⟩ := adoptReceiveMaximum_eq m l
    rw [e]
    rfl
  have hnone (m' : Mosq) (h : m'.ledger = m.ledger) :
      ∃ q, m'.ledger = { m.ledger with queue := unwritten m ++ q } ∧ ∀ p ∈ q, p.completes = none :=
    ⟨[], by rw [h, List.append_nil]; rfl, by simp⟩
  rcases sendConnect_cases alloc m l with ⟨-, h⟩ | ⟨rc, -, h | h⟩
  · rw [h]
    refine ⟨[.connect (connectDataOf m l)], ?_, by simp [Packet.completes]⟩
    have hq : unwritten (packetQueue (adoptReceiveMaximum m l) (.connect (connectDataOf m l))) =
        unwritten (adoptReceiveMaximum m l) ++ [.connect (connectDataOf m l)] := unwritten_append rfl rfl
    rw [← ha, ← show unwritten (adoptReceiveMaximum m l) = unwritten m from congrArg Ledger.queue ha, ← hq]
    rfl
  · rw [h]
    exact hnone m rfl
  · rw [h]
    exact hnone _ ha

/-- What a piece of `mosquitto__reconnect` does to the packets: it drops them all, or sends a CONNECT, or
    nothing. -/
theorem ledger_recMoves {env : RecEnv} {l : List MosquittoProperty} {m m' : Mosq} {pc : RecPc} {next : RecPc ⊕ Rc}
    (h : RecMoves env l m pc m' next) : m'.ledger = { m.ledger with queue := [] } ∨
      ∃ q, m'.ledger = { m.ledger with queue := unwritten m ++ q } ∧ ∀ p ∈ q, p.completes = none := by
  cases h with
  | start => exact .inl rfl
  | failed rc => exact .inl rfl
  | sent hs => exact .inr (ledger_sendConnect env.alloc m l)
  | unsent rc hs => exact .inr (ledger_sendConnect env.alloc m l)
  | _ => exact .inr ⟨[], by rw [List.append_nil]; rfl, by simp⟩

theorem lastMid_recMoves {env : RecEnv} {l : List MosquittoProperty} {m m' : Mosq} {pc : RecPc}
    {next : RecPc ⊕ Rc}
    (h : RecMoves env l m pc m' next) : m'.lastMid = m.lastMid := by
  rcases ledger_recMoves h with h | ⟨q, h, -⟩
  · exact congrArg Ledger.lastMid h
  · exact congrArg Ledger.lastMid h

theorem lastMid_sendPublish (alloc : Alloc) (m : Mosq) (msg : Message) :
    (sendPublish alloc m msg).1.lastMid = m.lastMid := by
  cases hc : canPublish alloc m msg with
  | true =>
    rw [sendPublish_ok hc]
    rfl
  | false =>
    obtain ⟨rc, -, e⟩ := sendPublish_fail hc
    rw [e]

/-- A step draws one packet id or none, and a message that is stored has the one drawn. -/
theorem changes_drawn (h : Changes s c m) :
    (m.lastMid = s.m.lastMid ∧ storedNow s c = []) ∨ m.lastMid = (midGenerate s.m).2 := by
  cases h with
  | sends _ _ hs h => exact .inl ⟨congrArg Settings.lastMid h.settings, hs⟩
  | connect c => exact .inl ⟨congrArg Ledger.lastMid (ledger_setupMosquitto s.m _), rfl⟩
  | publish alloc a ha =>
    rcases publish_cases alloc s.m a ha with ⟨hc, h⟩ | ⟨hc, h0, h⟩ | ⟨hc, h0, h⟩
    · exact .inl ⟨by rw [h], by simp [storedNow, stored, hc]⟩
    · rw [h]
      exact .inr (lastMid_sendPublish ..)
    · exact .inr (congrArg Settings.lastMid h.settings)
  | asks c p hne hp => exact .inr rfl
  | bind env c hq => exact .inl ⟨congrArg Ledger.lastMid (ledger_connectBind env s.m c), rfl⟩
  | reconnect a env pc l m next ha h => exact .inl ⟨lastMid_recMoves h, (recAt_quiet ha).2⟩
  | connack flags reason l again alloc =>
    exact .inl ⟨congrArg Ledger.lastMid (ledger_handleConnack s.m flags reason l), rfl⟩
  | disconnected reason tail again alloc => exact .inl ⟨rfl, rfl⟩
  | written taken e again =>
    obtain ⟨k, h⟩ := takes_packetWrite s.m e.rc taken
    exact .inl ⟨congrArg Settings.lastMid h.settings, rfl⟩

/-- What a step makes of the packets to be written: some leave from the front, or some come to the end. Of
    those only a PUBLISH of the call itself is complete when it is written. -/
inductive QueueMoves (s : Sys) (c : Call) (m : Mosq) : Prop where
  | taken (k : Nat) (f : List UInt16) : ackedNow s c = none → unwritten m = (unwritten s.m).drop k →
      m.fired = f ++ s.m.fired → (∀ mid ∈ f, ∃ p ∈ unwritten s.m, p.completes = some mid) → QueueMoves s c m
  | queued (l : List Packet) : unwritten m = unwritten s.m ++ l → m.fired = (ackedNow s c).toList ++ s.m.fired →
      (∀ p ∈ l, ∀ mid, p.completes = some mid → mid = (midGenerate s.m).2 ∧ m.lastMid = mid ∧
        storedNow s c = []) →
      QueueMoves s c m

theorem queueMoves_same (ha : ackedNow s c = none) (h : m.ledger = s.m.ledger) : QueueMoves s c m :=
  .taken 0 [] ha (congrArg Ledger.queue h) (congrArg Ledger.fired h) (by simp)

theorem queueMoves_ordinary {l : List Packet} (hq : unwritten m = unwritten s.m ++ l)
    (hf : m.fired = (ackedNow s c).toList ++ s.m.fired) (hp : ∀ p ∈ l, p.completes = none) :
    QueueMoves s c m := by
  refine .queued l hq hf (fun p hmem mid hmid => ?_)
  rw [hp p hmem] at hmid
  cases hmid

theorem queueMoves_sends {m' : Mosq} (h : Sends (ackedNow s c) m' m) (hm : unwritten m' = unwritten s.m)
    (hf : m'.fired = s.m.fired) : QueueMoves s c m := by
  obtain ⟨l, hl, hp⟩ := h.unwritten
  exact queueMoves_ordinary (hm ▸ hl) (hf ▸ h.fired) (fun p hmem => completes_ordinary (hp p hmem))

theorem changes_queue (h : Changes s c m) : QueueMoves s c m := by
  cases h with
  | sends _ _ hs h => exact queueMoves_sends h rfl rfl
  | connect c => exact queueMoves_same rfl (ledger_setupMosquitto s.m _)
  | publish alloc a ha =>
    rcases publish_cases alloc s.m a ha with ⟨hc, h⟩ | ⟨hc, h0, h⟩ | ⟨hc, h0, h⟩
    · exact queueMoves_same rfl (by rw [h])
    · rw [h]
      cases hcan : canPublish alloc (drawn s.m) (messageOf s.m a (midGenerate s.m).2) with
      | true =>
        rw [sendPublish_ok hcan]
        refine .queued _ (unwritten_append rfl rfl) rfl (fun p hp mid hmid => ?_)
        have hzero : (messageOf s.m a (midGenerate s.m).2).qos = 0 := by simp [messageOf, h0]
        rw [List.mem_singleton.mp hp] at hmid
        simp only [publishPacket, hzero, Packet.completes, Option.some.injEq] at hmid
        exact ⟨hmid.symm, hmid, by simp [storedNow, stored, h0]⟩
      | false =>
        obtain ⟨rc, -, e⟩ := sendPublish_fail hcan
        rw [e]
        exact .queued [] (List.append_nil _).symm rfl (by simp)
    · exact queueMoves_sends h rfl rfl
  | asks c p hne hp =>
    cases c with
    | act a => exact absurd rfl (hne a)
    | _ => exact queueMoves_ordinary (unwritten_append rfl rfl) rfl (by simpa using completes_ordinary hp)
  | bind env c hq => exact queueMoves_same rfl (ledger_connectBind env s.m c)
  | reconnect a env pc l m next ha h =>
    obtain ⟨hack, -⟩ := recAt_quiet ha
    rcases ledger_recMoves h with hl | ⟨q, hl, hp⟩
    · refine .taken (unwritten s.m).length [] hack ?_ (congrArg Ledger.fired hl) (by simp)
      rw [List.drop_length]
      exact congrArg Ledger.queue hl
    · refine queueMoves_ordinary (congrArg Ledger.queue hl) ?_ hp
      rw [hack]
      exact congrArg Ledger.fired hl
  | connack flags reason l again alloc => exact queueMoves_same rfl (ledger_handleConnack s.m flags reason l)
  | disconnected reason tail again alloc =>
    refine .taken s.m.currentOutPacket.toList.length [] rfl ?_ rfl (by simp)
    show unwritten (nextPacket s.m) = _
    rw [unwritten_nextPacket, unwritten, List.drop_left]
  | written taken e again =>
    obtain ⟨k, h⟩ := takes_packetWrite s.m e.rc taken
    refine .taken k _ rfl h.queue h.fired (fun mid hmid => ?_)
    obtain ⟨p, hp, hc⟩ := List.mem_filterMap.mp (List.mem_reverse.mp hmid)
    exact ⟨p, List.mem_of_mem_take hp, hc⟩

end Laws

end Artemisia.Threads
