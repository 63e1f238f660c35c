/-
  Artemisia.Inbound.FreshSession — what `msgs_in` carries over into a session that the server has begun
  afresh.

  `message__reconnect_reset` keeps every QoS 2 message that waits for its PUBREL, and no code looks at the
  session-present flag of a CONNACK. Messages are numbered in the order they are read, so that what is left
  from before a session is what has a smaller number than the session's first.

  Proved:
  - `step_order`:      the store keeps the order in which the messages were read, over every reconnect.
  - `delivers_fresh_iff`: over a run, every delivery is of the session it is made in exactly when no PUBREL
                       is answered under a packet id that an older message is stored under.
  - `staleRun_delivers_old`: an interrupted QoS 2 message is delivered in place of a new one that the next
                       session sends under the same packet id.
-/
import Artemisia.Lib.Machine
import Artemisia.Inbound.Receive

namespace Artemisia.Inbound.FreshSession

open Artemisia.Property Artemisia.Client Artemisia.Inbound

/-! ## The client over several sessions -/

/-- A QoS 2 message is given to on_message when a PUBREL with this packet id is read, in the session that
    began with message `sessionStart`. -/
structure Delivery where
  message : Message
  mid : UInt16
  sessionStart : Nat

structure Client where
  m : Mosq
  /-- How many PUBLISH packets were read. -/
  arrivals : Nat
  /-- How many when the CONNACK of the current session was read. -/
  sessionStart : Nat
  log : List Delivery

/-- A client made with `cleanSession = true`. -/
def Client.init (id : Option Bytes) : Client := ⟨Mosq.new id true, 0, 0, []⟩

inductive Act where
  | read (alloc : Alloc) (p : InPacket)
  | write
  | cut
  | reconnect (env : RecEnv)
  | connect (env : RecEnv) (c : ConnectConfig)
  | publish (alloc : Alloc) (a : PublishArgs)

def stamp (n : Nat) : InPacket → InPacket
  | .publish p => .publish { p with uid := n }
  | p => p

/-- A CONNACK that accepts, with session-present 0. -/
def beginsSession (alloc : Alloc) (m : Mosq) (p : InPacket) : Bool :=
  match p, (handlePacket alloc m p).2 with
  | .connack (.ok flags) _ _, .connack reason _ => reason = 0 ∧ flags &&& 1 = 0
  | _, _ => false

def pubrelMid : InPacket → UInt16
  | .pubrel _ (.ok mid) _ => mid
  | _ => 0

def isPublish : InPacket → Bool
  | .publish _ => true
  | _ => false

def read (s : Client) (alloc : Alloc) (p : InPacket) : Client :=
  let m := receive alloc s.m (stamp s.arrivals p)
  { m := m
    arrivals := if isPublish p then s.arrivals + 1 else s.arrivals
    sessionStart := if beginsSession alloc s.m p then s.arrivals else s.sessionStart
    log := (newDeliveries m s.m).map (fun msg => ⟨msg, pubrelMid p, s.sessionStart⟩) ++ s.log }

/-- One step; there is none in which the process ends. -/
def step (s : Client) : Act → Option Client
  | .read alloc p =>
    if s.m.sock = none ∨ s.m.state = .connectPending ∨ survives alloc s.m (stamp s.arrivals p) = false then none
    else some (read s alloc p)
  | .write => some { s with m := writeOne s.m }
  | .cut => some { s with m := endConnection s.m }
  | .reconnect env => some { s with m := mosquittoReconnect env [] s.m }
  | .connect env c => some { s with m := connectAgain env c s.m }
  | .publish alloc a =>
    if (mosquittoPublishV5 alloc s.m a).2 = .aborted then none
    else some { s with m := (mosquittoPublishV5 alloc s.m a).1 }

/-! ## The property -/

/-- Each message was delivered for a PUBREL with its packet id, and was read in the session of that PUBREL. -/
def DeliversFresh (s : Client) : Prop := ∀ d ∈ s.log, d.message.mid = d.mid ∧ d.sessionStart ≤ d.message.uid

/-- A PUBREL that can be read and answered finds no message older than the session under its packet id. -/
def NoneLeft (s : Client) : Act → Prop
  | .read alloc (.pubrel flags mid tail) => ∀ i, readPubrel s.m flags mid tail = .ok i →
      alloc (.pubcomp i) = true →
      ∀ e ∈ s.m.msgsIn.inflight, e.mid = i → s.sessionStart ≤ e.uid
  | _ => True

/-- The store is in the order of reading. -/
structure InOrder (s : Client) : Prop where
  sorted : s.m.msgsIn.inflight.Pairwise (fun e e' => e.uid ≤ e'.uid)
  bound : ∀ e ∈ s.m.msgsIn.inflight, e.uid < s.arrivals
  start : s.sessionStart ≤ s.arrivals
  qos : ∀ e ∈ s.m.msgsIn.inflight, e.qos = 2
  store : StoreOk s.m.msgsOut.inflight

theorem InOrder.init (id : Option Bytes) : InOrder (Client.init id) := by
  refine ⟨?_, ?_, ?_, ?_, ?_⟩ <;> simp [Client.init, Mosq.new, StoreOk]

theorem InOrder.loses {s s' : Client} (hi : InOrder s) (hl : Loses s'.m s.m) (ha : s.arrivals ≤ s'.arrivals)
    (hb : s'.sessionStart ≤ s'.arrivals) (hs : StoreOk s'.m.msgsOut.inflight) : InOrder s' where
  sorted := hi.sorted.sublist hl.stored
  bound e he := Nat.lt_of_lt_of_le (hi.bound e (hl.stored.subset he)) ha
  start := hb
  qos e he := hi.qos e (hl.stored.subset he)
  store := hs

/-! ## One packet -/

theorem read_loses {s : Client} {alloc : Alloc} {p : InPacket} (hi : InOrder s)
    (hl : Loses (receive alloc s.m (stamp s.arrivals p)) s.m) :
    InOrder (read s alloc p) ∧ (read s alloc p).log = s.log := by
  have hst := hi.start
  refine ⟨hi.loses hl ?_ ?_ (storeOk_receive hi.store), ?_⟩
  · simp only [read]
    split <;> omega
  · simp only [read]
    split <;> split <;> omega
  · simp [read, newDeliveries_append (d := []) hl.delivered]

/-- A PUBLISH goes to the end of the store, with the highest number yet. -/
theorem read_publish {s : Client} {alloc : Alloc} {p : PublishIn} (hi : InOrder s) :
    InOrder (read s alloc (.publish p)) ∧ (read s alloc (.publish p)).log = s.log := by
  by_cases hq : p.qos = 2
  swap
  · exact read_loses hi (.of_eq (inb_receive_refused hi.store (.inl hq)))
  cases hr : readPublish s.m { p with uid := s.arrivals } with
  | error rc => exact read_loses hi (.of_eq (inb_receive_refused hi.store (.inr ⟨rc, hr⟩)))
  | ok msg =>
    obtain ⟨hqos, huid, -⟩ := readPublish_ok hr
    have hinb := inb_receive_publish alloc hi.store hr hq
    have hstored : (receive alloc s.m (.publish { p with uid := s.arrivals })).msgsIn.inflight =
        s.m.msgsIn.inflight ++ [{ msg with state := .waitForPubrel }] := congrArg Inb.stored hinb
    have hnew : newDeliveries (receive alloc s.m (.publish { p with uid := s.arrivals })) s.m = [] :=
      newDeliveries_append (by rw [hinb]; rfl)
    have hst := hi.start
    refine ⟨⟨?_, ?_, ?_, ?_, storeOk_receive hi.store⟩, by simp [read, stamp, hnew]⟩
    · simp only [read, stamp, hstored]
      refine List.pairwise_append.mpr ⟨hi.sorted, List.pairwise_singleton _ _, ?_⟩
      intro e he e' he'
      simp only [List.mem_singleton] at he'
      have := hi.bound e he
      simp only [he', huid]
      omega
    · simp only [read, stamp, hstored, isPublish, if_true]
      intro e he
      rcases List.mem_append.mp he with he | he
      · have := hi.bound e he
        omega
      · simp only [List.mem_singleton] at he
        simp [he, huid]
    · simp only [read, isPublish, if_true]
      split <;> omega
    · simp only [read, stamp, hstored]
      intro e he
      rcases List.mem_append.mp he with he | he
      · exact hi.qos e he
      · simp only [List.mem_singleton] at he
        simp [he, hqos, hq]

/-- A PUBREL takes out the oldest message under its packet id, and delivers it if it can be answered. -/
theorem read_pubrel {s : Client} (hi : InOrder s) (alloc : Alloc) (flags : UInt8) (mid : Except Rc UInt16)
    (tail : Except Rc UInt8) :
    InOrder (read s alloc (.pubrel flags mid tail)) ∧
      (read s alloc (.pubrel flags mid tail)).log =
        (match readPubrel s.m flags mid tail with
          | .ok i => if alloc (.pubcomp i) then
              (s.m.msgsIn.inflight.find? (·.mid = i)).toList.map (⟨·, i, s.sessionStart⟩) else []
          | .error _ => []) ++ s.log := by
  cases hr : readPubrel s.m flags mid tail with
  | error rc => exact read_loses hi (.of_eq (inb_receive_unread hi.store hr))
  | ok i =>
    have hinb := inb_receive_pubrel alloc hi.store hi.qos hr
    have hnew := newDeliveries_append (congrArg Inb.delivered hinb)
    cases readPubrel_ok hr
    have hstored : (receive alloc s.m (.pubrel flags (.ok i) tail)).msgsIn.inflight =
        s.m.msgsIn.inflight.eraseP (·.mid = i) := congrArg Inb.stored hinb
    refine ⟨⟨?_, ?_, ?_, ?_, storeOk_receive hi.store⟩, ?_⟩
    · simp only [read, stamp, hstored]
      exact hi.sorted.sublist List.eraseP_sublist
    · simp only [read, stamp, hstored]
      exact fun e he => hi.bound e (List.mem_of_mem_eraseP he)
    · simp [read, isPublish, beginsSession, hi.start]
    · simp only [read, stamp, hstored]
      exact fun e he => hi.qos e (List.mem_of_mem_eraseP he)
    · simp only [read, stamp, hnew, pubrelMid]
      cases alloc (.pubcomp i) <;> rfl

/-- Any other packet loses at most something. -/
theorem read_other {s : Client} {alloc : Alloc} {p : InPacket} (hi : InOrder s) (hp : ofQos2 p = false) :
    InOrder (read s alloc p) ∧ (read s alloc p).log = s.log := by
  cases p with
  | publish p => exact read_publish hi
  | pubrel flags mid tail => simp [ofQos2] at hp
  | _ => exact read_loses hi (loses_receive hi.store hp)

/-! ## Runs -/

theorem step_loses {s s' : Client} {a : Act} (hi : InOrder s) (h : step s a = some s') :
    (∃ alloc p, a = .read alloc p ∧ s' = read s alloc p) ∨ (InOrder s' ∧ s'.log = s.log ∧ NoneLeft s a) := by
  have keep : ∀ m, Loses m s.m → StoreOk m.msgsOut.inflight → InOrder { s with m := m } :=
    fun m hl hs => hi.loses hl (Nat.le_refl _) hi.start hs
  cases a with
  | read alloc p =>
    simp only [step] at h
    split at h
    · cases h
    · cases h
      exact .inl ⟨alloc, p, rfl, rfl⟩
  | write =>
    cases h
    obtain ⟨hst, hdel, hacks⟩ := inb_writeOne s.m
    refine .inr ⟨keep _ ⟨by rw [hst], hdel, ?_⟩ ?_, rfl, trivial⟩
    · rw [hacks]
      exact List.sublist_append_right _ _
    · rw [msgsOut_writeOne]
      exact hi.store
  | cut =>
    cases h
    exact .inr ⟨keep _ (.of_eq rfl) hi.store, rfl, trivial⟩
  | reconnect env =>
    cases h
    exact .inr ⟨keep _ (loses_mosquittoReconnect env [] hi.qos) (storeOk_mosquittoReconnect env [] hi.store),
      rfl, trivial⟩
  | connect env c =>
    cases h
    exact .inr ⟨keep _ (loses_connectAgain env c hi.qos) (storeOk_connectAgain env c hi.store), rfl, trivial⟩
  | publish alloc a =>
    simp only [step] at h
    split at h
    · cases h
    · cases h
      have hinb := inb_mosquittoPublishV5 alloc s.m a
      exact .inr ⟨keep _ (.of_eq hinb) (storeOk_publish alloc s.m a hi.store), rfl, trivial⟩

/-- The store keeps the order of reading, over every reconnect. -/
theorem step_order {s s' : Client} {a : Act} (hi : InOrder s) (h : step s a = some s') : InOrder s' := by
  rcases step_loses hi h with ⟨alloc, p, -, rfl⟩ | ⟨h, -⟩
  · by_cases hp : ofQos2 p = false
    · exact (read_other hi hp).1
    · cases p with
      | publish p => exact (read_publish hi).1
      | pubrel flags mid tail => exact (read_pubrel hi ..).1
      | _ => exact absurd rfl hp
  · exact h

/-- The oldest message under a packet id is of the session exactly when all are. -/
theorem find_fresh {l : List Message} (hs : l.Pairwise (fun e e' => e.uid ≤ e'.uid)) (i : UInt16) (n : Nat) :
    (∀ e ∈ (l.find? (·.mid = i)).toList, n ≤ e.uid) ↔ ∀ e ∈ l, e.mid = i → n ≤ e.uid := by
  constructor
  · intro h e he hm
    cases hf : l.find? (·.mid = i) with
    | none =>
      have := List.find?_eq_none.mp hf e he
      simp [hm] at this
    | some e0 =>
      have h0 := h e0 (by simp [hf])
      obtain ⟨-, as, bs, rfl, hno⟩ := List.find?_eq_some_iff_append.mp hf
      rcases List.mem_append.mp he with he | he
      · have := hno e he
        simp [hm] at this
      · rcases List.mem_cons.mp he with rfl | he
        · exact h0
        · have := List.rel_of_pairwise_cons (List.pairwise_append.mp hs).2.1 he
          omega
  · intro h e he
    have he := Option.mem_toList.mp he
    exact h e (List.mem_of_find?_eq_some he) (by simpa using List.find?_some he)

/-- A step keeps the property exactly when it meets the guard. -/
theorem step_fresh_iff {s s' : Client} {a : Act} (hi : InOrder s) (hp : DeliversFresh s)
    (h : step s a = some s') :
    DeliversFresh s' ↔ NoneLeft s a := by
  rcases step_loses hi h with ⟨alloc, p, rfl, rfl⟩ | ⟨-, hlog, hg⟩
  swap
  · exact ⟨fun _ => hg, fun _ => by rw [DeliversFresh, hlog]; exact hp⟩
  cases p with
  | pubrel flags mid tail =>
    have hlog := (read_pubrel hi alloc flags mid tail).2
    cases hr : readPubrel s.m flags mid tail with
    | error rc =>
      simp only [hr, List.nil_append] at hlog
      simpa [NoneLeft, DeliversFresh, hlog, hr] using hp
    | ok i =>
      cases ha : alloc (.pubcomp i) with
      | false =>
        simp only [hr, ha, Bool.false_eq_true, if_false, List.nil_append] at hlog
        simpa [NoneLeft, DeliversFresh, hlog, hr, ha] using hp
      | true =>
        simp only [hr, ha, if_true] at hlog
        have hf := find_fresh hi.sorted i s.sessionStart
        rw [DeliversFresh, hlog]
        constructor
        · intro h j hj _
          cases hr.symm.trans hj
          refine hf.mp (fun e he => ?_)
          exact (h ⟨e, i, s.sessionStart⟩ (List.mem_append_left _ (List.mem_map_of_mem he))).2
        · intro h d hd
          rcases List.mem_append.mp hd with hd | hd
          · obtain ⟨e, he, rfl⟩ := List.mem_map.mp hd
            have hm := List.find?_some (Option.mem_toList.mp he)
            exact ⟨by simpa using hm, hf.mpr (h i hr ha) e he⟩
          · exact hp d hd
  | publish p => exact ⟨fun _ => trivial, fun _ => by rw [DeliversFresh, (read_publish hi).2]; exact hp⟩
  | _ => exact ⟨fun _ => trivial, fun _ => by rw [DeliversFresh, (read_other hi rfl).2]; exact hp⟩

/-- Over a run every delivery is of its own session exactly when no PUBREL is answered under a packet id that a
    message from before the session is stored under. -/
theorem delivers_fresh_iff (id : Option Bytes) (as : List Act) :
    Machine.Along step DeliversFresh (Client.init id) as ↔ Machine.Meets step NoneLeft (Client.init id) as :=
  Machine.along_iff_meets (J := InOrder) (fun _ _ _ => step_order) (fun _ _ _ => step_fresh_iff) as (.init id)
    (fun _ hd => by cases hd)

/-! ## A stale delivery -/

def accepted : Act := .read RecEnv.good.alloc (.connack (.ok 0) (.ok 0) (.ok []))

def arrives (payload : Bytes) : Act :=
  .read RecEnv.good.alloc (.publish
    { dup := false, qos := 2, retain := false, topic := .ok (.of [116]), mid := .ok 1, properties := .ok [],
      payload := payload, uid := 0 })

def released : Act := .read RecEnv.good.alloc (.pubrel 0x62 (.ok 1) (.ok 0))

/-- The connection is lost between PUBLISH and PUBREL; the next session uses the packet id again. -/
def staleRun : List Act :=
  [.connect .good .plain, accepted, arrives [111, 108, 100], .cut, .reconnect .good, accepted,
   arrives [110, 101, 119], released]

theorem staleRun_delivers_old :
    ¬ ∀ s, Machine.Reach step (· = Client.init none) Machine.anyAct s → DeliversFresh s := by
  intro h
  have hr : (Machine.run step (Client.init none) staleRun).map
      (fun s => s.log.map (fun d => (d.message.payload, d.message.uid, d.sessionStart))) =
      some [([111, 108, 100], 0, 1)] := by decide
  obtain ⟨s, hs, hd⟩ := Machine.reach_of_map_any (· = Client.init none) rfl hr
  obtain ⟨d, hl, hd⟩ := List.map_eq_singleton_iff.mp hd
  have := (h s hs d (by simp [hl])).2
  simp only [Prod.mk.injEq] at hd
  omega

end Artemisia.Inbound.FreshSession
