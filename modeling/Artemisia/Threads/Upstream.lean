/-
  Artemisia.Threads.Upstream — the messages of QoS 2 on their way to the server: how far the client is with
  each packet id, and which PUBLISHes and PUBRELs a step hands to `packet__queue`.

  Proved:
  - `phase_after`:      a step that handles no PUBREC and no PUBCOMP leaves each packet id in its phase, but for
                        that of a message that is stored.
  - `phase_pubrec`, `phase_pubcomp`: what the handlers of those two make of it.
  - `speaks_handed`:    what is handed over for a packet id is what its phase says.
  - `step_pubrels`:     the PUBRELs that a step queues are those that are listed; for the PUBLISHes that is
                        `step_outflow`.
-/
import Artemisia.Lib.Receipt
import Artemisia.Threads.Calls
import Artemisia.Threads.Sendings
import Mathlib.Data.List.Nodup

namespace Artemisia.Threads

open Artemisia.Property Artemisia.Client Handshake

/-! ## Slots -/

/-- What the PUBLISH of a message of QoS 2 tells the server, and which message it is. -/
structure Told where
  uid : Nat
  topic : Option Bytes
  payload : Bytes
  retain : Bool
  deriving DecidableEq

/-- A message out, as far as its handshake goes. -/
structure Slot where
  mid : UInt16
  qos : Nat
  received : Bool
  told : Told

def toldOf (e : Message) : Told := ⟨e.uid, e.topic, e.payload, e.retain⟩

def slotOf (e : Message) : Slot := ⟨e.mid, e.qos, received e, toldOf e⟩

def slots (m : Mosq) : List Slot := m.msgsOut.inflight.map slotOf

def Slot.phase (y : Slot) : Phase Told := if y.received then .released y.told else .offered y.told

/-- How far the client is with a packet id, as the sender of a message of QoS 2. -/
def phaseAt (l : List Slot) (mid : UInt16) : Phase Told :=
  match l.find? (fun y => y.mid = mid ∧ y.qos = 2) with
  | none => .idle
  | some y => y.phase

/-- The first message with the packet id has been received. -/
def receiveFirst (mid : UInt16) : List Slot → List Slot
  | [] => []
  | y :: rest => if y.mid = mid then { y with received := true } :: rest else y :: receiveFirst mid rest

section Phases

variable {l : List Slot} {mid : UInt16}

theorem phaseAt_idle (h : ∀ y ∈ l, y.mid = mid → y.qos ≠ 2) : phaseAt l mid = .idle := by
  have hnone : l.find? (fun y => y.mid = mid ∧ y.qos = 2) = none := by
    refine List.find?_eq_none.mpr fun y hy => ?_
    simpa using h y hy
  simp only [phaseAt, hnone]

theorem phaseAt_cons (y : Slot) (l : List Slot) (mid : UInt16) :
    phaseAt (y :: l) mid = if y.mid = mid ∧ y.qos = 2 then y.phase else phaseAt l mid := by
  unfold phaseAt
  by_cases h : y.mid = mid ∧ y.qos = 2
  · rw [List.find?_cons_of_pos (by simpa using h), if_pos h]
  · rw [List.find?_cons_of_neg (by simpa using h), if_neg h]

theorem phaseAt_mem (hn : (l.map Slot.mid).Nodup) {y : Slot} (hy : y ∈ l) (hq : y.qos = 2) :
    phaseAt l y.mid = y.phase := by
  induction l with
  | nil => cases hy
  | cons z l ih =>
    rw [List.map_cons, List.nodup_cons] at hn
    rw [phaseAt_cons]
    rcases List.mem_cons.mp hy with rfl | hy
    · rw [if_pos ⟨rfl, hq⟩]
    · have hne : z.mid ≠ y.mid := fun e => hn.1 (e ▸ List.mem_map_of_mem hy)
      rw [if_neg (fun h => hne h.1)]
      exact ih hn.2 hy

/-- A packet id that is in use is that of a message out. -/
theorem phaseAt_current {t : Told} (h : (phaseAt l mid).current = some t) :
    ∃ y ∈ l, y.mid = mid ∧ y.qos = 2 ∧ y.told = t ∧ phaseAt l mid = y.phase := by
  unfold phaseAt at h ⊢
  cases hf : l.find? (fun y => y.mid = mid ∧ y.qos = 2) with
  | none =>
    rw [hf] at h
    cases h
  | some y =>
    rw [hf] at h
    have hy := List.find?_some hf
    simp only [decide_eq_true_eq] at hy
    refine ⟨y, List.mem_of_find?_eq_some hf, hy.1, hy.2, ?_, rfl⟩
    dsimp only [Slot.phase] at h
    split at h
    · exact Option.some.inj h
    · exact Option.some.inj h

theorem phaseAt_snoc (y : Slot) (hfree : ∀ z ∈ l, z.mid ≠ y.mid) :
    phaseAt (l ++ [y]) mid = if y.mid = mid ∧ y.qos = 2 then y.phase else phaseAt l mid := by
  induction l with
  | nil => rw [List.nil_append, phaseAt_cons]
  | cons z l ih =>
    obtain ⟨hz, hl⟩ := List.forall_mem_cons.mp hfree
    rw [List.cons_append, phaseAt_cons, ih hl, phaseAt_cons]
    by_cases hy : y.mid = mid ∧ y.qos = 2
    · have : ¬ (z.mid = mid ∧ z.qos = 2) := fun h => hz (h.1.trans hy.1.symm)
      simp [hy, this]
    · simp [hy]

theorem phaseAt_erase (hn : (l.map Slot.mid).Nodup) (gone : UInt16) :
    phaseAt (l.eraseP (·.mid = gone)) mid = if mid = gone then .idle else phaseAt l mid := by
  induction l with
  | nil => simp [phaseAt]
  | cons z l ih =>
    rw [List.map_cons, List.nodup_cons] at hn
    by_cases hz : z.mid = gone
    · rw [List.eraseP_cons_of_pos (by simpa using hz), phaseAt_cons]
      by_cases hm : mid = gone
      · rw [if_pos hm]
        refine phaseAt_idle fun y hy hym => ?_
        have hmem := List.mem_map_of_mem (f := Slot.mid) hy
        rw [hym, hm, ← hz] at hmem
        exact absurd hmem hn.1
      · rw [if_neg hm, if_neg (fun h => hm (h.1.symm.trans hz))]
    · rw [List.eraseP_cons_of_neg (by simpa using hz), phaseAt_cons, phaseAt_cons, ih hn.2]
      by_cases hm : mid = gone
      · simp [hm, hz]
      · simp [hm]

theorem phaseAt_receive (hn : (l.map Slot.mid).Nodup) {y : Slot} (hy : y ∈ l) (hq : y.qos = 2) :
    phaseAt (receiveFirst y.mid l) mid = if mid = y.mid then .released y.told else phaseAt l mid := by
  induction l with
  | nil => cases hy
  | cons z l ih =>
    rw [List.map_cons, List.nodup_cons] at hn
    by_cases hz : z.mid = y.mid
    · have hyz : y = z := by
        rcases List.mem_cons.mp hy with h | h
        · exact h
        · exact absurd (List.mem_map_of_mem h) (hz ▸ hn.1)
      subst hyz
      rw [receiveFirst, if_pos rfl, phaseAt_cons, phaseAt_cons]
      by_cases hm : mid = y.mid
      · simp [hm, hq, Slot.phase]
      · have : ¬ y.mid = mid := fun h => hm h.symm
        simp [hm, this]
    · have hyl : y ∈ l := (List.mem_cons.mp hy).resolve_left fun h => hz (h ▸ rfl)
      rw [receiveFirst, if_neg hz, phaseAt_cons, phaseAt_cons, ih hn.2 hyl]
      by_cases hm : mid = y.mid
      · simp [hm, hz]
      · simp [hm]

theorem mids_receiveFirst (mid : UInt16) (l : List Slot) :
    (receiveFirst mid l).map Slot.mid = l.map Slot.mid := by
  induction l with
  | nil => rfl
  | cons z l ih =>
    rw [receiveFirst]
    split
    · rfl
    · rw [List.map_cons, List.map_cons, ih]

end Phases

/-! ## What becomes of the slots -/

section Stores

variable (alloc : Alloc) (m : Mosq)

theorem slotOf_released {e : Message} (h : e.state = .invalid) : slotOf e.released = slotOf e := by
  have hr : received e.released = received e := by
    simp only [received, Message.released, h]
    split
    · rfl
    · split <;> rfl
  rw [slotOf, hr]
  rfl

theorem slots_releaseLoop (l : List Message) : (releaseLoop alloc m l).2.1.map slotOf = l.map slotOf := by
  induction l generalizing m with
  | nil => rfl
  | cons cur rest ih =>
    rcases Nat.eq_zero_or_pos m.msgsOut.inflightQuota with hq | hq
    · rw [releaseLoop_full _ hq]
    by_cases hi : cur.qos > 0 ∧ cur.state = .invalid
    · cases hc : canPublish alloc m cur.released with
      | true =>
        rw [releaseLoop_send hq hi hc, List.map_cons, List.map_cons, ih]
        exact congrArg (· :: _) (slotOf_released hi.2)
      | false =>
        obtain ⟨rc, -, e⟩ := releaseLoop_fail rest hq hi hc
        rw [e, List.map_cons, List.map_cons, slotOf_released hi.2]
    · rw [releaseLoop_keep hq hi, List.map_cons, List.map_cons, ih]

theorem slots_release : slots (messageReleaseToInflight alloc m).1 = slots m := slots_releaseLoop alloc m _

theorem slots_retryLoop (l : List Message) : (retryLoop alloc m l).2.map slotOf = l.map slotOf := by
  induction l generalizing m with
  | nil => rfl
  | cons msg rest ih =>
    cases hd : due msg with
    | true =>
      rw [(retryLoop_due alloc m rest hd).1, List.map_cons, List.map_cons, ih]
      refine congrArg (· :: _) ?_
      split <;> rfl
    | false =>
      obtain ⟨m', msg', l, hl, -, -, -, hmsg' | ⟨hmsg', -⟩, -⟩ := retryLoop_other alloc m rest hd
      · rw [hl, List.map_cons, List.map_cons, ih, hmsg']
      · rw [hl, List.map_cons, List.map_cons, ih, hmsg']
        rfl

theorem received_resetOutState {e : Message} (h : OutOk e) :
    received { e with state := resetOutState e } = received e := by
  rcases h with ⟨hq, hs⟩ | ⟨hq, hs⟩
  · rcases hs with hs | hs | hs <;> simp [received, resetOutState, hq, hs]
  · rcases hs with hs | hs | hs | hs | hs <;> simp [received, resetOutState, hq, hs]

/-- A reset that finds nothing past the maximum that has been received leaves the slots as they are. -/
theorem slots_resetOutLoop {quota : Nat} {l : List Message} (hs : StoreOk l)
    (hk : (l.drop quota).all (fun e => !received e) = true) :
    (resetOutLoop quota l).2.map slotOf = l.map slotOf := by
  rw [resetOutLoop_eq, List.map_append, List.map_map, List.map_map]
  conv_rhs => rw [← List.take_append_drop quota l, List.map_append]
  congr 1
  · refine List.map_congr_left fun e he => ?_
    show Slot.mk .. = Slot.mk ..
    rw [received_resetOutState (hs e (List.mem_of_mem_take he))]
    rfl
  · refine List.map_congr_left fun e he => ?_
    have hne : received e = false := by simpa using List.all_eq_true.mp hk e he
    show Slot.mk .. = Slot.mk ..
    rw [hne]
    rfl

theorem slots_eraseP (mid : UInt16) (l : List Message) :
    (l.eraseP (·.mid = mid)).map slotOf = (l.map slotOf).eraseP (·.mid = mid) := by
  rw [List.eraseP_map]
  rfl

theorem slots_setFirstState (mid : UInt16) (l : List Message) :
    (setFirstState mid .waitForPubcomp l).map slotOf = receiveFirst mid (l.map slotOf) := by
  induction l with
  | nil => rfl
  | cons msg rest ih =>
    rw [setFirstState, List.map_cons, receiveFirst]
    by_cases h : msg.mid = mid
    · rw [if_pos h, if_pos (show (slotOf msg).mid = mid from h)]
      rfl
    · rw [if_neg h, if_neg (show ¬ (slotOf msg).mid = mid from h), List.map_cons, ih]

end Stores

/-! ## What is handed over -/

/-- A PUBLISH of QoS 2 or a PUBREL, as the handshake of its packet id has it. -/
def upItem : Message × Packet → Option (UInt16 × Item Told)
  | (e, .publish mid topic payload qos retain _ _) => if qos = 2 then
      some (mid, .pub ⟨e.uid, topic, payload, retain⟩) else none
  | (_, .pubrel mid) => some (mid, .rel)
  | _ => none

/-- The PUBREL that answers a PUBREC with the packet id of no message out. -/
def strayPubrel (alloc : Alloc) (m : Mosq) : InPacket → List (UInt16 × Item Told)
  | .pubrec mid tail =>
    if m.state ≠ .active then []
    else match readAck m mid tail with
    | .error _ => []
    | .ok (mid, reasonCode) =>
      if (reasonCode < 0x80 ∨ m.protocol ≠ .mqtt5) ∧ (m.msgsOut.inflight.find? (·.mid = mid)).isNone ∧
        alloc (.pubrel mid)
      then [(mid, .rel)] else []
  | _ => []

def straysNow (s : Sys) : Act → List (UInt16 × Item Told)
  | .loop (.packet p _ alloc) => strayPubrel alloc s.m p
  | _ => []

/-- The PUBLISHes of QoS 2 and the PUBRELs that a step hands to `packet__queue`. -/
def handedUp (s : Sys) : Call → List (UInt16 × Item Told)
  | .act a => (handed s a).filterMap upItem ++ straysNow s a
  | _ => []

/-- The item is what the phase of its packet id says. -/
def Covers (l : List Slot) (z : UInt16 × Item Told) : Prop := ∃ y ∈ l, y.mid = z.1 ∧ y.qos = 2 ∧
  y.phase.speaks z.2

theorem Covers.speaks {l : List Slot} {z : UInt16 × Item Told} (hn : (l.map Slot.mid).Nodup) (h : Covers l z) :
    (phaseAt l z.1).speaks z.2 := by
  obtain ⟨y, hy, hm, hq, hs⟩ := h
  rw [← hm, phaseAt_mem hn hy hq]
  exact hs

theorem upItem_publish {m : Mosq} {e e0 : Message} {z : UInt16 × Item Told} (hs : slotOf e = slotOf e0)
    (hr : received e0 = false) (h : upItem (e, publishPacket m e) = some z) :
    (slotOf e0).mid = z.1 ∧ (slotOf e0).qos = 2 ∧ (slotOf e0).phase.speaks z.2 := by
  simp only [upItem, publishPacket] at h
  split at h
  · rename_i hq
    cases h
    rw [← hs]
    have hrec : received e = false := (congrArg Slot.received hs).trans hr
    refine ⟨rfl, hq, ?_⟩
    simp only [Slot.phase, slotOf, hrec]
    rfl
  · cases h

section Hands

variable {alloc : Alloc} {m : Mosq} {l : List Message} {x : Message × Packet} {z : UInt16 × Item Told}

theorem covers_release (h : x ∈ releaseHands alloc m l) (hz : upItem x = some z) : Covers (l.map slotOf) z := by
  induction l generalizing m with
  | nil => cases h
  | cons cur rest ih =>
    have hrest {m' : Mosq} (h : x ∈ releaseHands alloc m' rest) : Covers ((cur :: rest).map slotOf) z := by
      obtain ⟨y, hy, hyz⟩ := ih h
      exact ⟨y, List.mem_cons_of_mem _ hy, hyz⟩
    unfold releaseHands at h
    split at h
    · split at h
      · rename_i hi
        split at h
        · rcases List.mem_cons.mp h with rfl | h
          · have hr : received cur = false := by simp [received, hi.2]
            exact ⟨slotOf cur, List.mem_cons_self .., upItem_publish (slotOf_released hi.2) hr hz⟩
          · exact hrest h
        · cases h
      · exact hrest h
    · cases h

theorem covers_retry (hs : StoreOk l) (h : x ∈ retryHands alloc m l) (hz : upItem x = some z) :
    Covers (l.map slotOf) z := by
  induction l generalizing m with
  | nil => cases h
  | cons msg rest ih =>
    obtain ⟨hmsg, hrest⟩ := storeOk_cons.mp hs
    have hlater {m' : Mosq} (h : x ∈ retryHands alloc m' rest) : Covers ((msg :: rest).map slotOf) z := by
      obtain ⟨y, hy, hyz⟩ := ih hrest h
      exact ⟨y, List.mem_cons_of_mem _ hy, hyz⟩
    cases hst : msg.state with
    | publishQos1 | publishQos2 =>
      simp only [retryHands, hst, List.mem_append] at h
      rcases h with h | h
      · split at h
        · obtain rfl := List.mem_singleton.mp h
          have hr : received msg = false := by simp [received, hst]
          refine ⟨slotOf msg, List.mem_cons_self .., upItem_publish ?_ hr hz⟩
          simp [slotOf, received, toldOf, hst]
        · cases h
      · exact hlater h
    | waitForPubrel =>
      simp only [retryHands, hst, List.mem_append] at h
      rcases h with h | h
      · split at h
        · obtain rfl := List.mem_singleton.mp h
          cases hz
        · cases h
      · exact hlater h
    | resendPubrel | waitForPubcomp =>
      simp only [retryHands, hst, List.mem_append] at h
      rcases h with h | h
      · split at h
        · obtain rfl := List.mem_singleton.mp h
          cases hz
          have hq : msg.qos = 2 := by
            rcases hmsg with ⟨-, hor⟩ | ⟨hq, -⟩
            · simp [hst] at hor
            · exact hq
          have hr : received msg = true := by simp [received, hst]
          refine ⟨slotOf msg, List.mem_cons_self .., rfl, hq, ?_⟩
          simp only [Slot.phase, slotOf, hr, if_true]
          rfl
        · cases h
      · exact hlater h
    | _ =>
      simp only [retryHands, hst] at h
      exact hlater h

end Hands

/-! ## What a step makes of the slots -/

/-- PUBREC and PUBCOMP: what the receiver of a message of QoS 2 answers. -/
def ofReceiver : InPacket → Bool
  | .pubrec .. | .pubackcomp .pubcomp .. => true
  | _ => false

/-- A step that handles neither. -/
def quietCall : Call → Bool
  | .act (.loop (.packet p _ _)) => !ofReceiver p
  | _ => true

/-- `Keeps`; a call that is no action resets nothing. -/
def keepsCall (s : Sys) : Call → Bool
  | .act a => Keeps s a
  | _ => true

theorem slots_of_inflight {m m' : Mosq} (h : m'.msgsOut.inflight = m.msgsOut.inflight) : slots m' = slots m := by
  rw [slots, h, slots]

theorem slots_publish {s : Sys} {alloc : Alloc} {a : PublishArgs}
    (ha : (mosquittoPublishV5 alloc s.m a).2 ≠ .aborted) :
    slots (mosquittoPublishV5 alloc s.m a).1 = slots s.m ++ (stored s (.publish alloc a)).map slotOf := by
  by_cases hc : publishChecks s.m a = .success
  · by_cases h0 : a.qos = 0
    · simp only [mosquittoPublishV5, hc, h0, if_true, stored, ne_eq, not_true_eq_false, and_false, if_false,
        List.map_nil,
        List.append_nil]
      exact slots_of_inflight (by rw [msgsOut_sendPublish]; rfl)
    · have hcopies := copies_of_published hc h0 ha
      simp only [mosquittoPublishV5, hc, h0, hcopies, if_false, stored, ne_eq, not_false_eq_true,
        and_self, if_true]
      refine (slots_release alloc _).trans ?_
      simp only [slots, MsgData.append, List.map_append]
      rfl
  · simp only [stored, hc, false_and, if_false, List.map_nil, List.append_nil]
    unfold mosquittoPublishV5
    split
    · rename_i hs
      exact absurd hs hc
    · rfl

/-- An acknowledgement takes the message with its packet id out, if it has the QoS. -/
theorem slots_pubackcomp (alloc : Alloc) (m : Mosq) (type : Ack) (mid : Except Rc UInt16)
    (tail : Except Rc UInt8) :
    slots (handlePacket alloc m (.pubackcomp type mid tail)).1 = slots m ∨
      ∃ e i r, readAck m mid tail = .ok (i, r) ∧ e ∈ m.msgsOut.inflight ∧ e.mid = i ∧ e.qos = type.qos ∧
        slots (handlePacket alloc m (.pubackcomp type mid tail)).1 = (slots m).eraseP (·.mid = i) := by
  have hq := inflight_incrementSendQuota m
  simp only [handlePacket, handlePubackcomp]
  by_cases hs : m.state ≠ .active
  · exact .inl (by rw [if_pos hs])
  rw [if_neg hs]
  cases hr : readAck m mid tail with
  | error rc => exact .inl (slots_of_inflight hq)
  | ok r =>
    dsimp only [acknowledge]
    cases he : messageRemove (incrementSendQuota m).msgsOut r.1 type.qos with
    | ok x =>
      obtain ⟨hf, hqos, hl, -, -⟩ := messageRemove_ok he
      rw [hq] at hf hl
      refine .inr ⟨x.1, r.1, r.2, rfl, List.mem_of_find?_eq_some hf, by simpa using List.find?_some hf, hqos, ?_⟩
      refine (slots_release alloc _).trans ?_
      show x.2.inflight.map slotOf = _
      rw [hl]
      exact slots_eraseP r.1 _
    | error rc =>
      refine .inl ?_
      cases rc with
      | notFound => exact (slots_release alloc _).trans (slots_of_inflight hq)
      | _ => exact slots_of_inflight hq

theorem slots_recMoves {s : Sys} {a : Act} {env : RecEnv} {p : List MosquittoProperty} {m : Mosq} {pc : RecPc}
    {next : RecPc ⊕ Rc} (h : RecMoves env p s.m pc m next) (hs : StoreOk s.m.msgsOut.inflight)
    (hk : Keeps s a = true)
    (hr : pc = .reset → resets s a = true) : slots m = slots s.m := by
  cases h with
  | reset =>
    simp only [Keeps, hr rfl, Bool.not_true, Bool.false_or] at hk
    exact slots_resetOutLoop hs hk
  | sent => exact slots_of_inflight (by rw [msgsOut_sendConnect])
  | unsent => exact slots_of_inflight (by rw [msgsOut_sendConnect])
  | _ => rfl

/-- A step that handles neither a PUBREC nor a PUBCOMP puts a message at the end, or a PUBACK takes one of QoS
    1 out. -/
def SlotMoves (s : Sys) (c : Call) (l : List Slot) : Prop :=
  l = slots s.m ++ (storedNow s c).map slotOf ∨
    (storedNow s c = [] ∧ ∃ y ∈ slots s.m, y.qos = 1 ∧ l = (slots s.m).eraseP (·.mid = y.mid))

theorem SlotMoves.same {s : Sys} {c : Call} {l : List Slot} (hs : storedNow s c = []) (h : l = slots s.m) :
    SlotMoves s c l := by
  refine .inl ?_
  rw [hs, h]
  exact (List.append_nil _).symm

theorem slots_packet (s : Sys) {p : InPacket} (again : Bool) (alloc : Alloc) (hp : ofReceiver p = false) :
    SlotMoves s (.act (.loop (.packet p again alloc))) (slots (handlePacket alloc s.m p).1) := by
  cases p with
  | pubackcomp type mid tail =>
    cases type with
    | puback =>
      rcases slots_pubackcomp alloc s.m .puback mid tail with h | ⟨e, i, r, -, he, hm, hq, h⟩
      · exact .same rfl h
      · exact .inr ⟨rfl, slotOf e, List.mem_map_of_mem he, hq, by rw [h, ← hm]; rfl⟩
    | pubcomp => cases hp
  | pubrec mid tail => cases hp
  | connack flags reason l => exact .same rfl (slots_of_inflight (msgsOut_handleConnack s.m flags reason l))
  | disconnect reason tail =>
    refine .same rfl (slots_of_inflight ?_)
    simp only [handlePacket, handleDisconnect]
    repeat' split
    all_goals simp
  | _ =>
    refine .same rfl (slots_of_inflight ?_)
    simp only [handlePacket]
    repeat' split
    all_goals simp

theorem slots_connack (alloc : Alloc) (m : Mosq) (reason : UInt8) :
    slots (connackSwitch alloc m reason).1 = slots m := by
  unfold connackSwitch
  split
  · dsimp only
    split
    · exact slots_retryLoop alloc _ _
    · exact slots_retryLoop alloc _ _
  · split
    · rfl
    · rfl

theorem slots_act {s s' : Sys} {a : Act} (h : Moves s a s') (hs : StoreOk s.m.msgsOut.inflight)
    (hk : Keeps s a = true)
    (hq : quietCall (.act a) = true) : SlotMoves s (.act a) (slots s'.m) := by
  cases h with
  | connect c hq => exact .same rfl (slots_of_inflight (inflight_setupMosquitto s.m _))
  | publish alloc a hq ha => exact .inl (slots_publish ha)
  | bind env c hq => exact .same rfl (slots_of_inflight (inflight_connectBind s.m env c))
  | queueRec env pc pc' l m hpc e => exact .same rfl (slots_recMoves e hs hk fun h => by simp [resets, hpc, h])
  | queueRecEnd env pc l m rc hpc e => exact .same rfl (slots_recMoves e hs hk fun h => by simp [resets, hpc, h])
  | discSend env r l hq => exact .same rfl (slots_of_inflight (by simp))
  | packet i n p again alloc hl hsock hst t ht =>
    rw [outflow_readMoves ht]
    exact slots_packet s again alloc (by simpa [quietCall] using hq)
  | connack r max turn env hl => exact .same rfl (slots_connack env.alloc s.m r)
  | write i n taken e again m rc hl he =>
    have hm := msgsOut_packetWrite s.m e.rc taken
    rw [he] at hm
    exact .same rfl (slots_of_inflight (congrArg MsgData.inflight hm))
  | writeDisconnect i n taken e again m hl he =>
    have hm := msgsOut_packetWrite s.m e.rc taken
    rw [he] at hm
    exact .same rfl (slots_of_inflight (congrArg MsgData.inflight hm))
  | ping alloc hl hsock ht => exact .same rfl (slots_of_inflight (by simp))
  | loopRec env pc pc' m hpc e => exact .same rfl (slots_recMoves e hs hk fun h => by simp [resets, hpc, h])
  | loopRecEnd env pc m rc hpc e => exact .same rfl (slots_recMoves e hs hk fun h => by simp [resets, hpc, h])
  | _ => exact .same rfl rfl

theorem slots_call {s s' : Sys} {c : Call} (h : callStep s c = some s') (hs : StoreOk s.m.msgsOut.inflight)
    (hk : keepsCall s c = true) (hq : quietCall c = true) : SlotMoves s c (slots s'.m) := by
  rcases call_cases h with ⟨a, rfl, hm⟩ | ⟨hne, -, hasks, -⟩
  · exact slots_act hm hs hk hq
  · have hnone : storedNow s c = [] := by
      cases c with
      | act a => exact absurd rfl (hne a)
      | _ => rfl
    rcases hasks with hm | ⟨p, -, hm⟩
    · exact .same hnone (by rw [hm])
    · exact .same hnone (by rw [hm]; rfl)

/-! ## Phases -/

section PhaseSteps

variable {s s' : Sys} {c : Call} {l : List Slot} {alloc : Alloc} {m : Mosq} {mid : UInt16}

theorem SlotMoves.mids (h : SlotMoves s c l) :
    (l.map Slot.mid).Sublist ((slots s.m ++ (storedNow s c).map slotOf).map Slot.mid) := by
  rcases h with h | ⟨hst, y, -, -, h⟩
  · rw [h]
  · rw [h, hst, List.map_nil, List.append_nil]
    exact List.eraseP_sublist.map _

/-- Each packet id is in the phase it was in, but for that of a message that is stored. -/
theorem phase_after (h : SlotMoves s c l) (hn : ((slots s.m).map Slot.mid).Nodup) (k : UInt16) :
    phaseAt l k = phaseAt (slots s.m ++ (storedNow s c).map slotOf) k := by
  rcases h with h | ⟨hst, y, hy, hq, h⟩
  · rw [h]
  · rw [h, hst, List.map_nil, List.append_nil, phaseAt_erase hn]
    split
    · rename_i hk
      subst hk
      -- the message of QoS 1 is the only one with its packet id
      refine (phaseAt_idle fun z hz hm hz2 => ?_).symm
      have hzy : z = y := List.inj_on_of_nodup_map hn hz hy hm
      rw [hzy, hq] at hz2
      cases hz2
    · rfl

theorem readAck_ok {r : UInt8} {x : UInt16 × UInt8} (h : readAck m (.ok mid) (.ok r) = .ok x) : x.1 = mid := by
  simp only [readAck] at h
  split at h
  · cases h
  · split at h
    · cases h
    · cases h
      rfl

theorem phase_pubcomp (alloc : Alloc) (mid : UInt16) (hn : ((slots m).map Slot.mid).Nodup) (r : UInt8) :
    let m' := (handlePacket alloc m (.pubackcomp .pubcomp (.ok mid) (.ok r))).1
    (((slots m').map Slot.mid).Sublist ((slots m).map Slot.mid)) ∧
    ((∀ k, phaseAt (slots m') k = phaseAt (slots m) k) ∨ ∃ t, (phaseAt (slots m) mid).current = some t ∧
      ∀ k, phaseAt (slots m') k = if k = mid then .idle else phaseAt (slots m) k) := by
  intro m'
  rcases slots_pubackcomp alloc m .pubcomp (.ok mid) (.ok r) with h | ⟨e, i, r', hr, he, hm, hq, h⟩
  · have h : slots m' = slots m := h
    rw [h]
    exact ⟨.refl _, .inl fun _ => rfl⟩
  · have h : slots m' = _ := h
    obtain rfl : i = mid := readAck_ok hr
    rw [h]
    refine ⟨List.eraseP_sublist.map _, .inr ⟨toldOf e, ?_, fun k => phaseAt_erase hn i⟩⟩
    have hphase := phaseAt_mem hn (List.mem_map_of_mem he) hq
    rw [show (slotOf e).mid = i from hm] at hphase
    rw [hphase, Slot.phase]
    split <;> rfl

/-- A message that has been received is so from then on. -/
theorem slots_received {p : InPacket} {e : Message} (h : receivedFor m p = some e) :
    slots (handlePacket alloc m p).1 = receiveFirst e.mid (slots m) := by
  obtain ⟨mid, tail, r, rfl, hs, hr, hc, hf, hq⟩ := receivedFor_some h
  have hupdate : messageOutUpdate m.msgsOut e.mid .waitForPubcomp 2 =
      ({ m.msgsOut with inflight := setFirstState e.mid .waitForPubcomp m.msgsOut.inflight }, .success) := by
    simp [messageOutUpdate, hf, hq]
  have hstore : (handlePacket alloc m (.pubrec mid tail)).1.msgsOut.inflight =
      setFirstState e.mid .waitForPubcomp m.msgsOut.inflight := by
    simp [handlePacket, handlePubrec, hs, hr, hc, receiveMessage, hupdate]
  rw [slots, hstore]
  exact slots_setFirstState e.mid _

/-- What the handler of a PUBREC does when it is not for a message of QoS 2 out. -/
theorem pubrec_ignored (alloc : Alloc) {r : UInt8} (hr : r < 0x80)
    (h : receivedFor m (.pubrec (.ok mid) (.ok r)) = none) :
    slots (handlePacket alloc m (.pubrec (.ok mid) (.ok r))).1 = slots m ∧
      packetHands alloc m (.pubrec (.ok mid) (.ok r)) = [] ∧
      (strayPubrel alloc m (.pubrec (.ok mid) (.ok r)) = [] ∨ m.msgsOut.inflight.find? (·.mid = mid) = none) := by
  by_cases hs : m.state = .active
  · cases ha : readAck m (.ok mid) (.ok r) with
    | error rc =>
      refine ⟨by simp [handlePacket, handlePubrec, hs, ha], ?_, .inl (by simp [strayPubrel, hs, ha])⟩
      simp [packetHands, packetRelease, receivedFor, hs, ha]
    | ok x =>
      obtain ⟨i, r'⟩ := x
      obtain rfl : i = mid := readAck_ok ha
      have hr' : r' < 0x80 ∨ m.protocol ≠ .mqtt5 := by
        by_cases hp : m.protocol = .mqtt5
        · have : r' = r := by
            simp only [readAck, hp, if_true] at ha
            split at ha
            · cases ha
            · cases ha
              rfl
          exact .inl (this ▸ hr)
        · exact .inr hp
      have hnone : packetRelease m (.pubrec (.ok i) (.ok r)) = none := by simp [packetRelease, hs, ha, hr']
      have hhands : packetHands alloc m (.pubrec (.ok i) (.ok r)) = [] := by simp [packetHands, hnone, h]
      have hfind : (m.msgsOut.inflight.find? (·.mid = i)).filter (·.qos = 2) = none := by
        simpa only [receivedFor, hs, ha, hr', ne_eq, not_true_eq_false, if_false, if_true] using h
      refine ⟨?_, hhands, ?_⟩
      · have hstep : handlePacket alloc m (.pubrec (.ok i) (.ok r)) =
            ((receiveMessage alloc m i).1, .done (receiveMessage alloc m i).2) := by
          simp [handlePacket, handlePubrec, hs, ha, hr']
        rw [hstep]
        refine slots_of_inflight ?_
        unfold receiveMessage messageOutUpdate
        cases hf : m.msgsOut.inflight.find? (·.mid = i) with
        | none => simp
        | some e =>
          have hq : e.qos ≠ 2 := by simpa [hf] using hfind
          simp [hq]
      · cases hf : m.msgsOut.inflight.find? (·.mid = i) with
        | none => exact .inr rfl
        | some e => exact .inl (by simp [strayPubrel, hs, ha, hf])
  · refine ⟨by simp [handlePacket, handlePubrec, hs], ?_, .inl (by simp [strayPubrel, hs])⟩
    simp [packetHands, packetRelease, receivedFor, hs]

/-- What the handler of a PUBREC makes of the phases: it is for a message out, or its packet id is free, or
    nothing is done. -/
theorem phase_pubrec (alloc : Alloc) {r : UInt8} (again : Bool) (hn : ((slots s.m).map Slot.mid).Nodup)
    (hr : r < 0x80) :
    let p := InPacket.pubrec (.ok mid) (.ok r)
    let m' := (handlePacket alloc s.m p).1
    ((slots m').map Slot.mid = (slots s.m).map Slot.mid) ∧
    ((∀ k, phaseAt (slots m') k = phaseAt (slots s.m) k) ∧
        (phaseAt (slots s.m) mid = .idle ∨ handedUp s (.act (.loop (.packet p again alloc))) = []) ∨
      ∃ t, (phaseAt (slots s.m) mid).current = some t ∧ strayPubrel alloc s.m p = [] ∧
        ∀ k, phaseAt (slots m') k = if k = mid then .released t else phaseAt (slots s.m) k) := by
  intro p m'
  cases hrec : receivedFor s.m p with
  | none =>
    obtain ⟨hslots, hhands, hstray⟩ := pubrec_ignored alloc hr hrec
    have hslots : slots m' = slots s.m := hslots
    rw [hslots]
    refine ⟨rfl, .inl ⟨fun _ => rfl, ?_⟩⟩
    rcases hstray with hstray | hfree
    · refine .inr ?_
      show (packetHands alloc s.m p).filterMap upItem ++ strayPubrel alloc s.m p = []
      rw [hhands, hstray]
      rfl
    · refine .inl (phaseAt_idle fun y hy hm => ?_)
      obtain ⟨e, he, rfl⟩ := List.mem_map.mp hy
      have hne := List.find?_eq_none.mp hfree e he
      exact absurd (decide_eq_true hm) hne
  | some e =>
    obtain ⟨mid', tail, r', hp, hs, ha, -, hf, hq⟩ := receivedFor_some hrec
    obtain ⟨rfl, rfl⟩ := InPacket.pubrec.inj hp
    have hmid : e.mid = mid := readAck_ok ha
    have hmem : slotOf e ∈ slots s.m := List.mem_map_of_mem (List.mem_of_find?_eq_some hf)
    have hslots : slots m' = receiveFirst e.mid (slots s.m) := slots_received hrec
    rw [hslots, ← hmid]
    refine ⟨mids_receiveFirst .., .inr ⟨toldOf e, ?_, ?_, fun k => phaseAt_receive hn hmem hq⟩⟩
    · rw [show e.mid = (slotOf e).mid from rfl, phaseAt_mem hn hmem hq, Slot.phase]
      split <;> rfl
    · have hfound : (s.m.msgsOut.inflight.find? (·.mid = e.mid)).isNone = false := by rw [hf]; rfl
      simp only [p, strayPubrel, hs, ha, hfound, Bool.false_eq_true, false_and, and_false, if_false, ne_eq,
        not_true_eq_false]

/-- What the handler of a packet hands over for the messages out. -/
theorem speaks_packet {p : InPacket} (hn : ((slots m).map Slot.mid).Nodup) {x : Message × Packet}
    {z : UInt16 × Item Told}
    (hx : x ∈ packetHands alloc m p) (hz : upItem x = some z) :
    (phaseAt (slots (handlePacket alloc m p).1) z.1).speaks z.2 := by
  cases packet_store alloc m p with
  | released m1 hrel hl hsock hlim hm =>
    rw [packetHands_released alloc m hrel] at hx
    have hslots : slots (handlePacket alloc m p).1 = slots m1 :=
      (slots_of_inflight hl).trans (slots_release alloc m1)
    rw [hslots]
    refine (covers_release hx hz).speaks ?_
    rcases hm with hm | ⟨i, hm⟩
    · rw [hm]
      exact hn
    · rw [hm]
      exact hn.sublist ((List.eraseP_sublist.map slotOf).map Slot.mid)
  | none hrel hl | received i hrel hl =>
    unfold packetHands at hx
    rw [hrel] at hx
    dsimp only at hx
    split at hx
    · rename_i e hrec
      split at hx
      · obtain rfl := List.mem_singleton.mp hx
        cases hz
        obtain ⟨-, -, -, -, -, -, -, hf, hq⟩ := receivedFor_some hrec
        have hmem : slotOf e ∈ slots m := List.mem_map_of_mem (List.mem_of_find?_eq_some hf)
        rw [slots_received hrec, show e.mid = (slotOf e).mid from rfl, phaseAt_receive hn hmem hq, if_pos rfl]
        rfl
      · cases hx
    · cases hx

/-- What is handed over for the messages out is what the phases say then. -/
theorem speaks_handed {a : Act} (h : Moves s a s') (hs : StoreOk s.m.msgsOut.inflight)
    (hn : ((slots s.m).map Slot.mid).Nodup) (hn' : ((slots s'.m).map Slot.mid).Nodup) {z : UInt16 × Item Told}
    (hz : z ∈ (handed s a).filterMap upItem) : (phaseAt (slots s'.m) z.1).speaks z.2 := by
  obtain ⟨x, hx, hup⟩ := List.mem_filterMap.mp hz
  clear hz
  cases h with
  | publish alloc a hq ha =>
    simp only [handed, publishHands] at hx
    cases hrel : publishRelease s.m a with
    | none =>
      simp only [hrel] at hx
      split at hx
      · rename_i hc
        obtain rfl := List.mem_singleton.mp hx
        simp [upItem, publishPacket, messageOf, hc.2.1] at hup
      · cases hx
    | some m1 =>
      simp only [hrel] at hx
      have hslots : slots (mosquittoPublishV5 alloc s.m a).1 = slots m1 := by
        unfold publishRelease at hrel
        split at hrel
        · rename_i hc
          cases hrel
          simp only [mosquittoPublishV5, hc.1, hc.2.1, hc.2.2, if_false, if_true]
          exact slots_release alloc _
        · cases hrel
      have hn1 : ((slots (mosquittoPublishV5 alloc s.m a).1).map Slot.mid).Nodup := hn'
      show (phaseAt (slots (mosquittoPublishV5 alloc s.m a).1) z.1).speaks z.2
      rw [hslots] at hn1 ⊢
      exact (covers_release hx hup).speaks hn1
  | packet i n p again alloc hl hsock hst t ht =>
    rw [outflow_readMoves ht]
    exact speaks_packet hn hx hup
  | connack r max turn env hl =>
    simp only [handed, hl, connackHands] at hx
    show (phaseAt (slots (connackSwitch env.alloc s.m r).1) z.1).speaks z.2
    rw [slots_connack]
    split at hx
    · have hmem : (if s.m.state ≠ .disconnecting then s.m.setState .active else s.m).msgsOut.inflight =
          s.m.msgsOut.inflight := by split <;> rfl
      rw [hmem] at hx
      exact (covers_retry hs hx hup).speaks hn
    · cases hx
  | waitNew env hl | discCall turn env hl | rcClose rc turn env hl | rcCall rc turn env hl | kaCall rc env hl
  | check1 env hl | check2 env hl =>
    simp only [handed, hl] at hx
    cases hx
  | loopRec env pc pc' m hl e | loopRecEnd env pc m rc hl e =>
    simp only [handed, hl] at hx
    cases hx
  | _ => cases hx

end PhaseSteps

/-! ## Nothing else is handed over -/

/-- The PUBRELs handed to `packet__queue`, newest first. -/
def pubrels (m : Mosq) : List UInt16 :=
  m.trace.filterMap fun
    | .queued _ (.pubrel mid) => some mid
    | _ => none

def relOf : UInt16 × Item Told → Option UInt16
  | (mid, .rel) => some mid
  | _ => none

/-- The packet ids of the PUBRELs among the packets handed over. -/
def relsOf (l : List (Message × Packet)) : List UInt16 := (l.filterMap upItem).filterMap relOf

def Packet.isPubrel : Packet → Bool
  | .pubrel _ => true
  | _ => false

section Listed

variable (alloc : Alloc) (m : Mosq)

theorem relsOf_append (l l' : List (Message × Packet)) : relsOf (l ++ l') = relsOf l ++ relsOf l' := by
  simp [relsOf]

theorem relsOf_other (e : Message) {p : Packet} (h : Packet.isPubrel p = false) (b : Prop) [Decidable b] :
    relsOf (if b then [(e, p)] else []) = [] := by
  split
  · cases p with
    | pubrel mid => cases h
    | publish mid topic payload qos retain dup properties =>
      by_cases hq : qos = 2
      · simp [relsOf, upItem, relOf, hq]
      · simp [relsOf, upItem, hq]
    | _ => rfl
  · rfl

theorem relsOf_pubrel (e : Message) (mid : UInt16) : relsOf [(e, .pubrel mid)] = [mid] := rfl

theorem pubrels_packetQueue {p : Packet} (h : Packet.isPubrel p = false) :
    pubrels (packetQueue m p) = pubrels m := by
  cases p with
  | pubrel => cases h
  | _ => rfl

theorem pubrels_sendPacket (n : Nat) {p : Packet} (h : Packet.isPubrel p = false) :
    pubrels (sendPacket alloc m n p).1 = pubrels m := by
  unfold sendPacket
  split
  · exact pubrels_packetQueue m h
  · rfl

theorem pubrels_sendPubrec (mid : UInt16) (r : UInt8) : pubrels (sendPubrec alloc m mid r).1 = pubrels m := by
  unfold sendPubrec
  refine (pubrels_sendPacket alloc _ _ rfl).trans ?_
  split <;> rfl

theorem pubrels_sendPublish (e : Message) : pubrels (sendPublish alloc m e).1 = pubrels m := by
  cases hc : canPublish alloc m e with
  | true =>
    rw [sendPublish_ok hc]
    exact pubrels_packetQueue m rfl
  | false =>
    obtain ⟨rc, -, h⟩ := sendPublish_fail hc
    rw [h]

theorem sendPubrel_cases (mid : UInt16) : sendPubrel alloc m mid =
    if alloc (.pubrel mid) then (packetQueue m (.pubrel mid), .success) else (m, .nomem) := by
  simp only [sendPubrel, sendCommandWithMid, ne_eq, not_true_eq_false, and_false, if_false, sendPacket,
    packetAlloc]
  cases alloc (.pubrel mid) with
  | true => rfl
  | false => rfl

theorem pubrels_sendPubrel (mid : UInt16) :
    pubrels (sendPubrel alloc m mid).1 = (if alloc (.pubrel mid) then [mid] else []) ++ pubrels m := by
  rw [sendPubrel_cases]
  split
  · rfl
  · rfl

theorem pubrels_releaseLoop (l : List Message) : pubrels (releaseLoop alloc m l).1 = pubrels m := by
  induction l generalizing m with
  | nil => rfl
  | cons cur rest ih =>
    rcases Nat.eq_zero_or_pos m.msgsOut.inflightQuota with hq | hq
    · rw [releaseLoop_full _ hq]
    by_cases hi : cur.qos > 0 ∧ cur.state = .invalid
    · cases hc : canPublish alloc m cur.released with
      | true =>
        rw [releaseLoop_send hq hi hc]
        exact (ih _).trans (pubrels_packetQueue m rfl)
      | false =>
        obtain ⟨rc, -, e⟩ := releaseLoop_fail rest hq hi hc
        rw [e]
    · rw [releaseLoop_keep hq hi]
      exact ih m

theorem relsOf_releaseHands (l : List Message) : relsOf (releaseHands alloc m l) = [] := by
  induction l generalizing m with
  | nil => rfl
  | cons cur rest ih =>
    unfold releaseHands
    split
    · split
      · split
        · have := relsOf_other cur.released (p := publishPacket m cur.released) rfl True
          rw [if_pos trivial] at this
          rw [← List.singleton_append, relsOf_append, this, ih]
          rfl
        · rfl
      · exact ih m
    · rfl

theorem pubrels_retryLoop (l : List Message) :
    pubrels (retryLoop alloc m l).1 = (relsOf (retryHands alloc m l)).reverse ++ pubrels m := by
  induction l generalizing m with
  | nil => rfl
  | cons msg rest ih =>
    cases hs : msg.state with
    | publishQos1 | publishQos2 =>
      simp only [retryLoop, retryHands, hs, ih, pubrels_sendPublish, relsOf_append, List.reverse_append]
      rw [relsOf_other _ rfl]
      simp
    | waitForPubrel =>
      simp only [retryLoop, retryHands, hs, ih, pubrels_sendPubrec, relsOf_append, List.reverse_append]
      rw [relsOf_other _ (p := .pubrec msg.mid 0) rfl]
      simp
    | resendPubrel | waitForPubcomp =>
      simp only [retryLoop, retryHands, hs, ih, pubrels_sendPubrel, relsOf_append, List.reverse_append,
        List.append_assoc]
      rw [sendPubrel_cases]
      cases alloc (.pubrel msg.mid) with
      | true => simp [relsOf_pubrel]
      | false => simp [relsOf]
    | _ => simp only [retryLoop, retryHands, hs, ih]

theorem pubrels_packet (p : InPacket) : pubrels (handlePacket alloc m p).1 =
    (relsOf (packetHands alloc m p) ++ (strayPubrel alloc m p).filterMap relOf).reverse ++ pubrels m := by
  cases p with
  | pubackcomp type mid tail =>
    have hhands : relsOf (packetHands alloc m (.pubackcomp type mid tail)) = [] := by
      unfold packetHands
      split
      · exact relsOf_releaseHands alloc _ _
      · rfl
    rw [hhands]
    show pubrels (handlePubackcomp alloc m type mid tail).1 = pubrels m
    unfold handlePubackcomp
    split
    · rfl
    split
    · rfl
    unfold acknowledge
    split
    · exact pubrels_releaseLoop alloc _ _
    · exact pubrels_releaseLoop alloc _ _
    · rfl
  | pubrec mid tail =>
    by_cases hs : m.state = .active
    · cases ha : readAck m mid tail with
      | error rc =>
        simp [handlePacket, handlePubrec, packetHands, packetRelease, receivedFor, strayPubrel, relsOf, hs, ha]
      | ok x =>
        by_cases hc : x.2 < 0x80 ∨ m.protocol ≠ .mqtt5
        · cases hf : m.msgsOut.inflight.find? (·.mid = x.1) with
          | none =>
            simp only [handlePacket, handlePubrec, receiveMessage, messageOutUpdate, packetHands,
              packetRelease, receivedFor,
              strayPubrel, hs, ha, hc, hf, ne_eq, not_true_eq_false, if_false, if_true,
                Option.isNone_none, true_and,
              Option.filter_none, pubrels_sendPubrel]
            split
            · rfl
            · rfl
          | some e =>
            obtain ⟨i, r⟩ := x
            obtain rfl : e.mid = i := by simpa using List.find?_some hf
            by_cases hq : e.qos = 2
            · simp only [handlePacket, handlePubrec, receiveMessage, messageOutUpdate, packetHands,
                packetRelease, receivedFor,
                strayPubrel, hs, ha, hc, hf, hq, ne_eq, not_true_eq_false, if_false, if_true, Option.isNone_some,
                Bool.false_eq_true, false_and, and_false, Option.filter_some, decide_true, pubrels_sendPubrel]
              split
              · rfl
              · rfl
            · simp [handlePacket, handlePubrec, receiveMessage, messageOutUpdate, packetHands, packetRelease,
                receivedFor,
                strayPubrel, relsOf, hs, ha, hc, hf, hq, Option.filter]
        · have hhands : relsOf (packetHands alloc m (.pubrec mid tail)) = [] := by
            unfold packetHands
            split
            · exact relsOf_releaseHands alloc _ _
            · simp [receivedFor, hs, ha, hc, relsOf]
          have hstray : strayPubrel alloc m (.pubrec mid tail) = [] := by simp [strayPubrel, hs, ha, hc]
          rw [hhands, hstray]
          show pubrels (handlePubrec alloc m mid tail).1 = pubrels m
          simp only [handlePubrec, hs, ha, hc, ne_eq, not_true_eq_false, if_false, refuseMessage]
          split
          · refine (pubrels_releaseLoop alloc _ _).trans ?_
            unfold incrementSendQuota
            rfl
          · exact pubrels_releaseLoop alloc _ _
    · simp [handlePacket, handlePubrec, packetHands, packetRelease, receivedFor, strayPubrel, relsOf, hs]
  | publish p =>
    show pubrels (handlePublish alloc m p).1 = pubrels m
    unfold handlePublish
    split
    · rfl
    unfold acceptPublish
    split
    · rfl
    · exact pubrels_sendPacket alloc _ _ rfl
    · exact pubrels_sendPubrec alloc _ _ _
    · rfl
  | pubrel flags mid tail =>
    show pubrels (handlePubrel alloc m flags mid tail).1 = pubrels m
    unfold handlePubrel
    split
    · rfl
    rename_i i _
    have h : pubrels (sendPubcomp alloc m i).1 = pubrels m := pubrels_sendPacket alloc _ _ rfl
    unfold releaseMessage
    dsimp only
    repeat' split
    all_goals exact h
  | pingreq =>
    show pubrels (handlePacket alloc m .pingreq).1 = pubrels m
    simp only [handlePacket]
    split
    · rfl
    · exact pubrels_sendPacket alloc m 0 rfl
  | connack flags reason l =>
    show pubrels (handleConnack m flags reason l).1 = pubrels m
    unfold handleConnack
    repeat' split
    all_goals rfl
  | disconnect reason tail =>
    show pubrels (handleDisconnect m reason tail).1 = pubrels m
    unfold handleDisconnect
    repeat' split
    all_goals rfl
  | _ =>
    show pubrels (handlePacket alloc m _).1 = pubrels m
    simp only [handlePacket]
    repeat' split
    all_goals rfl

theorem pubrels_recMoves {env : RecEnv} {p : List MosquittoProperty} {m m' : Mosq} {pc : RecPc}
    {next : RecPc ⊕ Rc}
    (h : RecMoves env p m pc m' next) : pubrels m' = pubrels m := by
  have hc : pubrels (sendConnect env.alloc m p).1 = pubrels m := by
    have ha : pubrels (adoptReceiveMaximum m p) = pubrels m := by
      obtain ⟨maximum, quota, e⟩ := adoptReceiveMaximum_eq m p
      rw [e]
      rfl
    rcases sendConnect_cases env.alloc m p with ⟨-, e⟩ | ⟨rc, -, e | e⟩
    · rw [e]
      exact (pubrels_packetQueue _ rfl).trans ha
    · rw [e]
    · rw [e]
      exact ha
  cases h with
  | sent => exact hc
  | unsent => exact hc
  | _ => rfl

theorem pubrels_packetWrite (stop : Rc) (n : Nat) : pubrels (packetWrite stop n m).1 = pubrels m := by
  have hloop (n : Nat) (m : Mosq) : pubrels (packetWriteLoop stop n m).1 = pubrels m := by
    induction n generalizing m with
    | zero =>
      unfold packetWriteLoop
      split <;> rfl
    | succ n ih =>
      unfold packetWriteLoop
      split
      · rfl
      · rfl
      · rw [ih]
        split <;> rfl
  have ht : pubrels (takeNext m) = pubrels m := by
    unfold takeNext
    split <;> rfl
  unfold packetWrite
  split
  · rfl
  · split
    · exact ht
    · exact (hloop n _).trans ht

/-- The PUBRELs that a step queues are those that are listed. -/
theorem step_pubrels {s s' : Sys} {a : Act} (h : Moves s a s') :
    pubrels s'.m = ((handedUp s (.act a)).filterMap relOf).reverse ++ pubrels s.m := by
  rw [handedUp, List.filterMap_append]
  show pubrels s'.m = (relsOf (handed s a) ++ (straysNow s a).filterMap relOf).reverse ++ pubrels s.m
  cases h with
  | connect c hq =>
    obtain ⟨username, password, e⟩ := setupMosquitto_eq s.m (if c.protocolVersion = .mqtt5 then c
        else { c with properties := [] })
    show pubrels (setupMosquitto s.m _) = _
    rw [e]
    rfl
  | publish alloc a hq ha =>
    have hhands : relsOf (publishHands alloc s.m a) = [] := by
      unfold publishHands
      split
      · exact relsOf_releaseHands alloc _ _
      · exact relsOf_other _ rfl _
    simp only [handed, straysNow, hhands]
    show pubrels (mosquittoPublishV5 alloc s.m a).1 = pubrels s.m
    unfold mosquittoPublishV5
    split
    · dsimp only
      split
      · exact pubrels_sendPublish alloc _ _
      split
      · exact pubrels_releaseLoop alloc _ _
      · rfl
    · rfl
  | bind env c hq =>
    show pubrels (connectBind env s.m c).1 = pubrels s.m
    rcases connectBind_cases s.m env c with ⟨e, -⟩ | ⟨id, e⟩
    · rw [e]
    · rw [e]
      rfl
  | queueRec env pc pc' l m hq e => exact pubrels_recMoves e
  | queueRecEnd env pc l m rc hq e => exact pubrels_recMoves e
  | discSend env r l hq =>
    show pubrels (disconnectSend env.alloc s.m r l).1 = pubrels s.m
    unfold disconnectSend
    split
    · rfl
    · exact pubrels_sendPacket env.alloc s.m _ rfl
  | packet i n p again alloc hl hsock hst t ht =>
    rw [outflow_readMoves ht]
    exact pubrels_packet alloc s.m p
  | connack r max turn env hl =>
    simp only [handed, hl, straysNow, List.filterMap_nil, List.append_nil, connackHands]
    show pubrels (connackSwitch env.alloc s.m r).1 = _
    unfold connackSwitch
    split
    · dsimp only
      split
      · exact pubrels_retryLoop env.alloc _ _
      · exact pubrels_retryLoop env.alloc _ _
    · split
      · rfl
      · rfl
  | write i n taken e again m rc hl he =>
    have hm := pubrels_packetWrite s.m e.rc taken
    rw [he] at hm
    exact hm
  | writeDisconnect i n taken e again m hl he =>
    have hm := pubrels_packetWrite s.m e.rc taken
    rw [he] at hm
    exact hm
  | ping alloc hl hsock ht =>
    have hm := pubrels_sendPacket alloc s.m 0 (p := .pingreq) rfl
    show pubrels (sendPingreq alloc s.m).1 = pubrels s.m
    unfold sendPingreq sendSimpleCommand
    split
    · rename_i e
      rw [e] at hm
      exact hm
    · exact hm
  | waitNew env hl | discCall turn env hl | rcClose rc turn env hl | rcCall rc turn env hl | kaCall rc env hl
  | check1 env hl | check2 env hl =>
    simp only [handed, hl]
    rfl
  | loopRec env pc pc' m hl e =>
    simp only [handed, hl]
    exact pubrels_recMoves e
  | loopRecEnd env pc m rc hl e =>
    simp only [handed, hl]
    exact pubrels_recMoves e
  | _ => rfl

end Listed

end Artemisia.Threads
