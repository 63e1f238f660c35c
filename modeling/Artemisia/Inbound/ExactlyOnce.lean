/-
  Artemisia.Inbound.ExactlyOnce — QoS 2 messages to the client are delivered once, as long as no PUBLISH
  is stored beside another one with its packet id.

  A session is, for each packet id, one slot of the handshake in `Lib.Handshake`: every step of it is the
  handshake's moves, with something lost.

  Proved:
  - `move_inv`:            each step that meets the guard keeps the invariant.
  - `delivers_once`:       so in every reached state no message was delivered twice, and each was delivered
                           while the server was releasing it.
  - `lostPubrec_delivers_twice`: the client does store a PUBLISH beside one it has. When a PUBREC is lost the
                           same message is stored again, and delivered again.
-/
import Artemisia.Inbound.Session

namespace Artemisia.Inbound

open Artemisia.Property Artemisia.Client Handshake

/-! ## The property -/

/-- The entry carries what the server sent under its number. -/
def SameContent (sent : List AppMessage) (e : Message) : Prop :=
  ∃ a, sent[e.uid]? = some a ∧ e.topic = some a.topic.bytes ∧ e.payload = a.payload

/-- No application message is given to on_message twice, and each time the server is releasing, under the
    packet id, a message with that topic and payload. -/
structure ExactlyOnce (s : Session) : Prop where
  once : ((deliveries s.m.trace).map (·.uid)).Nodup
  logged : s.log.map (·.1) = deliveries s.m.trace
  current : ∀ r ∈ s.log, ∃ uid a, r.2 = .released uid ∧ s.sent[uid]? = some a ∧
    r.1.topic = some a.topic.bytes ∧ r.1.payload = a.payload

/-- A PUBLISH is not accepted while a message with its packet id is stored. -/
def Down.Unstored (m : Mosq) : Down → Prop
  | .publish mid uid a dup =>
    (readPublish m (a.publishIn mid uid dup)).isOk = true → ∀ e ∈ m.msgsIn.inflight, e.mid ≠ mid
  | .pubrel _ | .other .. => True

instance (m : Mosq) : (d : Down) → Decidable (d.Unstored m)
  | .publish .. => inferInstanceAs (Decidable (_ → _))
  | .pubrel _ | .other .. => isTrue trivial

/-- The guard of the runs below. -/
def Unstored (s : Session) : Move → Prop
  | .deliver _ => ∀ d ∈ s.toClient.head?, d.Unstored s.m
  | _ => True

instance (s : Session) : (a : Move) → Decidable (Unstored s a)
  | .deliver _ => inferInstanceAs (Decidable (∀ d ∈ s.toClient.head?, d.Unstored s.m))
  | .publish .. | .republish _ | .rerelease _ | .other .. | .serve | .write | .cut _ | .reconnect _ | .connect ..
  | .appPublish .. => isTrue trivial

/-! ## Slots -/

def lettersFor (mid : UInt16) (l : List (UInt16 × Letter)) : List Letter :=
  l.filterMap (fun x => if x.1 = mid then some x.2 else none)

def itemFor (mid : UInt16) : Down → Option (Item Nat)
  | .publish i uid _ _ => if i = mid then some (.pub uid) else none
  | .pubrel i => if i = mid then some .rel else none
  | .other _ _ => none

/-- The numbers of the messages stored under a packet id. -/
def uidsFor (mid : UInt16) (l : List Message) : List Nat := (l.filter (·.mid = mid)).map (·.uid)

/-- The session as the handshake of one packet id. -/
def hand (s : Session) (mid : UInt16) : Hand Nat where
  phase := s.server mid
  acks := lettersFor mid (s.toServer.filterMap ackOf ++ (inb s.m).acks)
  wire := s.toClient.filterMap (itemFor mid)
  stored := uidsFor mid (inb s.m).stored

/-- The numbers of the messages delivered. -/
def gone (s : Session) : List Nat := (s.log.map (·.1)).map (·.uid)

structure SessionInv (s : Session) : Prop where
  slots : ∀ mid, Handshake.Inv (gone s) (hand s mid)
  /-- A message is sent under one packet id. -/
  owner : ∀ i j u, (s.server i).current = some u → (s.server j).current = some u → i = j
  bound : ∀ i u, (s.server i).current = some u → u < s.sent.length
  goneLt : ∀ u ∈ gone s, u < s.sent.length
  once : (gone s).Nodup
  logged : s.log.map (·.1) = (inb s.m).delivered
  current : ∀ r ∈ s.log, r.2 = .released r.1.uid ∧ SameContent s.sent r.1
  wire : ∀ mid uid a dup, Down.publish mid uid a dup ∈ s.toClient → s.sent[uid]? = some a
  stored : ∀ e ∈ (inb s.m).stored, e.qos = 2 ∧ SameContent s.sent e
  store : StoreOk s.m.msgsOut.inflight

theorem SessionInv.exactlyOnce {s : Session} (hi : SessionInv s) : ExactlyOnce s where
  once := by
    have h := hi.once
    rw [gone, hi.logged] at h
    exact h
  logged := hi.logged
  current r hr := by
    obtain ⟨hp, a, ha⟩ := hi.current r hr
    exact ⟨r.1.uid, a, hp, ha⟩

theorem lettersFor_append (mid : UInt16) (l l' : List (UInt16 × Letter)) :
    lettersFor mid (l ++ l') = lettersFor mid l ++ lettersFor mid l' := List.filterMap_append ..

theorem lettersFor_sublist (mid : UInt16) {l l' : List (UInt16 × Letter)} (h : l.Sublist l') :
    (lettersFor mid l).Sublist (lettersFor mid l') := h.filterMap _

theorem uidsFor_sublist (mid : UInt16) {l l' : List Message} (h : l.Sublist l') :
    (uidsFor mid l).Sublist (uidsFor mid l') := (h.filter _).map _

/-- What a PUBREL takes out of the store was all there was under its packet id. -/
theorem uidsFor_eraseP {mid : UInt16} {l : List Message} (h : (uidsFor mid l).length ≤ 1) :
    uidsFor mid (l.eraseP (·.mid = mid)) = [] ∧ (l.find? (·.mid = mid)).toList.map (·.uid) = uidsFor mid l := by
  induction l with
  | nil => simp [uidsFor]
  | cons e l ih =>
    by_cases hm : e.mid = mid
    · have hnil : uidsFor mid l = [] := by
        rw [← List.length_eq_zero_iff]
        simpa [uidsFor, hm] using h
      simp [hm, uidsFor] at hnil ⊢
      simpa [uidsFor] using hnil
    · have hl : uidsFor mid (e :: l) = uidsFor mid l := by simp [uidsFor, hm]
      rw [hl] at h ⊢
      simpa [hm, uidsFor] using ih h

/-! ## Losing -/

/-- The client's part of a step that delivers nothing. -/
theorem SessionInv.upd {s : Session} (hi : SessionInv s) {m : Mosq} (hl : Loses m s.m)
    (hs : StoreOk m.msgsOut.inflight) :
    SessionInv (s.upd m) := by
  have hsub : (s.upd m).toClient.Sublist s.toClient := by
    unfold Session.upd
    dsimp only
    split
    · exact List.Sublist.refl _
    · exact List.nil_sublist _
  refine { hi with
    slots := fun mid => (hi.slots mid).sub ⟨rfl, ?_, hsub.filterMap _, ?_⟩
    logged := hi.logged.trans hl.delivered.symm
    wire := fun mid uid a dup h => hi.wire mid uid a dup (hsub.subset h)
    stored := fun e he => hi.stored e (hl.stored.subset he)
    store := hs }
  · exact lettersFor_sublist mid ((List.Sublist.refl _).append hl.acks)
  · exact uidsFor_sublist mid hl.stored

/-! ## The server's moves -/

theorem hand_send (s : Session) (d : Down) (mid : UInt16) :
    Sub (hand (s.send d) mid) { hand s mid with wire := (hand s mid).wire ++ (itemFor mid d).toList } := by
  unfold Session.send
  split
  · have h : (s.toClient ++ [d]).filterMap (itemFor mid) = (hand s mid).wire ++ (itemFor mid d).toList := by
      cases h : itemFor mid d <;> simp [hand, h]
    exact ⟨rfl, List.Sublist.refl _, by rw [← h]; exact List.Sublist.refl _, List.Sublist.refl _⟩
  · exact ⟨rfl, List.Sublist.refl _, List.sublist_append_left _ _, List.Sublist.refl _⟩

theorem mem_send {s : Session} {d d' : Down} (h : d' ∈ (s.send d).toClient) : d' ∈ s.toClient ∨ d' = d := by
  unfold Session.send at h
  split at h
  · simpa using h
  · exact .inl h

/-- A packet is sent: what is to be shown is that the slots allow it. -/
theorem SessionInv.send {s : Session} (hi : SessionInv s) {d : Down}
    (hh : ∀ mid, Handshake.Inv (gone s) { hand s mid with wire := (hand s mid).wire ++ (itemFor mid d).toList })
    (hw : ∀ mid uid a dup, d = .publish mid uid a dup → s.sent[uid]? = some a) : SessionInv (s.send d) := by
  have he : s.send d = { s with toClient := (s.send d).toClient } := by
    unfold Session.send
    split <;> rfl
  have hg : gone (s.send d) = gone s := by rw [he]; rfl
  refine ⟨fun mid => ?_, ?_, ?_, ?_, ?_, ?_, ?_, ?_, ?_, ?_⟩
  · rw [hg]
    exact (hh mid).sub (hand_send s d mid)
  · rw [he]; exact hi.owner
  · rw [he]; exact hi.bound
  · rw [he]; exact hi.goneLt
  · rw [hg]; exact hi.once
  · rw [he]; exact hi.logged
  · rw [he]; exact hi.current
  · intro mid uid a dup h
    have hsent : (s.send d).sent = s.sent := by rw [he]
    rw [hsent]
    rcases mem_send h with h | h
    · exact hi.wire mid uid a dup h
    · exact hw mid uid a dup h.symm
  · rw [he]; exact hi.stored
  · rw [he]; exact hi.store

theorem setPhase_same (server : UInt16 → Phase Nat) (mid : UInt16) (p : Phase Nat) :
    setPhase server mid p mid = p := by
  simp [setPhase]

theorem setPhase_other (server : UInt16 → Phase Nat) {mid i : UInt16} (p : Phase Nat) (h : i ≠ mid) :
    setPhase server mid p i = server i := by simp [setPhase, h]

theorem inv_republish {s : Session} (hi : SessionInv s) {mid : UInt16} {uid : Nat} {a : AppMessage} {dup : Bool}
    (hp : s.server mid = .offered uid) (ha : s.sent[uid]? = some a) :
    SessionInv (s.send (.publish mid uid a dup)) := by
  refine hi.send (fun i => ?_) ?_
  · by_cases h : mid = i
    · subst h
      simpa [itemFor] using (hi.slots mid).republish (a := uid) hp
    · simpa [itemFor, h] using hi.slots i
  · intro i u b d h
    cases h
    exact ha

theorem inv_rerelease {s : Session} (hi : SessionInv s) {mid : UInt16} {uid : Nat}
    (hp : s.server mid = .released uid) :
    SessionInv (s.send (.pubrel mid)) := by
  refine hi.send (fun i => ?_) (fun _ _ _ _ h => by cases h)
  by_cases h : mid = i
  · subst h
    simpa [itemFor] using (hi.slots mid).rerelease (a := uid) hp
  · simpa [itemFor, h] using hi.slots i

theorem inv_other {s : Session} (hi : SessionInv s) (p : InPacket) (h : ofQos2 p = false) :
    SessionInv (s.send (.other p h)) :=
  hi.send (fun i => by simpa [itemFor] using hi.slots i) (fun _ _ _ _ h => by cases h)

/-- A new message under a free packet id. -/
theorem inv_offer {s : Session} (hi : SessionInv s) {mid : UInt16} (hp : s.server mid = .idle) (a : AppMessage) :
    SessionInv { s with server := setPhase s.server mid (.offered s.sent.length), sent := s.sent ++ [a] } := by
  have hnew : ∀ i u, (setPhase s.server mid (.offered s.sent.length) i).current = some u →
      (i = mid ∧ u = s.sent.length) ∨ ((s.server i).current = some u ∧ u < s.sent.length) := by
    intro i u h
    by_cases e : i = mid
    · rw [e, setPhase_same] at h
      exact .inl ⟨e, by simpa [Phase.current] using h.symm⟩
    · rw [setPhase_other _ _ e] at h
      exact .inr ⟨h, hi.bound i u h⟩
  have hget : ∀ {u : Nat} {b : AppMessage}, s.sent[u]? = some b → (s.sent ++ [a])[u]? = some b := by
    intro u b h
    rw [List.getElem?_append_left (List.getElem?_eq_some_iff.mp h).1]
    exact h
  have hsame : ∀ {e : Message}, SameContent s.sent e → SameContent (s.sent ++ [a]) e := by
    rintro e ⟨b, hb, h⟩
    exact ⟨b, hget hb, h⟩
  refine { hi with
    slots := fun i => ?_
    owner := ?_
    bound := ?_
    goneLt := fun u hu => by simpa using Nat.lt_succ_of_lt (hi.goneLt u hu)
    current := fun r hr => ⟨(hi.current r hr).1, hsame (hi.current r hr).2⟩
    wire := fun i u b d h => hget (hi.wire i u b d h)
    stored := fun e he => ⟨(hi.stored e he).1, hsame (hi.stored e he).2⟩ }
  · by_cases e : i = mid
    · subst e
      refine ((hi.slots i).publish (a := s.sent.length) hp ?_).sub ⟨?_, ?_, ?_, ?_⟩
      · intro h
        have := hi.goneLt _ h
        omega
      · exact setPhase_same _ _ _
      · exact List.Sublist.refl _
      · exact List.sublist_append_left _ _
      · exact List.Sublist.refl _
    · exact (hi.slots i).sub ⟨setPhase_other _ _ e, List.Sublist.refl _, List.Sublist.refl _, List.Sublist.refl _⟩
  · intro i j u h h'
    rcases hnew i u h with ⟨rfl, e⟩ | ⟨h, e⟩
    · rcases hnew j u h' with ⟨rfl, -⟩ | ⟨-, e'⟩
      · rfl
      · omega
    · rcases hnew j u h' with ⟨-, e'⟩ | ⟨h', -⟩
      · omega
      · exact hi.owner i j u h h'
  · intro i u h
    simp only [List.length_append, List.length_singleton]
    rcases hnew i u h with ⟨-, e⟩ | ⟨-, e⟩ <;> omega

/-- The server moves on with what it has. -/
theorem SessionInv.rephase {s : Session} (hi : SessionInv s) {server : UInt16 → Phase Nat} {rest : List Packet}
    (hc : ∀ i u, (server i).current = some u → (s.server i).current = some u)
    (hh : ∀ i, Handshake.Inv (gone s) (Inbound.hand { s with server := server, toServer := rest } i)) :
    SessionInv { s with server := server, toServer := rest } :=
  { hi with
    slots := hh
    owner := fun i j u h h' => hi.owner i j u (hc i u h) (hc j u h')
    bound := fun i u h => hi.bound i u (hc i u h) }

/-- Less is on its way to the server. -/
theorem inv_toServer {s : Session} (hi : SessionInv s) {l : List Packet} (hl : l.Sublist s.toServer) :
    SessionInv { s with toServer := l } :=
  hi.rephase (fun _ _ h => h) (fun i => (hi.slots i).sub
    ⟨rfl, lettersFor_sublist i ((hl.filterMap _).append (List.Sublist.refl _)), List.Sublist.refl _,
      List.Sublist.refl _⟩)

theorem hand_acks {s : Session} {p : Packet} {rest : List Packet} {mid : UInt16} {x : Letter}
    (hs : s.toServer = p :: rest) (hp : ackOf p = some (mid, x)) (i : UInt16) :
    (hand s i).acks = if mid = i then x :: (hand { s with toServer := rest } i).acks
      else (hand { s with toServer := rest } i).acks := by
  by_cases h : mid = i <;> simp [hand, hs, hp, lettersFor, h]

theorem serve_inv {s : Session} (hi : SessionInv s) {p : Packet} {rest : List Packet}
    (hs : s.toServer = p :: rest) :
    SessionInv (serve { s with toServer := rest } p) := by
  have hrest : SessionInv { s with toServer := rest } :=
    inv_toServer hi (by rw [hs]; exact List.sublist_cons_self ..)
  cases p with
  | pubrec mid r =>
    simp only [serve]
    split
    · rename_i uid hp
      have hp : s.server mid = .offered uid := hp
      have hinv : SessionInv { s with server := setPhase s.server mid (.released uid), toServer := rest } := by
        refine hi.rephase (fun i u h => ?_) (fun i => ?_)
        · by_cases e : i = mid
          · rw [e, setPhase_same] at h
            rw [e, hp]
            exact h
          · rwa [setPhase_other _ _ e] at h
        · have ha := hand_acks hs (rfl : ackOf (.pubrec mid r) = some (mid, .got)) i
          by_cases e : mid = i
          · subst e
            rw [if_pos rfl] at ha
            refine ((hi.slots mid).got hp ha).sub ⟨setPhase_same _ _ _, List.Sublist.refl _, ?_,
              List.Sublist.refl _⟩
            exact List.sublist_append_left _ _
          · rw [if_neg e] at ha
            refine (hi.slots i).sub ⟨setPhase_other _ _ (Ne.symm e), ?_, List.Sublist.refl _, List.Sublist.refl _⟩
            rw [ha]
            exact List.Sublist.refl _
      exact inv_rerelease hinv (setPhase_same _ _ _)
    · exact hrest
  | pubcomp mid =>
    simp only [serve]
    split
    · rename_i uid hp
      have hp : s.server mid = .released uid := hp
      refine hi.rephase (fun i u h => ?_) (fun i => ?_)
      · by_cases e : i = mid
        · rw [e, setPhase_same] at h
          cases h
        · rwa [setPhase_other _ _ e] at h
      · have ha := hand_acks hs (rfl : ackOf (.pubcomp mid) = some (mid, .done)) i
        by_cases e : mid = i
        · subst e
          rw [if_pos rfl] at ha
          refine ((hi.slots mid).done hp ha).sub ⟨setPhase_same _ _ _, ?_, List.Sublist.refl _,
            List.Sublist.refl _⟩
          exact List.Sublist.refl _
        · rw [if_neg e] at ha
          refine (hi.slots i).sub ⟨setPhase_other _ _ (Ne.symm e), ?_, List.Sublist.refl _, List.Sublist.refl _⟩
          rw [ha]
          exact List.Sublist.refl _
    · exact hrest
  | _ => exact hrest

/-! ## The client's moves -/

/-- Less is on its way to the client. -/
theorem inv_toClient {s : Session} (hi : SessionInv s) {l : List Down} (hl : l.Sublist s.toClient) :
    SessionInv { s with toClient := l } :=
  { hi with
    slots := fun i => (hi.slots i).sub ⟨rfl, List.Sublist.refl _, hl.filterMap _, List.Sublist.refl _⟩
    wire := fun i u b d h => hi.wire i u b d (hl.subset h) }

theorem toClient_upd (s : Session) (m : Mosq) : (s.upd m).toClient.Sublist s.toClient := by
  unfold Session.upd
  dsimp only
  split
  · exact List.Sublist.refl _
  · exact List.nil_sublist _

/-- A packet that loses at most something. -/
theorem inv_reads_loses {s : Session} {alloc : Alloc} {d : Down} (hi : SessionInv s)
    (hl : Loses (receive alloc s.m d.packet) s.m) :
    SessionInv (clientReads s alloc d) := by
  have h := hi.upd hl (storeOk_receive hi.store)
  have hn : newDeliveries (receive alloc s.m d.packet) s.m = [] := newDeliveries_append hl.delivered
  simp only [clientReads, hn, List.map_nil, List.nil_append]
  exact h

theorem lettersFor_self {mid : UInt16} {x : Letter} {l : List (UInt16 × Letter)} (h : l.Sublist [(mid, x)]) :
    (lettersFor mid l).Sublist [x] := by
  simpa [lettersFor] using lettersFor_sublist mid h

theorem lettersFor_other {mid i : UInt16} {x : Letter} {l : List (UInt16 × Letter)} (h : l.Sublist [(mid, x)])
    (hne : mid ≠ i) : lettersFor i l = [] := by
  have := lettersFor_sublist i h
  simpa [lettersFor, hne] using this

/-- A message is stored where nothing is. -/
theorem SessionInv.accept {s : Session} (hi : SessionInv s) {mid : UInt16} {uid : Nat} {a : AppMessage}
    {dup : Bool}
    {rest tc : List Down} (hs : s.toClient = .publish mid uid a dup :: rest) (htc : tc.Sublist rest)
    (hu : ∀ e ∈ (inb s.m).stored, e.mid ≠ mid) {m : Mosq} {e : Message} {l : List (UInt16 × Letter)}
    (hm : inb m = ⟨(inb s.m).stored ++ [e], (inb s.m).delivered, (inb s.m).acks ++ l⟩)
    (hl : l.Sublist [(mid, .got)])
    (he : e.mid = mid ∧ e.uid = uid ∧ e.qos = 2) (hc : SameContent s.sent e) (hst : StoreOk m.msgsOut.inflight) :
    SessionInv { s with m := m, toClient := tc } := by
  have hsub : tc.Sublist s.toClient := by rw [hs]; exact htc.cons _
  have hstored : (inb m).stored = (inb s.m).stored ++ [e] := by rw [hm]
  have hacks : (inb m).acks = (inb s.m).acks ++ l := by rw [hm]
  refine { hi with
    slots := fun i => ?_
    logged := by rw [hm]; exact hi.logged
    wire := fun i u b d h => hi.wire i u b d (hsub.subset h)
    stored := ?_
    store := hst }
  · by_cases hne : mid = i
    · subst hne
      have hnone : (hand s mid).stored = [] := by
        simp only [hand, uidsFor, List.map_eq_nil_iff, List.filter_eq_nil_iff]
        intro e he
        simpa using hu e he
      have hw : (hand s mid).wire = .pub uid :: rest.filterMap (itemFor mid) := by simp [hand, hs, itemFor]
      refine ((hi.slots mid).accept hw hnone).sub ⟨rfl, ?_, htc.filterMap _, ?_⟩
      · simp only [hand, hacks, ← List.append_assoc, lettersFor_append]
        exact (List.Sublist.refl _).append (lettersFor_self hl)
      · simp [hand, hstored, uidsFor, he]
    · refine (hi.slots i).sub ⟨rfl, ?_, hsub.filterMap _, ?_⟩
      · simp [hand, hacks, lettersFor_append, lettersFor_other hl hne]
      · simp [hand, hstored, uidsFor, he, hne]
  · intro e' he'
    rw [hstored] at he'
    rcases List.mem_append.mp he' with he' | he'
    · exact hi.stored e' he'
    · simp only [List.mem_singleton] at he'
      subst he'
      exact ⟨he.2.2, hc⟩

/-- A PUBREL is read: what was stored under its packet id is taken out and delivered. -/
theorem SessionInv.release {s : Session} (hi : SessionInv s) {mid : UInt16} {rest tc : List Down}
    (hs : s.toClient = .pubrel mid :: rest) (htc : tc.Sublist rest) {m : Mosq} {l : List (UInt16 × Letter)}
    (hm : inb m = ⟨(inb s.m).stored.eraseP (·.mid = mid),
      ((inb s.m).stored.find? (·.mid = mid)).toList ++ (inb s.m).delivered, (inb s.m).acks ++ l⟩)
    (hl : l.Sublist [(mid, .done)]) (hst : StoreOk m.msgsOut.inflight) :
    SessionInv { s with
      m := m, toClient := tc,
      log := (((inb s.m).stored.find? (·.mid = mid)).toList).map (fun msg => (msg, s.server msg.mid)) ++
        s.log } := by
  have hsub : tc.Sublist s.toClient := by rw [hs]; exact htc.cons _
  have hstored : (inb m).stored = (inb s.m).stored.eraseP (·.mid = mid) := by rw [hm]
  have hacks : (inb m).acks = (inb s.m).acks ++ l := by rw [hm]
  have hw : (hand s mid).wire = .rel :: rest.filterMap (itemFor mid) := by simp [hand, hs, itemFor]
  obtain ⟨hrel, hinv⟩ := (hi.slots mid).release hw
  have hone : (uidsFor mid (inb s.m).stored).length ≤ 1 := (hi.slots mid).single
  obtain ⟨hnil, huids⟩ := uidsFor_eraseP hone
  have hstd : (hand s mid).stored = (((inb s.m).stored.find? (·.mid = mid)).toList).map (·.uid) := huids.symm
  have hmem : ∀ e ∈ ((inb s.m).stored.find? (·.mid = mid)).toList, e ∈ (inb s.m).stored ∧ e.mid = mid := by
    intro e he
    have he := Option.mem_toList.mp he
    exact ⟨List.mem_of_find?_eq_some he, by simpa using List.find?_some he⟩
  generalize ((inb s.m).stored.find? (·.mid = mid)).toList = d at *
  have hgone : gone { s with m := m, toClient := tc,
                             log := d.map (fun msg => (msg, s.server msg.mid)) ++ s.log } =
      (hand s mid).stored ++ gone s := by simp [gone, hstd, Function.comp_def]
  have hphase : ∀ u ∈ (hand s mid).stored, s.server mid = .released u := hrel
  refine { hi with
    slots := fun i => ?_
    goneLt := ?_
    once := ?_
    logged := ?_
    current := ?_
    wire := fun i u b d h => hi.wire i u b d (hsub.subset h)
    stored := fun e he => hi.stored e (List.mem_of_mem_eraseP (hstored ▸ he))
    store := hst }
  · rw [hgone]
    by_cases hne : mid = i
    · subst hne
      refine hinv.sub ⟨rfl, ?_, htc.filterMap _, ?_⟩
      · simp only [hand, hacks, ← List.append_assoc, lettersFor_append]
        exact (List.Sublist.refl _).append (lettersFor_self hl)
      · simp [hand, hstored, hnil]
    · refine ((hi.slots i).grow ?_).sub ⟨rfl, ?_, hsub.filterMap _, ?_⟩
      · intro u hu hcur
        have hmid : (s.server mid).current = some u := by rw [hphase u hu]; rfl
        exact hne (hi.owner mid i u hmid hcur)
      · simp [hand, hacks, lettersFor_append, lettersFor_other hl hne]
      · simp only [hand, hstored]
        exact uidsFor_sublist i List.eraseP_sublist
  · intro u hu
    rw [hgone] at hu
    rcases List.mem_append.mp hu with hu | hu
    · exact hi.bound mid u (by rw [hphase u hu]; rfl)
    · exact hi.goneLt u hu
  · rw [hgone]
    refine List.nodup_append.mpr ⟨?_, hi.once, ?_⟩
    · rcases hstd' : (hand s mid).stored with _ | ⟨u, t⟩
      · exact List.nodup_nil
      · have ht : t = [] := by
          have : ((hand s mid).stored).length ≤ 1 := hone
          rw [hstd'] at this
          exact List.length_eq_zero_iff.mp (by simpa using this)
        simp [ht]
    · rintro u hu v hv rfl
      exact ((hi.slots mid).fresh u hv).2.2 hu
  · rw [hm]
    simp [hi.logged, Function.comp_def]
  · intro r hr
    rcases List.mem_append.mp hr with hr | hr
    · obtain ⟨e, he, rfl⟩ := List.mem_map.mp hr
      obtain ⟨hin, hmid⟩ := hmem e he
      refine ⟨?_, (hi.stored e hin).2⟩
      rw [hmid]
      exact hphase e.uid (by rw [hstd]; exact List.mem_map_of_mem he)
    · exact hi.current r hr

theorem clientReads_inv {s : Session} (hi : SessionInv s) {alloc : Alloc} {d : Down} {rest : List Down}
    (hs : s.toClient = d :: rest) (hg : Unstored s (.deliver alloc)) :
    SessionInv (clientReads { s with toClient := rest } alloc d) := by
  have hrest : SessionInv { s with toClient := rest } :=
    inv_toClient hi (by rw [hs]; exact List.sublist_cons_self ..)
  have htc : ∀ m, ({ s with toClient := rest }.upd m).toClient.Sublist rest :=
    toClient_upd { s with toClient := rest }
  cases d with
  | publish mid uid a dup =>
    cases hr : readPublish s.m (a.publishIn mid uid dup) with
    | error rc => exact inv_reads_loses hrest (.of_eq (inb_receive_refused hi.store (.inr ⟨rc, hr⟩)))
    | ok msg =>
      obtain ⟨hm, huid, hqos, htopic, hpay⟩ := AppMessage.read hr
      have hget := hi.wire mid uid a dup (by simp [hs])
      have hu : ∀ e ∈ (inb s.m).stored, e.mid ≠ mid := by
        have hg : Down.Unstored s.m (.publish mid uid a dup) := hg _ (by simp [hs])
        exact hg (by rw [hr]; rfl)
      have hinb := inb_receive_publish alloc hi.store hr rfl
      have hlog : newDeliveries (receive alloc s.m (.publish (a.publishIn mid uid dup))) s.m = [] :=
        newDeliveries_append (by rw [hinb]; rfl)
      have h := hi.accept hs (htc (receive alloc s.m (.publish (a.publishIn mid uid dup)))) hu hinb
        (by rw [hm]; split <;> simp) ⟨hm, huid, hqos⟩ ⟨a, huid.symm ▸ hget, htopic, hpay⟩
          (storeOk_receive hi.store)
      simp only [clientReads, Down.packet, hlog, List.map_nil, List.nil_append]
      exact h
  | pubrel mid =>
    cases hr : readPubrel s.m 0x62 (.ok mid) (.ok 0) with
    | error rc => exact inv_reads_loses hrest (.of_eq (inb_receive_unread hi.store hr))
    | ok i =>
      have hmid := readPubrel_ok hr
      cases hmid
      have hinb := inb_receive_pubrel alloc hi.store (fun e he => (hi.stored e he).1) hr
      cases ha : alloc (.pubcomp mid) with
      | false =>
        -- the message is dropped, as if it had been lost on its way
        simp only [ha, Bool.false_eq_true, if_false, List.nil_append, List.append_nil] at hinb
        have hl : Loses (receive alloc s.m (.pubrel 0x62 (.ok mid) (.ok 0))) s.m :=
          ⟨by rw [hinb]; exact List.eraseP_sublist, by rw [hinb], by rw [hinb]⟩
        exact inv_reads_loses hrest hl
      | true =>
        simp only [ha, if_true] at hinb
        have hlog := newDeliveries_append (congrArg Inb.delivered hinb)
        have h := hi.release hs (htc (receive alloc s.m (.pubrel 0x62 (.ok mid) (.ok 0)))) hinb
          (List.Sublist.refl _) (storeOk_receive hi.store)
        simp only [clientReads, Down.packet, hlog]
        exact h
  | other p hp => exact inv_reads_loses hrest (loses_receive hi.store hp)

/-- What the client writes goes from its queue to the server. -/
theorem inv_write {s : Session} (hi : SessionInv s) :
    SessionInv { s.upd (writeOne s.m) with toServer := s.toServer ++ (nextWritten s.m).toList } := by
  obtain ⟨hstored, hdel, hacks⟩ := inb_writeOne s.m
  have htc := toClient_upd s (writeOne s.m)
  refine { hi with
    slots := fun i => (hi.slots i).sub ⟨rfl, ?_, htc.filterMap _, ?_⟩
    logged := hi.logged.trans hdel.symm
    wire := fun i u b d h => hi.wire i u b d (htc.subset h)
    stored := fun e he => hi.stored e (hstored ▸ he)
    store := by rw [Session.upd, msgsOut_writeOne]; exact hi.store }
  · simp only [hand, hacks, List.filterMap_append, List.append_assoc]
    exact List.Sublist.refl _
  · exact uidsFor_sublist i (by rw [← hstored]; exact List.Sublist.refl _)

theorem move_inv {s s' : Session} {a : Move} (hi : SessionInv s) (hg : Unstored s a) (h : move s a = some s') :
    SessionInv s' := by
  have hqos : ∀ e ∈ s.m.msgsIn.inflight, e.qos = 2 := fun e he => (hi.stored e he).1
  cases a with
  | publish mid a =>
    simp only [move] at h
    split at h
    · rename_i hc
      cases h
      exact inv_republish (inv_offer hi hc.1 a) (setPhase_same _ _ _) (by simp)
    · cases h
  | republish mid =>
    simp only [move] at h
    split at h
    · rename_i uid hp
      split at h
      · rename_i a ha
        cases h
        exact inv_republish hi hp ha
      · cases h
    · cases h
  | rerelease mid =>
    simp only [move] at h
    split at h
    · rename_i uid hp
      cases h
      exact inv_rerelease hi hp
    · cases h
  | other p hp =>
    cases h
    exact inv_other hi p hp
  | serve =>
    simp only [move] at h
    split at h
    · cases h
    · rename_i p rest hs
      cases h
      exact serve_inv hi hs
  | deliver alloc =>
    simp only [move] at h
    split at h
    · cases h
    · rename_i d rest hs
      split at h
      · cases h
        exact clientReads_inv hi hs hg
      · cases h
  | write =>
    cases h
    exact inv_write hi
  | cut arrive =>
    have htake := inv_toServer hi (List.take_sublist arrive s.toServer)
    simp only [move] at h
    split at h
    · cases h
      exact htake.upd (.of_eq rfl) hi.store
    · cases h
      exact htake
  | reconnect env =>
    cases h
    exact hi.upd (loses_mosquittoReconnect env [] hqos) (storeOk_mosquittoReconnect env [] hi.store)
  | connect env c =>
    cases h
    exact hi.upd (loses_connectAgain env c hqos) (storeOk_connectAgain env c hi.store)
  | appPublish alloc a =>
    simp only [move] at h
    split at h
    · cases h
    · cases h
      exact hi.upd (.of_eq (inb_mosquittoPublishV5 alloc s.m a)) (storeOk_publish alloc s.m a hi.store)

theorem init_inv {s : Session} (h : IsInit s) : SessionInv s := by
  obtain ⟨id, rfl⟩ := h
  refine ⟨fun mid => ?_, ?_, ?_, ?_, ?_, rfl, ?_, ?_, ?_, ?_⟩
  · exact inv_free
  all_goals simp [gone, Session.init, Phase.current, inb, Mosq.new, StoreOk]

/-- In every run in which no PUBLISH is accepted beside a stored message with its packet id, every message
    is delivered at most once, and it is the one that the server is releasing. -/
theorem delivers_once {s : Session} (h : Machine.Reach move IsInit Unstored s) : ExactlyOnce s :=
  (h.inv (fun _ => init_inv) (fun _ _ _ hi hg hs => move_inv hi hg hs)).exactlyOnce

/-! ## Runs -/

/-- A CONNACK that accepts; the server had a session or not. -/
def accepted (sessionPresent : UInt8) : Move := .other (.connack (.ok sessionPresent) (.ok 0) (.ok [])) rfl

def hello : AppMessage := ⟨.of [116], [104, 105], false, []⟩

def deliver : Move := .deliver RecEnv.good.alloc

def goodRun : List Move :=
  [.connect .good .plain, accepted 0, deliver, .publish 1 hello, deliver, .write, .write, .serve, .serve, deliver]

/-- A PUBREC is lost with its connection, and the message is published again; then a PUBCOMP is. -/
def lostPubrec : List Move :=
  [.connect .good .plain, accepted 0, deliver, .publish 1 hello, deliver, .cut 0,
   .reconnect .good, accepted 1, deliver, .republish 1, deliver, .write, .write, .serve, .serve, deliver, .cut 0,
   .reconnect .good, accepted 1, deliver, .rerelease 1, deliver]

theorem delivers_once_goodRun : ∃ s, Machine.run move (Session.init none) goodRun = some s ∧
    (deliveries s.m.trace).map (·.uid) = [0] ∧ ExactlyOnce s := by
  have hm : Machine.Meets move Unstored (Session.init none) goodRun := by decide
  have hr : (Machine.run move (Session.init none) goodRun).map (fun s => (deliveries s.m.trace).map (·.uid)) =
      some [0] := by decide
  obtain ⟨s, hs, hreach, hd⟩ := Machine.reach_of_map IsInit ⟨none, rfl⟩ hm hr
  exact ⟨s, hs, hd, delivers_once hreach⟩

/-- The client stores the message beside itself, and delivers it twice. -/
theorem lostPubrec_delivers_twice : ¬ ∀ s, Machine.Reach move IsInit Machine.anyAct s → ExactlyOnce s := by
  intro h
  have hr : (Machine.run move (Session.init none) lostPubrec).map (fun s => (deliveries s.m.trace).map (·.uid)) =
      some [0, 0] := by decide
  obtain ⟨s, hs, hd⟩ := Machine.reach_of_map_any IsInit ⟨none, rfl⟩ hr
  have := (h s hs).once
  simp [hd] at this

end Artemisia.Inbound
