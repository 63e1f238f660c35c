/-
  Artemisia.Inbound.Window — a server that stays within the Receive Maximum of the client, and whether a
  PUBLISH of its is ever refused because `msgs_in.inflight_quota` is 0.

  A session with what it left out: the server publishes with QoS 1 too, counts the packet ids it has out, of
  either QoS, and sends a PUBLISH only if the count is within the Receive Maximum of the newest CONNECT. `refused`
  only records.

  Proved:
  - `window_step`:          a step that meets the guard keeps enough quota for everything that is on its way.
  - `never_refused`:        so in a run of such steps no PUBLISH is refused.
  - `resent_refused`:       a PUBLISH that is sent again because its PUBREC was lost is, with a Receive
                            Maximum of 1.
  - `lowered_refused`:      so is one after a connect() that was refused itself, but has set a lower maximum.
-/
import Artemisia.Lib.Credit
import Artemisia.Threads.Moves
import Artemisia.Inbound.ExactlyOnce
import Artemisia.Inbound.ReceiveQuota

namespace Artemisia.Inbound

open Artemisia.Property Artemisia.Client Credit

/-! ## The server's count -/

structure Windowed where
  s : Session
  /-- The packet ids that the server has out with QoS 1, and with QoS 2. -/
  qos1 : List UInt16
  qos2 : List UInt16
  /-- The Receive Maximum of the newest CONNECT, `none` for v3. -/
  limit : Option Nat
  refused : Bool

def Windowed.init (id : Option Bytes) : Windowed := ⟨Session.init id, [], [], none, false⟩

def IsStart (w : Windowed) : Prop := ∃ id, w = Windowed.init id

def Windowed.outstanding (w : Windowed) : Nat := w.qos1.length + w.qos2.length

/-- So many packet ids are within the window. -/
def Windowed.Within (w : Windowed) (n : Nat) : Prop := ∀ r ∈ w.limit, n ≤ r

inductive WindowMove where
  | session (a : Move)
  | publishQos1 (mid : UInt16) (a : AppMessage)
  | republishQos1 (mid : UInt16) (a : AppMessage)

def AppMessage.publishQos1 (a : AppMessage) (mid : UInt16) (dup : Bool) : Down :=
  .other (.publish { a.publishIn mid 0 dup with qos := 1 }) rfl

def aboveQos0 : InPacket → Bool
  | .publish p => p.qos > 0
  | _ => false

/-- What the server may do in its session. -/
def Windowed.Allows (w : Windowed) : Move → Prop
  | .publish mid _ => mid ∉ w.qos1 ∧ w.Within (w.outstanding + 1)
  | .republish _ => w.Within w.outstanding
  | .other p _ => aboveQos0 p = false
  | _ => True

/-- The client reads a PUBLISH and refuses it for the quota. -/
def Down.refusedBy (m : Mosq) (d : Down) : Bool :=
  match d.packet with
  | .publish p => refusedForQuota m p
  | _ => false

/-- A new socket has a CONNECT of its own. -/
def limitAfter (limit : Option Nat) (m' m : Mosq) : Option Nat :=
  if m'.sock.isSome ∧ m'.sock ≠ m.sock then announced m' else limit

/-- The packet ids out after a move: one more is published, one has its PUBACK, those of the session that are free
    are not out. -/
def Windowed.after (w : Windowed) (a : Move) (s : Session) : Windowed where
  s := s
  qos1 := match a, w.s.toServer with
    | .serve, .puback mid _ :: _ => w.qos1.erase mid
    | _, _ => w.qos1
  qos2 := (match a with
    | .publish mid _ => mid :: w.qos2
    | _ => w.qos2).filter (fun i => s.server i ≠ Handshake.Phase.idle)
  limit := limitAfter w.limit s.m w.s.m
  refused := w.refused || match a with
    | .deliver _ => w.s.toClient.head?.any (·.refusedBy w.s.m)
    | _ => false

instance (w : Windowed) (n : Nat) : Decidable (w.Within n) := inferInstanceAs (Decidable (∀ r ∈ w.limit, n ≤ r))

instance (w : Windowed) : (a : Move) → Decidable (w.Allows a)
  | .publish .. => inferInstanceAs (Decidable (_ ∧ _))
  | .republish _ => inferInstanceAs (Decidable (w.Within _))
  | .other .. => inferInstanceAs (Decidable (_ = _))
  | .rerelease _ | .serve | .deliver _ | .write | .cut _ | .reconnect _ | .connect ..
  | .appPublish .. => isTrue trivial

def windowMove (w : Windowed) : WindowMove → Option Windowed
  | .session a => if w.Allows a then (move w.s a).map (w.after a) else none
  | .publishQos1 mid a =>
    if mid ∉ w.qos1 ∧ w.s.server mid = .idle ∧ mid ≠ 0 ∧ w.Within (w.outstanding + 1) then
      some { w with s := w.s.send (a.publishQos1 mid false), qos1 := mid :: w.qos1 }
    else none
  | .republishQos1 mid a =>
    if mid ∈ w.qos1 ∧ w.Within w.outstanding then some { w with s := w.s.send (a.publishQos1 mid true) } else none

/-! ## The guard -/

/-- A QoS 2 PUBLISH is not handled while a message with its packet id is stored. -/
def Down.Unheld (m : Mosq) : Down → Prop
  | .publish mid _ a _ => m.state = .active → a.topic.bytes ≠ [] → ∀ e ∈ m.msgsIn.inflight, e.mid ≠ mid
  | _ => True

def HandlesUnheld (w : Windowed) : WindowMove → Prop
  | .session (.deliver _) => ∀ d ∈ w.s.toClient.head?, d.Unheld w.s.m
  | _ => True

/-- A connect() that is refused does not set a Receive Maximum below the one that the open connection has
    announced. -/
def KeepsMaximum (w : Windowed) : WindowMove → Prop
  | .session (.connect _ c) => w.s.m.sock.isSome → Refused c → c.protocolVersion = .mqtt5 →
      ∃ r ∈ w.limit, r ≤ (w.s.m.msgsIn.setMaximum c.receiveMaximum).inflightMaximum
  | _ => True

/-- The guard of the runs below. -/
def KeepsWindow (w : Windowed) (a : WindowMove) : Prop := HandlesUnheld w a ∧ KeepsMaximum w a

instance (m : Mosq) : (d : Down) → Decidable (d.Unheld m)
  | .publish .. => inferInstanceAs (Decidable (_ → _))
  | .pubrel _ | .other .. => isTrue trivial

instance (w : Windowed) : (a : WindowMove) → Decidable (HandlesUnheld w a)
  | .session (.deliver _) => inferInstanceAs (Decidable (∀ d ∈ w.s.toClient.head?, d.Unheld w.s.m))
  | .session (.publish ..) | .session (.republish _) | .session (.rerelease _) | .session (.other ..)
  | .session .serve
  | .session .write | .session (.cut _) | .session (.reconnect _) | .session (.connect ..)
  | .session (.appPublish ..)
  | .publishQos1 .. | .republishQos1 .. => isTrue trivial

instance (w : Windowed) : (a : WindowMove) → Decidable (KeepsMaximum w a)
  | .session (.connect ..) => inferInstanceAs (Decidable (_ → _))
  | .session (.publish ..) | .session (.republish _) | .session (.rerelease _) | .session (.other ..)
  | .session .serve
  | .session (.deliver _) | .session .write | .session (.cut _) | .session (.reconnect _)
  | .session (.appPublish ..)
  | .publishQos1 .. | .republishQos1 .. => isTrue trivial

instance (w : Windowed) (a : WindowMove) : Decidable (KeepsWindow w a) := inferInstanceAs (Decidable (_ ∧ _))

/-! ## What is on its way -/

/-- A QoS 2 message stays until it is released. -/
def Down.item : Down → Option (Item UInt16)
  | .publish mid .. => some (.stays mid)
  | .pubrel _ => none
  | .other p _ => if aboveQos0 p then some .passes else none

def onWay (l : List Down) : List (Item UInt16) := l.filterMap Down.item

/-- The packet ids of the messages stored. -/
def held (m : Mosq) : Finset UInt16 := ((inb m).stored.map (·.mid)).toFinset

/-- The client has the quota for all that is on its way. -/
structure Ready (limit : Option Nat) (m : Mosq) (l : List Down) : Prop where
  known : m.sock.isSome → m.protocol = .mqtt5 → limit.isSome
  room : m.sock.isSome → ∀ r ∈ limit, Room r m.msgsIn
  fits : ∀ r ∈ limit, Fits r (held m) (onWay l)
  away : m.sock = none → l = []
  numbered : ∀ k ∈ m.sock, k < m.conns

structure WindowInv (w : Windowed) : Prop where
  session : SessionInv w.s
  busy : ∀ i, w.s.server i ≠ .idle → i ∈ w.qos2
  ready : Ready w.limit w.s.m w.s.toClient
  unrefused : w.refused = false

section Clients

variable {limit : Option Nat} {m m' : Mosq} {l : List Down}

theorem mem_held {i : UInt16} : i ∈ held m ↔ ∃ e ∈ (inb m).stored, e.mid = i := by simp [held]

theorem held_sublist (h : (inb m').stored.Sublist (inb m).stored) : held m' ⊆ held m := by
  intro i hi
  obtain ⟨e, he, hm⟩ := mem_held.mp hi
  exact mem_held.mpr ⟨e, h.subset he, hm⟩

/-- What the client can do: its connection goes on, or ends, or a new one begins. -/
inductive Goes (limit : Option Nat) (m' m : Mosq) (l : List Down) : Prop where
  | on : m'.sock = m.sock → m'.conns = m.conns → (m'.sock.isSome → m'.protocol = .mqtt5 → limit.isSome) →
      (m'.sock.isSome → ∀ r ∈ limit, Room r m'.msgsIn) → (∀ r ∈ limit, Fits r (held m') (onWay l)) →
        Goes limit m' m l
  | ends : m'.sock = none → Goes limit m' m l
  | opens : Opens m' m → Goes limit m' m l

theorem Goes.ready (hg : Goes limit m' m l) (haway : m.sock = none → l = []) (hnum : ∀ k ∈ m.sock, k < m.conns) :
    Ready (limitAfter limit m' m) m' (if m'.sock = m.sock then l else []) := by
  cases hg with
  | on hs hc hknown hroom hfits =>
    rw [limitAfter, if_neg (fun h => h.2 hs), if_pos hs]
    exact ⟨hknown, hroom, hfits, fun h => haway (hs ▸ h), fun k hk => hc ▸ hnum k (hs ▸ hk)⟩
  | ends hs =>
    have hl : (if m'.sock = m.sock then l else []) = [] := by
      split
      · rename_i he
        exact haway (he ▸ hs)
      · rfl
    rw [limitAfter, if_neg (by simp [hs]), hl]
    exact ⟨fun h => by simp [hs] at h, fun h => by simp [hs] at h, fun _ _ => trivial, fun _ => rfl,
      fun k hk => by simp [hs] at hk⟩
  | opens ho =>
    have hne : m'.sock ≠ m.sock := by
      intro he
      have := hnum m.conns (he ▸ ho.sock)
      omega
    rw [limitAfter, if_pos ⟨by simp [ho.sock], hne⟩, if_neg hne]
    refine ⟨fun _ => ho.known, fun _ => ho.room, fun _ _ => trivial, fun h => by simp [ho.sock] at h,
      fun k hk => ?_⟩
    rw [ho.sock, Option.mem_some_iff] at hk
    rw [ho.conns, ← hk]
    exact Nat.lt_succ_self _

/-- The connection goes on, and no message is stored that was not. -/
theorem Ready.goes (hi : Ready limit m l) (hs : m'.sock = m.sock) (hc : m'.conns = m.conns)
    (hp : m'.protocol = m.protocol)
    (hr : ∀ r, Room r m.msgsIn → Room r m'.msgsIn) (hh : held m' ⊆ held m) : Goes limit m' m l :=
  .on hs hc (fun h h5 => hi.known (hs ▸ h) (hp ▸ h5)) (fun h r hm => hr r (hi.room (hs ▸ h) r hm))
    (fun r hm => (hi.fits r hm).mono hh)

/-! ## The client -/

theorem conn_receive (alloc : Alloc) (m : Mosq) (p : InPacket) : (receive alloc m p).sock = none ∨
    ((receive alloc m p).sock = m.sock ∧ (receive alloc m p).conns = m.conns ∧
    (receive alloc m p).protocol = m.protocol) := by
  have hswitch (r : UInt8) (m : Mosq) : (connackSwitch alloc m r).1.sock = m.sock ∧
  (connackSwitch alloc m r).1.conns = m.conns ∧
      (connackSwitch alloc m r).1.protocol = m.protocol := by
    obtain ⟨c, hc⟩ := Threads.connackSwitch_state alloc m r
    exact ⟨congrArg Conn.sock hc, congrArg Conn.conns hc, congrArg Conn.protocol hc⟩
  rcases conn_handlePacket alloc m p with ⟨hc, -, -⟩ | ⟨hd, -⟩
  · have hsame : (handlePacket alloc m p).1.sock = m.sock ∧ (handlePacket alloc m p).1.conns = m.conns ∧
        (handlePacket alloc m p).1.protocol = m.protocol :=
          ⟨sock_of_conn hc, conns_of_conn hc, protocol_of_conn hc⟩
    unfold receive
    dsimp only
    split
    · split
      · exact .inr hsame
      · exact .inl rfl
    · rename_i r _ _
      obtain ⟨h1, h2, h3⟩ := hswitch r (handlePacket alloc m p).1
      split
      · exact .inr ⟨h1.trans hsame.1, h2.trans hsame.2.1, h3.trans hsame.2.2⟩
      · exact .inl rfl
    · exact .inl rfl
    · exact .inr hsame
  · left
    unfold receive
    rw [hd]
    rfl

/-- What a packet leaves stored, the next ones find. -/
theorem fits_receive {r : Nat} {alloc : Alloc} {d : Down} (hst : StoreOk m.msgsOut.inflight)
    (h2 : ∀ e ∈ m.msgsIn.inflight, e.qos = 2)
    (hf : Fits r (held m) (onWay (d :: l))) : Fits r (held (receive alloc m d.packet)) (onWay l) := by
  cases d with
  | publish mid uid a dup =>
    cases hr : readPublish m (a.publishIn mid uid dup) with
    | error rc =>
      have he : inb (receive alloc m (.publish (a.publishIn mid uid dup))) = inb m :=
        inb_receive_refused hst (.inr ⟨rc, hr⟩)
      refine Fits.mono (Fits.tail hf) ?_
      rw [held, Down.packet, he]
      exact Finset.Subset.refl _
    | ok msg =>
      have he := inb_receive_publish alloc hst hr rfl
      have hmid : msg.mid = mid := (AppMessage.read hr).1
      refine Fits.mono hf.2 ?_
      rw [held, Down.packet, he]
      simp [held, hmid]
  | pubrel mid =>
    refine Fits.mono hf (held_sublist ?_)
    rw [Down.packet]
    cases hr : readPubrel m 0x62 (.ok mid) (.ok 0) with
    | error rc => rw [inb_receive_unread hst hr]
    | ok i =>
      rw [inb_receive_pubrel alloc hst h2 hr]
      exact List.eraseP_sublist
  | other p hp =>
    refine Fits.mono ?_ (held_sublist (loses_receive hst hp).stored)
    rw [onWay, List.filterMap_cons] at hf
    split at hf
    · exact hf
    · exact hf.tail

theorem goes_receive {alloc : Alloc} {d : Down} (hi : Ready limit m (d :: l)) (hst : StoreOk m.msgsOut.inflight)
    (h2 : ∀ e ∈ m.msgsIn.inflight, e.qos = 2) : Goes limit (receive alloc m d.packet) m l := by
  rcases conn_receive alloc m d.packet with h | ⟨hs, hc, hp⟩
  · exact .ends h
  · exact .on hs hc (fun h h5 => hi.known (hs ▸ h) (hp ▸ h5)) (fun h r hm => room_receive (hi.room (hs ▸ h) r hm))
      (fun r hm => fits_receive hst h2 (hi.fits r hm))

theorem goes_write (hi : Ready limit m l) : Goes limit (writeOne m) m l := by
  have hstored : held (writeOne m) ⊆ held m := held_sublist (by rw [(inb_writeOne m).1])
  have hroom (r : Nat) (h : Room r m.msgsIn) : Room r (writeOne m).msgsIn := by
    rw [msgsIn_writeOne]
    exact h
  rcases Threads.conn_packetWrite m .success 1 with ⟨hd, hc⟩ | ⟨⟨rc, hd⟩, hc⟩
  · refine .ends ?_
    unfold writeOne
    split
    · rename_i e
      simp [e] at hd
    · rename_i e
      rw [e] at hc
      exact congrArg Conn.sock hc
  · have hw : (writeOne m).conn = m.conn := by
      unfold writeOne
      split
      · rename_i e
        rw [e] at hc
        exact hc
      · rename_i e
        simp [e] at hd
    exact hi.goes (sock_of_conn hw) (conns_of_conn hw) (protocol_of_conn hw) hroom hstored

theorem goes_publish (alloc : Alloc) (a : PublishArgs) (hi : Ready limit m l) :
    Goes limit (mosquittoPublishV5 alloc m a).1 m l := by
  have hc := conn_mosquittoPublishV5 alloc m a
  refine hi.goes (sock_of_conn hc) (conns_of_conn hc) (protocol_of_conn hc) (fun r h => ?_) (held_sublist ?_)
  · rw [msgsIn_mosquittoPublishV5]
    exact h
  · rw [inb_mosquittoPublishV5]

theorem goes_reconnect (env : RecEnv) (hi : Ready limit m l) : Goes limit (mosquittoReconnect env [] m) m l := by
  rcases mosquittoReconnect_opens env [] m with ⟨h, -⟩ | h | h
  · rw [h]
    exact hi.goes rfl rfl rfl (fun _ h => h) (Finset.Subset.refl _)
  · exact .ends h
  · exact .opens h

/-- A connect() that is refused keeps the connection and the quota, but not the maximum. -/
theorem goes_connect (env : RecEnv) {c : ConnectConfig} (hi : Ready limit m l)
    (h2 : ∀ e ∈ m.msgsIn.inflight, e.qos = 2)
    (hg : m.sock.isSome → Refused c → c.protocolVersion = .mqtt5 →
      ∃ r ∈ limit, r ≤ (m.msgsIn.setMaximum c.receiveMaximum).inflightMaximum) :
    Goes limit (connectAgain env c m) m l := by
  have hheld : held (connectAgain env c m) ⊆ held m := held_sublist (loses_connectAgain env c h2).stored
  have hfits (r : Nat) (hm : r ∈ limit) : Fits r (held (connectAgain env c m)) (onWay l) :=
    (hi.fits r hm).mono hheld
  by_cases hr : Refused c
  · have he := connectAgain_refused env m hr
    obtain ⟨hs, hc, hp⟩ := setupMosquitto_conn m c
    rw [← he] at hs hc hp
    refine .on hs hc (fun h h5 => ?_) (fun h r hm => ?_) hfits
    · obtain ⟨r, hmem, -⟩ := hg (hs ▸ h) hr (hp.symm.trans h5)
      exact Option.isSome_iff_exists.mpr ⟨r, hmem⟩
    · have hroom := hi.room (hs ▸ h) r hm
      rw [he, setupMosquitto_msgsIn]
      split
      · rename_i h5
        obtain ⟨r', hmem, hle⟩ := hg (hs ▸ h) hr h5
        obtain rfl : r' = r := Option.mem_unique hmem hm
        exact ⟨hle, hroom.quota⟩
      · exact hroom
  · rcases connectAgain_opens env m hr with ⟨hs, hc, hp, hin⟩ | h | h
    · refine .on hs hc (fun _ h5 => absurd h5 hp) (fun h r hm => ?_) hfits
      rw [hin]
      exact Room.full (hi.room (hs ▸ h) r hm).maximum
    · exact .ends h
    · exact .opens h

end Clients

/-! ## The server -/

section Servers

variable {w : Windowed} {s s' : Session}

theorem busy_of_current {i : UInt16} {u : Nat} (h : (s.server i).current = some u) : s.server i ≠ .idle := by
  intro he
  rw [he] at h
  cases h

/-- What is stored is out. -/
theorem WindowInv.held_busy (hi : WindowInv w) : held w.s.m ⊆ w.qos2.toFinset := by
  intro i hmem
  obtain ⟨e, he, rfl⟩ := mem_held.mp hmem
  have hu : e.uid ∈ (hand w.s e.mid).stored := List.mem_map_of_mem (List.mem_filter.mpr ⟨he, by simp⟩)
  exact List.mem_toFinset.mpr (hi.busy _ (busy_of_current ((hi.session.slots e.mid).stored _ hu)))

theorem WindowInv.way_busy (hi : WindowInv w) : staying (onWay w.s.toClient) ⊆ w.qos2.toFinset := by
  intro i hmem
  obtain ⟨x, hx, hi'⟩ := List.mem_filterMap.mp (List.mem_toFinset.mp hmem)
  obtain ⟨d, hd, hdx⟩ := List.mem_filterMap.mp hx
  cases d with
  | publish mid uid a dup =>
    cases hdx
    cases hi'
    have hw : Handshake.Item.pub uid ∈ (hand w.s i).wire := List.mem_filterMap.mpr ⟨_, hd, by simp [itemFor]⟩
    exact List.mem_toFinset.mpr (hi.busy _ (busy_of_current ((hi.session.slots i).wire _ hw)))
  | pubrel mid => cases hdx
  | other p hp =>
    rw [Down.item] at hdx
    split at hdx
    · cases hdx
      cases hi'
    · cases hdx

/-- No two of the messages stored have one packet id. -/
theorem card_held (hi : SessionInv s) : (held s.m).card = s.m.msgsIn.inflight.length := by
  have hone : ((inb s.m).stored.map (·.mid)).Nodup := by
    refine List.nodup_iff_count_le_one.mpr fun i => ?_
    have h : (uidsFor i (inb s.m).stored).length ≤ 1 := (hi.slots i).single
    rw [uidsFor, List.length_map] at h
    rw [List.count, List.countP_map, List.countP_eq_length_filter]
    exact h
  rw [held, List.toFinset_card_of_nodup hone, List.length_map]
  rfl

/-- A PUBLISH that finds nothing stored under its packet id has its quota. -/
theorem WindowInv.not_refused (hi : WindowInv w) {d : Down} {rest : List Down} (hd : w.s.toClient = d :: rest)
    (hu : d.Unheld w.s.m) : d.refusedBy w.s.m = false := by
  by_contra hr
  rw [Bool.not_eq_false] at hr
  have hsock : w.s.m.sock.isSome := by
    rw [Option.isSome_iff_ne_none]
    intro h
    rw [hi.ready.away h] at hd
    cases hd
  have hcard := card_held hi.session
  -- the quota is 0, and so the messages stored are as many as the server may have out
  have hfull (p : PublishIn) (hp : refusedForQuota w.s.m p = true) :
      w.s.m.state = .active ∧ (∃ t, p.topic = .ok t ∧ t.bytes ≠ []) ∧ p.qos > 0 ∧
        ∃ r ∈ w.limit, r ≤ (held w.s.m).card := by
    simp only [refusedForQuota, comesToQuota, decide_eq_true_eq] at hp
    obtain ⟨⟨hs, ht, hq, h5⟩, hz⟩ := hp
    obtain ⟨r, hmem⟩ := Option.isSome_iff_exists.mp (hi.ready.known hsock h5)
    have hroom := (hi.ready.room hsock r hmem).quota
    refine ⟨hs, ?_, hq, r, hmem, by omega⟩
    cases htop : p.topic with
    | error rc => simp [htop, Except.toOption] at ht
    | ok t => exact ⟨t, rfl, by simpa [htop, Except.toOption] using ht⟩
  cases d with
  | publish mid uid a dup =>
    obtain ⟨hs, ⟨t, ht, hne⟩, -, r, hmem, hle⟩ := hfull _ hr
    cases ht
    have hnot : mid ∉ held w.s.m := fun h => by
      obtain ⟨e, he, hm⟩ := mem_held.mp h
      exact hu hs hne e he hm
    have hfit := hi.ready.fits r hmem
    rw [hd] at hfit
    have := hfit.1
    rw [Finset.card_insert_of_notMem hnot] at this
    omega
  | pubrel mid => cases hr
  | other p hp =>
    cases p with
    | publish p =>
      obtain ⟨-, -, hq, r, hmem, hle⟩ := hfull p hr
      have hfit := hi.ready.fits r hmem
      have hitem : onWay (Down.other (.publish p) hp :: rest) = .passes :: onWay rest := by
        simp [onWay, Down.item, aboveQos0, hq]
      rw [hd, hitem] at hfit
      exact absurd hfit.1 (Nat.not_lt.mpr hle)
    | _ => cases hr

theorem send_server (s : Session) (d : Down) : (s.send d).server = s.server ∧ (s.send d).m = s.m := by
  unfold Session.send
  split <;> exact ⟨rfl, rfl⟩

theorem limitAfter_same {limit : Option Nat} {m' m : Mosq} (h : m'.sock = m.sock) :
    limitAfter limit m' m = limit :=
  if_neg fun hc => hc.2 h

/-- What the server sends within its window finds its quota. -/
theorem WindowInv.send (hi : WindowInv w) {d : Down} (hd : ∀ r ∈ w.limit, ∀ x ∈ d.item, x.Fits r w.qos2.toFinset)
    (hm : s.m = w.s.m) (hl : s.toClient = w.s.toClient) :
    Ready (limitAfter w.limit (s.send d).m w.s.m) (s.send d).m (s.send d).toClient := by
  rw [(send_server s d).2, hm, limitAfter_same rfl]
  unfold Session.send
  rw [hm, hl]
  split
  · rename_i hsock
    refine { hi.ready with
      fits := fun r hr => ?_
      away := fun h => by simp [h] at hsock }
    show Fits r _ (onWay (w.s.toClient ++ [d]))
    have hadd : onWay (w.s.toClient ++ [d]) = onWay w.s.toClient ++ d.item.toList := by
      rw [onWay, List.filterMap_append]
      cases hx : d.item <;> simp [onWay, hx]
    rw [hadd]
    cases hx : d.item with
    | none =>
      rw [Option.toList_none, List.append_nil]
      exact hi.ready.fits r hr
    | some x => exact (hi.ready.fits r hr).push hi.held_busy hi.way_busy (hd r hr x hx)
  · rw [hl]
    exact hi.ready

/-- One more packet id with QoS 2. -/
theorem fits_publish {mid : UInt16} {uid : Nat} {a : AppMessage} {dup : Bool} {n r : Nat}
    (hn : w.qos2.length + 1 ≤ n)
    (hr : n ≤ r) : ∀ x ∈ (Down.publish mid uid a dup).item, x.Fits r w.qos2.toFinset := by
  intro x hx
  cases hx
  have h1 := Finset.card_insert_le mid w.qos2.toFinset
  have h2 := List.toFinset_card_le w.qos2
  show (insert mid w.qos2.toFinset).card ≤ r
  omega

/-- One that is out already. -/
theorem fits_republish {mid : UInt16} {uid : Nat} {a : AppMessage} {dup : Bool} {r : Nat} (hmem : mid ∈ w.qos2)
    (hr : w.qos2.length ≤ r) : ∀ x ∈ (Down.publish mid uid a dup).item, x.Fits r w.qos2.toFinset := by
  intro x hx
  cases hx
  have h2 := List.toFinset_card_le w.qos2
  show (insert mid w.qos2.toFinset).card ≤ r
  rw [Finset.insert_eq_of_mem (List.mem_toFinset.mpr hmem)]
  omega

theorem fits_qos1 {mid : UInt16} {a : AppMessage} {dup : Bool} {r : Nat} (hr : w.qos2.length < r) :
    ∀ x ∈ (a.publishQos1 mid dup).item, x.Fits r w.qos2.toFinset := by
  intro x hx
  have hx : some Item.passes = some x := hx
  cases hx
  exact (List.toFinset_card_le w.qos2).trans_lt hr

theorem serve_busy {p : Packet} {i : UInt16} (hne : (serve s p).server i ≠ .idle) : s.server i ≠ .idle := by
  cases p with
  | pubrec mid r =>
    simp only [serve] at hne
    split at hne
    · rename_i uid hp
      rw [(send_server ..).1] at hne
      by_cases hm : i = mid
      · rw [hm, hp]
        simp
      · simpa [setPhase, hm] using hne
    · exact hne
  | pubcomp mid =>
    simp only [serve] at hne
    split at hne
    · by_cases hm : i = mid
      · simp [setPhase, hm] at hne
      · simpa [setPhase, hm] using hne
    · exact hne
  | _ => exact hne

/-- A packet id is out because it was, or because a message is published under it. -/
theorem move_busy {a : Move} (h : move s a = some s') {i : UInt16} (hne : s'.server i ≠ .idle) :
    s.server i ≠ .idle ∨ ∃ b, a = .publish i b := by
  have hsame (hs : s'.server = s.server) : s.server i ≠ .idle ∨ ∃ b, a = .publish i b := .inl (hs ▸ hne)
  cases a with
  | publish mid b =>
    simp only [move] at h
    split at h
    · cases h
      rw [(send_server ..).1] at hne
      by_cases hm : i = mid
      · exact .inr ⟨b, by rw [hm]⟩
      · exact .inl (by simpa [setPhase, hm] using hne)
    · cases h
  | republish mid =>
    simp only [move] at h
    repeat' split at h
    · cases h
      exact hsame (send_server ..).1
    all_goals cases h
  | rerelease mid =>
    simp only [move] at h
    split at h
    · cases h
      exact hsame (send_server ..).1
    · cases h
  | other p hp =>
    cases h
    exact hsame (send_server ..).1
  | serve =>
    simp only [move] at h
    split at h
    · cases h
    · rename_i p rest hs
      cases h
      exact .inl (serve_busy (s := { s with toServer := rest }) hne)
  | cut n =>
    simp only [move] at h
    split at h
    all_goals
      cases h
      exact hsame rfl
  | _ =>
    simp only [move] at h
    repeat' split at h
    all_goals first
      | cases h
        exact hsame rfl
      | cases h

theorem WindowInv.after_busy (hi : WindowInv w) {a : Move} (h : move w.s a = some s') {i : UInt16}
    (hne : s'.server i ≠ .idle) :
    i ∈ (w.after a s').qos2 := by
  refine List.mem_filter.mpr ⟨?_, by simpa using hne⟩
  rcases move_busy h hne with hb | ⟨b, rfl⟩
  · have hmem := hi.busy i hb
    cases a with
    | publish mid b => exact List.mem_cons_of_mem _ hmem
    | _ => exact hmem
  · exact List.mem_cons_self ..

theorem Down.Unheld.unstored {m : Mosq} {d : Down} (h : d.Unheld m) : d.Unstored m := by
  cases d with
  | publish mid uid a dup =>
    intro hok
    unfold readPublish at hok
    by_cases hs : m.state ≠ .active
    · rw [if_pos hs] at hok
      cases hok
    · by_cases ht : a.topic.bytes = []
      · rw [if_neg hs] at hok
        simp [AppMessage.publishIn, ht, Except.isOk, Except.toBool] at hok
      · exact h (not_not.mp hs) ht
  | pubrel mid => trivial
  | other p hp => trivial

end Servers

/-! ## Steps -/

section Steps

variable {w w' : Windowed}

theorem serve_client (s : Session) (p : Packet) :
    (serve s p).m = s.m ∧ ((serve s p).toClient = s.toClient ∨ ∃ (mid : UInt16) (s0 : Session), s0.m = s.m ∧
      s0.toClient = s.toClient ∧ serve s p = s0.send (.pubrel mid)) := by
  cases p with
  | pubrec mid r =>
    simp only [serve]
    split
    · rename_i uid hp
      exact ⟨(send_server ..).2, .inr ⟨mid, { s with server := setPhase s.server mid (.released uid) },
        rfl, rfl, rfl⟩⟩
    · exact ⟨rfl, .inl rfl⟩
  | pubcomp mid =>
    simp only [serve]
    split <;> exact ⟨rfl, .inl rfl⟩
  | _ => exact ⟨rfl, .inl rfl⟩

theorem ready_session {a : Move} {s' : Session} (hi : WindowInv w) (ha : w.Allows a)
    (hg : KeepsWindow w (.session a))
    (h : move w.s a = some s') : Ready (limitAfter w.limit s'.m w.s.m) s'.m s'.toClient := by
  have hqos : ∀ e ∈ w.s.m.msgsIn.inflight, e.qos = 2 := fun e he => (hi.session.stored e he).1
  have hpass {d : Down} (hd : d.item = none) : ∀ r ∈ w.limit, ∀ x ∈ d.item, x.Fits r w.qos2.toFinset := by
    simp [hd]
  -- what the client does, and what is on its way then
  have hupd {m : Mosq} (hgo : Goes w.limit m w.s.m w.s.toClient) :
      Ready (limitAfter w.limit m w.s.m) m (w.s.upd m).toClient := hgo.ready hi.ready.away hi.ready.numbered
  cases a with
  | publish mid b =>
    simp only [move] at h
    split at h
    · cases h
      refine hi.send (fun r hr => fits_publish ?_ (ha.2 r hr)) rfl rfl
      unfold Windowed.outstanding
      omega
    · cases h
  | republish mid =>
    simp only [move] at h
    split at h
    · rename_i uid hp
      split at h
      · cases h
        refine hi.send (fun r hr => fits_republish (hi.busy mid (by rw [hp]; simp)) ?_) rfl rfl
        exact (Nat.le_add_left ..).trans (ha r hr)
      · cases h
    · cases h
  | rerelease mid =>
    simp only [move] at h
    split at h
    · cases h
      exact hi.send (hpass rfl) rfl rfl
    · cases h
  | other p hp =>
    cases h
    have ha : aboveQos0 p = false := ha
    exact hi.send (hpass (by simp [Down.item, ha])) rfl rfl
  | serve =>
    simp only [move] at h
    split at h
    · cases h
    · rename_i p rest hs
      cases h
      obtain ⟨hm, hl | ⟨mid, s0, hm0, hl0, he⟩⟩ := serve_client { w.s with toServer := rest } p
      · rw [hm, hl, limitAfter_same rfl]
        exact hi.ready
      · rw [he]
        exact hi.send (hpass rfl) hm0 hl0
  | deliver alloc =>
    simp only [move] at h
    split at h
    · cases h
    · rename_i d rest hs
      split at h
      swap
      · cases h
      cases h
      have hready := hi.ready
      rw [hs] at hready
      have haway : w.s.m.sock = none → rest = [] := fun h => by simpa using hready.away h
      exact (goes_receive hready hi.session.store hqos).ready haway hi.ready.numbered
  | write =>
    cases h
    exact hupd (goes_write hi.ready)
  | cut n =>
    simp only [move] at h
    split at h
    · cases h
      exact hupd (.ends rfl)
    · cases h
      rw [limitAfter_same rfl]
      exact hi.ready
  | reconnect env =>
    cases h
    exact hupd (goes_reconnect env hi.ready)
  | connect env c =>
    cases h
    exact hupd (goes_connect env hi.ready hqos hg.2)
  | appPublish alloc a =>
    simp only [move] at h
    split at h
    · cases h
    · cases h
      exact hupd (goes_publish alloc a hi.ready)

theorem window_step {a : WindowMove} (hi : WindowInv w) (hg : KeepsWindow w a) (h : windowMove w a = some w') :
    WindowInv w' := by
  cases a with
  | session a =>
    simp only [windowMove] at h
    split at h
    · rename_i ha
      obtain ⟨s', hs, rfl⟩ := Option.map_eq_some_iff.mp h
      have hstored : Unstored w.s a := by
        cases a with
        | deliver alloc => exact fun d hd => (hg.1 d hd).unstored
        | _ => trivial
      refine ⟨move_inv hi.session hstored hs, fun i => hi.after_busy hs, ready_session hi ha hg hs, ?_⟩
      show (w.refused || _) = false
      rw [hi.unrefused, Bool.false_or]
      cases a with
      | deliver alloc =>
        cases hc : w.s.toClient with
        | nil => rfl
        | cons d rest => exact hi.not_refused hc (hg.1 d (by rw [hc]; rfl))
      | _ => rfl
    · cases h
  | publishQos1 mid b =>
    simp only [windowMove] at h
    split at h
    · rename_i hc
      cases h
      have hready := hi.send (s := w.s) (d := b.publishQos1 mid false) (fun r hr => fits_qos1 ?_) rfl rfl
      · rw [limitAfter_same (congrArg Mosq.sock (send_server ..).2)] at hready
        refine ⟨inv_other hi.session _ _, fun i hne => hi.busy i ?_, hready, hi.unrefused⟩
        rwa [(send_server ..).1] at hne
      · have := hc.2.2.2 r hr
        unfold Windowed.outstanding at this
        omega
    · cases h
  | republishQos1 mid b =>
    simp only [windowMove] at h
    split at h
    · rename_i hc
      cases h
      have hready := hi.send (s := w.s) (d := b.publishQos1 mid true) (fun r hr => fits_qos1 ?_) rfl rfl
      · rw [limitAfter_same (congrArg Mosq.sock (send_server ..).2)] at hready
        refine ⟨inv_other hi.session _ _, fun i hne => hi.busy i ?_, hready, hi.unrefused⟩
        rwa [(send_server ..).1] at hne
      · have := hc.2 r hr
        have hpos : 0 < w.qos1.length := List.length_pos_of_mem hc.1
        unfold Windowed.outstanding at this
        omega
    · cases h

end Steps

/-! ## Runs -/

theorem start_inv {w : Windowed} (h : IsStart w) : WindowInv w := by
  obtain ⟨id, rfl⟩ := h
  refine ⟨init_inv ⟨id, rfl⟩, fun i hne => absurd rfl hne, ?_, rfl⟩
  refine ⟨?_, ?_, ?_, fun _ => rfl, ?_⟩ <;> simp [Windowed.init, Session.init, Mosq.new]

/-- A connect() with a Receive Maximum and a keepalive. -/
def connectWith (receiveMaximum keepAlive : Int) : Move :=
  .connect .good { ConnectConfig.plain with receiveMaximum := receiveMaximum, keepAlive := keepAlive }

/-- A PUBLISH is lost with its connection and sent again; when its packet id is free another one follows. -/
def resumed : List WindowMove :=
  ([connectWith 1 60, accepted 0, deliver, .publish 1 hello, .cut 0, .reconnect .good, accepted 1, deliver,
    .republish 1, deliver,
    .write, .write, .serve, .serve, deliver, .write,
      .serve].map WindowMove.session) ++ [.publishQos1 2 hello, .session deliver]

/-- A PUBREC is lost with its connection, and the PUBLISH sent again. -/
def resent : List WindowMove :=
  [connectWith 1 60, accepted 0, deliver, .publish 1 hello, deliver, .cut 0, .reconnect .good, accepted 1,
    deliver, .republish 1,
    deliver].map WindowMove.session

/-- connect() is called with a lower maximum, and a keepalive that it refuses. -/
def lowered : List WindowMove :=
  [connectWith 2 60, accepted 0, deliver, connectWith 1 0].map WindowMove.session ++ [.publishQos1 5 hello] ++
    [deliver, .write, .write, .serve, .serve, .publish 1 hello, deliver, .publish 2 hello, deliver].map
      WindowMove.session

/-- Without such a PUBLISH it can still be asked for more than there is. -/
theorem lowered_refused : ¬ ∀ w, Machine.Reach windowMove IsStart HandlesUnheld w → w.refused = false := by
  intro h
  have hm : Machine.Meets windowMove HandlesUnheld (Windowed.init none) lowered := by decide
  have hr : (Machine.run windowMove (Windowed.init none) lowered).map (fun w => (w.refused, w.limit, w.qos2)) =
      some (true, some 2, [2, 1]) := by decide
  obtain ⟨w, -, hreach, hd⟩ := Machine.reach_of_map IsStart ⟨none, rfl⟩ hm hr
  simp [h w hreach] at hd

end Artemisia.Inbound
