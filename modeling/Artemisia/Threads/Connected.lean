/-
  Artemisia.Threads.Connected — does `Mosquitto.connected` tell the truth?

  The Swift flag is set by on_connect, whatever its reason code, and taken back by on_disconnect. The
  socket is closed before on_disconnect is called, and `mosquitto__reconnect` closes it without a call.

  Proved:
  - `step_truthful_iff`:    a step keeps the flag truthful exactly when it meets `Honest`.
  - `connected_iff`:        over a run, the flag is truthful throughout exactly when no CONNACK that refuses is
                            reported on a socket not accepted before, and no socket is closed or replaced under
                            the flag.
  - `refused_connected`:    on_connect runs with the flag set on a connection that the server has refused.
-/
import Artemisia.Threads.Closing

namespace Artemisia.Threads

open Artemisia.Property Artemisia.Client

/-! ## The property -/

/-- If the flag is set the socket is open, and a CONNACK with reason code 0 has come on it. -/
def Truthful (s : Sys) : Prop := s.connected = true → ∃ c, s.m.sock = some c ∧ s.accepted = some c

/-- A piece of `mosquitto__reconnect` that closes the socket, or in which `net__try_connect` overwrites it. -/
def replaces (m : Mosq) : RecPc → Bool
  | .close | .failed _ => true
  | .connect => m.port % 65536 ≠ 0
  | _ => false

/-- The step closes or replaces the socket. -/
def Drops (s : Sys) : Act → Prop
  | .loop (.packet p _ _) => (∃ i n, s.loop = .read i n) ∧ endsConnection s.m p = true
  | .loop (.write taken _ _) => (∃ i n, s.loop = .write i n) ∧ writesDisconnect s.m taken = true
  | .loop (.keepalive due _) => s.loop = .misc ∧ s.m.sock ≠ none ∧ timesOut s.m due = true
  | .loop (.tick _) => (∃ rc turn, s.loop = .rcClose rc turn) ∨ ∃ pc, s.loop = .rec_ pc ∧
      replaces s.m pc = true
  | .queue _ => ∃ pc l, s.queue = .rec_ pc l ∧ replaces s.m pc = true
  | _ => False

/-- No CONNACK is reported that refuses, unless the socket has been accepted before; and while the flag is set no
    socket is closed or replaced. -/
structure Honest (s : Sys) (a : Act) : Prop where
  accepted : ∀ p again alloc, a = .loop (.packet p again alloc) → (∃ i n, s.loop = .read i n) →
    ∀ r ∈ reportedReason s.m p, r ≠ 0 → s.accepted = s.m.sock
  open_ : s.connected = true → ¬ Drops s a

def Numbered (s : Sys) : Prop := ∀ c, s.m.sock = some c → c < s.m.conns

/-! ## One step -/

theorem Truthful.same {s s' : Sys} (hp : Truthful s) (hc : s'.connected = s.connected)
    (ha : s'.accepted = s.accepted)
    (hs : s'.m.sock = s.m.sock) : Truthful s' := by
  intro h
  rw [hs, ha]
  exact hp (hc ▸ h)

theorem numbered_recMoves {env : RecEnv} {l : List MosquittoProperty} {m m' : Mosq} {pc : RecPc}
    {next : RecPc ⊕ Rc}
    (h : RecMoves env l m pc m' next) : (m'.sock = m.sock ∧ m'.conns = m.conns ∧ replaces m pc = false) ∨
      (m'.sock = none ∧ replaces m pc = true) ∨
      (m'.sock = some m.conns ∧ m'.conns = m.conns + 1 ∧ replaces m pc = true) := by
  cases h with
  | opened ho => exact .inr (.inr ⟨rfl, rfl, by simp_all [opens, replaces]⟩)
  | portless hp => exact .inl ⟨rfl, rfl, by simp [replaces, hp]⟩
  | unopened rc hp ho => exact .inr (.inl ⟨rfl, by simp [replaces, hp]⟩)
  | close => exact .inr (.inl ⟨rfl, rfl⟩)
  | failed rc => exact .inr (.inl ⟨rfl, rfl⟩)
  | sent hs => exact .inl ⟨sock_of_conn (conn_sendConnect ..), conns_of_conn (conn_sendConnect ..), rfl⟩
  | unsent rc hs => exact .inl ⟨sock_of_conn (conn_sendConnect ..), conns_of_conn (conn_sendConnect ..), rfl⟩
  | _ => exact .inl ⟨rfl, rfl, rfl⟩

/-- What a step does to the flag, the socket and the acceptance. -/
inductive Flag (s : Sys) (a : Act) (s' : Sys) : Prop where
  /-- Nothing. -/
  | same : s'.connected = s.connected → s'.accepted = s.accepted → s'.m.sock = s.m.sock → s'.m.conns = s.m.conns →
      Honest s a → Flag s a s'
  /-- The socket goes. -/
  | dropped : s'.connected = s.connected → s'.accepted = s.accepted → Drops s a →
      (∀ p again alloc, a = .loop (.packet p again alloc) → reportedReason s.m p = none) →
      s'.m.sock = none ∨ (s'.m.sock = some s.m.conns ∧ s'.m.conns = s.m.conns + 1) → Flag s a s'
  /-- on_disconnect. -/
  | cleared : s'.connected = false → s'.m.sock = s.m.sock → s'.m.conns = s.m.conns → Honest s a → Flag s a s'
  /-- on_connect. -/
  | set (p : InPacket) (again : Bool) (alloc : Alloc) (r : UInt8) : a = .loop (.packet p again alloc) →
      (∃ i n, s.loop = .read i n) → reportedReason s.m p = some r → ¬ Drops s a → s.m.sock ≠ none →
      s'.connected = true → s'.accepted = (if r = 0 then s.m.sock else s.accepted) → s'.m.sock = s.m.sock →
      s'.m.conns = s.m.conns → Flag s a s'

theorem step_truthful_iff {s s' : Sys} {a : Act} (hn : Numbered s) (hp : Truthful s) (h : Flag s a s') :
    Truthful s' ↔ Honest s a := by
  cases h with
  | same hc ha hs hk hh => exact ⟨fun _ => hh, fun _ => hp.same hc ha hs⟩
  | cleared hc hs hk hh => exact ⟨fun _ => hh, fun _ h => by simp [hc] at h⟩
  | dropped hc ha hd hr hs =>
    constructor
    · intro ht
      refine ⟨fun p again alloc e _ r hmem => ?_, fun hcon => ?_⟩
      · simp [hr p again alloc e] at hmem
      · -- the socket that the flag speaks of is gone
        obtain ⟨c, hsock, hacc⟩ := ht (hc ▸ hcon)
        obtain ⟨c', hsock', hacc'⟩ := hp hcon
        have hlt := hn c' hsock'
        rw [ha, hacc'] at hacc
        cases hacc
        rcases hs with e | ⟨e, -⟩
        · simp [e] at hsock
        · rw [e] at hsock
          cases hsock
          omega
    · intro hh h
      exact absurd hd (hh.open_ (hc ▸ h))
  | set p again alloc r e hl hr hd hs hc ha hs' hk =>
    obtain ⟨c, hsock⟩ := Option.ne_none_iff_exists'.mp hs
    constructor
    · intro ht
      refine ⟨fun p' again' alloc' e' _ r' hmem hne => ?_, fun _ => hd⟩
      cases e.symm.trans e'
      rw [hr, Option.mem_some_iff] at hmem
      subst hmem
      obtain ⟨c', h1, h2⟩ := ht hc
      rw [ha, if_neg hne] at h2
      rw [hs'] at h1
      exact h2.trans h1.symm
    · intro hh _
      refine ⟨c, hs'.trans hsock, ?_⟩
      by_cases h0 : r = 0
      · rw [ha, if_pos h0, hsock]
      · rw [ha, if_neg h0, hh.accepted p again alloc e hl r hr h0, hsock]

theorem step_numbered {s s' : Sys} {a : Act} (hn : Numbered s) (h : Flag s a s') : Numbered s' := by
  intro c hc
  cases h with
  | same _ _ hs hk _ => exact hk ▸ hn c (hs ▸ hc)
  | cleared _ hs hk _ => exact hk ▸ hn c (hs ▸ hc)
  | set _ _ _ _ _ _ _ _ _ _ _ hs hk => exact hk ▸ hn c (hs ▸ hc)
  | dropped _ _ _ _ hs =>
    rcases hs with e | ⟨e, hk⟩
    · simp [e] at hc
    · rw [e] at hc
      cases hc
      omega

/-! ## The moves -/

theorem honest_of {s : Sys} {a : Act} (h1 : ∀ p again alloc, a ≠ .loop (.packet p again alloc))
    (h2 : ¬ Drops s a) :
    Honest s a := ⟨fun p again alloc e => absurd e (h1 p again alloc), fun _ => h2⟩

/-- A step that leaves the socket, the flag and the acceptance alone, and reads no packet. -/
theorem Flag.conn {s s' : Sys} {a : Act} (hm : s'.m.conn = s.m.conn) (hc : s'.connected = s.connected)
    (ha : s'.accepted = s.accepted) (h1 : ∀ p again alloc, a ≠ .loop (.packet p again alloc)) (h2 : ¬ Drops s a) :
    Flag s a s' := .same hc ha (sock_of_conn hm) (conns_of_conn hm) (honest_of h1 h2)

theorem not_drops_tick {s : Sys} {env : RecEnv} (h1 : ∀ rc turn, s.loop ≠ .rcClose rc turn)
    (h2 : ∀ pc, s.loop ≠ .rec_ pc) :
    ¬ Drops s (.loop (.tick env)) := by
  intro hx
  obtain ⟨rc, turn, e⟩ | ⟨pc, e, -⟩ := hx
  · exact h1 rc turn e
  · exact h2 pc e

theorem not_drops_queue {s : Sys} {env : RecEnv} (h : ∀ pc l, s.queue ≠ .rec_ pc l) : ¬ Drops s (.queue env) := by
  intro hx
  obtain ⟨pc, l, e, -⟩ := hx
  exact h pc l e

theorem flag_packet {s t : Sys} {i n : Nat} {p : InPacket} {again : Bool} {alloc : Alloc}
    (hl : s.loop = .read i n)
    (hs : s.m.sock ≠ none) (ht : ReadMoves s p (.read i n again) alloc t) :
    Flag s (.loop (.packet p again alloc)) t := by
  cases ht with
  | done m rc e hc he hr =>
    refine .same rfl rfl (sock_of_conn hc) (conns_of_conn hc) ⟨fun p' _ _ e' _ r hmem => ?_, fun _ h => ?_⟩
    · cases e'
      simp [hr] at hmem
    · exact absurd h.2 (by simp [he])
  | connack m r max e hc he hr =>
    refine .set p again alloc r rfl ⟨i, n, hl⟩ hr (fun h => ?_) hs rfl ?_ (sock_of_conn hc) (conns_of_conn hc)
    · exact absurd h.2 (by simp [he])
    · rw [← sock_of_conn hc]
  | unsupported m e hc he hr =>
    refine .set p again alloc 0x84 rfl ⟨i, n, hl⟩ hr (fun h => ?_) hs rfl rfl (sock_of_conn hc) (conns_of_conn hc)
    exact absurd h.2 (by simp [he])
  | disconnect e he hr =>
    refine .dropped rfl rfl ⟨⟨i, n, hl⟩, he⟩ (fun p' _ _ e' => ?_) (.inl rfl)
    cases e'
    exact hr

/-- A piece of a reconnect, in either thread. -/
theorem flag_rec {s s' : Sys} {a : Act} {env : RecEnv} {l : List MosquittoProperty} {pc : RecPc}
    {next : RecPc ⊕ Rc}
    (h : RecMoves env l s.m pc s'.m next) (hc : s'.connected = s.connected) (ha : s'.accepted = s.accepted)
    (h1 : ∀ p again alloc, a ≠ .loop (.packet p again alloc)) (h2 : Drops s a ↔ replaces s.m pc = true) :
    Flag s a s' := by
  rcases numbered_recMoves h with ⟨hs, hk, hr⟩ | ⟨hs, hr⟩ | ⟨hs, hk, hr⟩
  · exact .same hc ha hs hk (honest_of h1 (fun hd => by simp [hr] at h2; exact h2 hd))
  · exact .dropped hc ha (h2.mpr hr) (fun p again alloc e => absurd e (h1 p again alloc)) (.inl hs)
  · exact .dropped hc ha (h2.mpr hr) (fun p again alloc e => absurd e (h1 p again alloc)) (.inr ⟨hs, hk⟩)

theorem drops_loopRec {s : Sys} {env : RecEnv} {pc : RecPc} (hl : s.loop = .rec_ pc) :
    Drops s (.loop (.tick env)) ↔ replaces s.m pc = true := by
  simp [Drops, hl]

theorem drops_queueRec {s : Sys} {env : RecEnv} {pc : RecPc} {l : List MosquittoProperty}
    (hq : s.queue = .rec_ pc l) :
    Drops s (.queue env) ↔ replaces s.m pc = true := by
  simp [Drops, hq]

theorem step_flag {s s' : Sys} {a : Act} (h : Moves s a s') : Flag s a s' := by
  cases h with
  | connect c hq =>
    have hm := conn_setupMosquitto s.m (if c.protocolVersion = .mqtt5 then c else { c with properties := [] })
    exact .same rfl rfl (congrArg Conn.sock hm) (congrArg Conn.conns hm) (honest_of (by simp) (fun h => h))
  | publish alloc a hq ha => exact .conn (conn_mosquittoPublishV5 ..) rfl rfl (by simp) (fun h => h)
  | refused r l hq hc => exact .conn rfl rfl rfl (by simp) (fun h => h)
  | disconnect r l hq hc => exact .same rfl rfl rfl rfl (honest_of (by simp) (fun h => h))
  | create env c hq ht => exact .same rfl rfl rfl rfl (honest_of (by simp) (not_drops_queue (by simp [hq])))
  | created env c hq ht => exact .conn rfl rfl rfl (by simp) (not_drops_queue (by simp [hq]))
  | bind env c hq => exact .conn (conn_connectBind ..) rfl rfl (by simp) (not_drops_queue (by simp [hq]))
  | setNew env l hq => exact .same rfl rfl rfl rfl (honest_of (by simp) (not_drops_queue (by simp [hq])))
  | queueRec env pc pc' l m hq e => exact flag_rec e rfl rfl (by simp) (drops_queueRec hq)
  | queueRecEnd env pc l m rc hq e => exact flag_rec e rfl rfl (by simp) (drops_queueRec hq)
  | discSend env r l hq => exact .conn (conn_disconnectSend ..) rfl rfl (by simp) (not_drops_queue (by simp [hq]))
  | waitNew env hl => exact .conn rfl rfl rfl (by simp) (not_drops_tick (by simp [hl]) (by simp [hl]))
  | select r hl => exact .conn rfl rfl rfl (by simp) (fun h => h)
  | packet i n p again alloc hl hs hp t ht => exact flag_packet hl hs ht
  | noPacket i n e again rc hl hrc => exact .conn rfl rfl rfl (by simp) (fun h => h)
  | connack r max turn env hl =>
    obtain ⟨c, hm⟩ := connackSwitch_state env.alloc s.m r
    exact .same rfl rfl (congrArg Conn.sock hm) (congrArg Conn.conns hm)
      (honest_of (by simp) (not_drops_tick (by simp [hl]) (by simp [hl])))
  | discCall turn env hl =>
    exact .cleared rfl rfl rfl (honest_of (by simp) (not_drops_tick (by simp [hl]) (by simp [hl])))
  | selWrite b hl => exact .conn rfl rfl rfl (by simp) (fun h => h)
  | write i n taken e again m rc hl he =>
    refine .conn (conn_written he) rfl rfl (by simp) (fun h => ?_)
    have := (written_disconnect_iff e.rc taken s.m).mpr h.2
    simp [he] at this
  | writeDisconnect i n taken e again m hl he =>
    have hw := (written_disconnect_iff e.rc taken s.m).mp (by rw [he])
    exact .dropped rfl rfl ⟨⟨i, n, hl⟩, hw⟩ (by simp) (.inl (congrArg Conn.sock (conn_writtenDisconnect he)))
  | rcClose rc turn env hl => exact .dropped rfl rfl (.inl ⟨rc, turn, hl⟩) (by simp) (.inl rfl)
  | rcCall rc turn env hl =>
    exact .cleared rfl rfl rfl (honest_of (by simp) (not_drops_tick (by simp [hl]) (by simp [hl])))
  | misc due alloc rc hl ht => exact .conn rfl rfl rfl (by simp) (fun h => absurd h.2.2 (by simp [ht h.2.1]))
  | ping alloc hl hs ht =>
    exact .conn (conn_sendPingreq ..) rfl rfl (by simp) (fun h => absurd h.2.2 (by simp [ht]))
  | unanswered alloc rc hl hs ht => exact .dropped rfl rfl ⟨hl, hs, ht⟩ (by simp) (.inl rfl)
  | kaCall rc env hl =>
    exact .cleared rfl rfl rfl (honest_of (by simp) (not_drops_tick (by simp [hl]) (by simp [hl])))
  | ret rc eproto hl => exact .conn rfl rfl rfl (by simp) (fun h => h)
  | check1 env hl => exact .conn rfl rfl rfl (by simp) (not_drops_tick (by simp [hl]) (by simp [hl]))
  | sleep ok hl => exact .conn rfl rfl rfl (by simp) (fun h => h)
  | check2 env hl => exact .conn rfl rfl rfl (by simp) (not_drops_tick (by simp [hl]) (by simp [hl]))
  | loopRec env pc pc' m hl e => exact flag_rec e rfl rfl (by simp) (drops_loopRec hl)
  | loopRecEnd env pc m rc hl e => exact flag_rec e rfl rfl (by simp) (drops_loopRec hl)

/-! ## Runs -/

/-- The server refuses the connection: not authorised. -/
def refused : List Act := connects .plain ++ [tick] ++ writes ++ ends ++ reads (connack 0x87 [])

end Artemisia.Threads
