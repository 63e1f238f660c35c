/-
  Artemisia.Tls.Plaintext — can a client with `tlsCert` send its CONNECT in the clear?

  The application's queue runs `connect()`: `setupMosquitto` call by call, then `mosquitto_connect_bind_v5`
  piece by piece. The loop thread is kept only as far as it matters here: it may call
  `mosquitto__reconnect`, close the socket, or write a packet, at any time. `secured` only records.

  Proved:
  - `step_exact`:         a step keeps every waiting CONNECT on a socket with a session exactly when it meets
                          `Encrypts`.
  - `encrypted_iff`:      over a run, a CONNECT is never queued in the clear exactly when each is queued
                          on a socket that was connected with TLS compiled in and configured, and while one
                          waits no other socket is connected without.
  - `unreadable_in_the_clear`: the CA file cannot be read, and the password goes out in the clear.
-/
import Artemisia.Lib.Machine
import Artemisia.Client.Frames
import Artemisia.Tls.Connect

namespace Artemisia.Tls

open Artemisia.Property Artemisia.Client

/-! ## The system -/

inductive LoopPc where
  | none
  | running
  | rec_ (at_ : RecPc)

inductive QueuePc where
  | idle
  /-- `setupMosquitto`: the TLS calls still to be made. -/
  | setup (calls : List OptionCall) (c : ConnectConfig)
  | connectBind (c : ConnectConfig)
  | setNew (properties : List MosquittoProperty)
  | rec_ (at_ : RecPc) (properties : List MosquittoProperty)

structure Sys where
  c : TlsMosq
  loop : LoopPc
  queue : QueuePc
  /-- The last socket that was connected with TLS compiled in and configured. -/
  secured : Option Nat

def Sys.init (id : Option Bytes) (cleanStart : Bool) : Sys where
  c := ⟨Mosq.new id cleanStart, .new⟩
  loop := .none
  queue := .idle
  secured := none

def IsInit (s : Sys) : Prop := ∃ id cleanStart, s = Sys.init id cleanStart

inductive Act where
  | connect (c : ConnectConfig) (tls : TlsConfig)
  /-- The application's queue goes on with its call. -/
  | queue (env : Env)
  /-- The loop thread goes on in `mosquitto__reconnect`. -/
  | loop (env : Env)
  | reconnect
  /-- The loop thread closes the socket, by `net__socket_close` or `COMPAT_CLOSE`. -/
  | lost (freed : Bool)
  /-- The current packet has been written. -/
  | written

/-- A piece of `mosquitto__reconnect`. -/
def Sys.recStep (b : Build) (env : Env) (properties : List MosquittoProperty) (s : Sys) (pc : RecPc) :
    Sys × (RecPc ⊕ Rc) :=
  let r := reconnectStep b env properties s.c pc
  ({ s with c := r.1
            secured := if pc = .connect ∧ connects env s.c ∧ covered b s.c.tls then some s.c.m.conns
              else s.secured }, r.2)

/-- The application's queue, in the middle of `connect()`. -/
def queueStep (b : Build) (s : Sys) (env : Env) : Option Sys :=
  match s.queue with
  | .idle => none
  | .setup (o :: calls) c =>
    some { s with c := { s.c with tls := (applyOption b env.opt s.c.tls o).1 }, queue := .setup calls c }
  | .setup [] c =>
    some { s with c := { s.c with m := usernamePwSet s.c.m c.username c.password }
                  loop := match s.loop with
                    | .none => .running
                    | pc => pc
                  queue := .connectBind c }
  | .connectBind c =>
    let r := connectBind env.rec_ s.c.m c
    some { s with c := { s.c with m := r.1 }, queue := if r.2 = .success then .setNew c.properties else .idle }
  | .setNew properties => some { s with c := { s.c with m := s.c.m.setState .new },
                                        queue := .rec_ .start properties }
  | .rec_ pc properties =>
    match s.recStep b env properties pc with
    | (t, .inl pc') => some { t with queue := .rec_ pc' properties }
    | (t, .inr _) => some { t with queue := .idle }

def step (b : Build) (s : Sys) : Act → Option Sys
  | .connect c tls => match s.queue with
    | .idle =>
      let c := if c.protocolVersion = .mqtt5 then c else { c with properties := [] }
      some { s with c := { s.c with m := setupOptions s.c.m c }, queue := .setup (setupCalls tls) c }
    | _ => none
  | .queue env => queueStep b s env
  | .loop env => match s.loop with
    | .rec_ pc => match s.recStep b env [] pc with
      | (t, .inl pc') => some { t with loop := .rec_ pc' }
      | (t, .inr _) => some { t with loop := .running }
    | _ => none
  | .reconnect => match s.loop with
    | .running => some { s with loop := .rec_ .start }
    | _ => none
  | .lost freed => match s.loop with
    | .running => some { s with c := if freed then s.c.socketClose b else s.c.compatClose }
    | _ => none
  | .written => match s.loop with
    | .running => some { s with c := { s.c with m := nextPacket s.c.m } }
    | _ => none

/-! ## The property -/

def ConnectWaits (m : Mosq) : Prop := ∃ data, .connect data ∈ unwritten m

/-- No CONNECT waits for a socket that has no TLS session. -/
def Encrypted (s : Sys) : Prop := ConnectWaits s.c.m → ∀ k, s.c.m.sock = some k → session s.c = some k

/-- A socket is connected with TLS compiled in and configured, or while no CONNECT waits. A CONNECT is
    queued, if it can be, on a socket that was connected so. -/
def RecEncrypts (b : Build) (env : Env) (properties : List MosquittoProperty) (s : Sys) : RecPc → Prop
  | .connect => connects env s.c = true → covered b s.c.tls = true ∨ ¬ ConnectWaits s.c.m
  | .sendConnect =>
    (sendConnect env.rec_.alloc s.c.m properties).2 = .success → ∀ k, s.c.m.sock = some k → s.secured = some k
  | _ => True

def Encrypts (b : Build) (s : Sys) : Act → Prop
  | .queue env => ∀ pc l, s.queue = .rec_ pc l → RecEncrypts b env l s pc
  | .loop env => ∀ pc, s.loop = .rec_ pc → RecEncrypts b env [] s pc
  | _ => True

/-! ## One step -/

/-- Sockets are numbered in order, and the open one has its session exactly if it was secured. -/
structure Sessions (s : Sys) : Prop where
  sock : ∀ k, s.c.m.sock = some k → k < s.c.m.conns
  session : ∀ k, session s.c = some k → k < s.c.m.conns
  secured : ∀ k, s.secured = some k → k < s.c.m.conns
  same : ∀ k, s.c.m.sock = some k → (Tls.session s.c = some k ↔ s.secured = some k)

/-- The step leaves the socket and its session alone. -/
structure Same (s s' : Sys) : Prop where
  sock : s'.c.m.sock = s.c.m.sock
  conns : s'.c.m.conns = s.c.m.conns
  session : session s'.c = session s.c
  secured : s'.secured = s.secured

structure Closed (s s' : Sys) : Prop where
  sock : s'.c.m.sock = none
  conns : s'.c.m.conns = s.c.m.conns
  session : session s'.c = session s.c ∨ session s'.c = none
  secured : s'.secured = s.secured

theorem Same.sessions {s s' : Sys} (h : Same s s') (hi : Sessions s) : Sessions s' := by
  refine ⟨?_, ?_, ?_, ?_⟩
  · rw [h.sock, h.conns]
    exact hi.sock
  · rw [h.session, h.conns]
    exact hi.session
  · rw [h.secured, h.conns]
    exact hi.secured
  · rw [h.sock, h.session, h.secured]
    exact hi.same

theorem Closed.sessions {s s' : Sys} (h : Closed s s') (hi : Sessions s) : Sessions s' := by
  refine ⟨?_, ?_, ?_, ?_⟩
  · simp [h.sock]
  · rw [h.conns]
    rcases h.session with e | e
    · rw [e]
      exact hi.session
    · simp [e]
  · rw [h.secured, h.conns]
    exact hi.secured
  · simp [h.sock]

theorem Closed.encrypted {s s' : Sys} (h : Closed s s') : Encrypted s' := fun _ k hk => by simp [h.sock] at hk

/-- A step that queues no CONNECT either. -/
theorem Same.encrypted {s s' : Sys} (h : Same s s') (hp : Encrypted s)
    (hw : ConnectWaits s'.c.m → ConnectWaits s.c.m) : Encrypted s' := by
  intro hc k hk
  rw [h.session]
  exact hp (hw hc) k (h.sock ▸ hk)

/-- What is to be shown of a step with this guard. -/
def Exact (g : Prop) (s s' : Sys) : Prop := Sessions s' ∧ (Encrypted s → (Encrypted s' ↔ g))

theorem Exact.same {s s' : Sys} {g : Prop} (h : Same s s') (hi : Sessions s)
    (hw : ConnectWaits s'.c.m → ConnectWaits s.c.m) (hg : g) : Exact g s s' :=
  ⟨h.sessions hi, fun hp => iff_of_true (h.encrypted hp hw) hg⟩

theorem Exact.closed {s s' : Sys} {g : Prop} (h : Closed s s') (hi : Sessions s) (hg : g) : Exact g s s' :=
  ⟨h.sessions hi, fun _ => iff_of_true h.encrypted hg⟩

theorem waits_congr {m m' : Mosq} (h : unwritten m' = unwritten m) : ConnectWaits m' ↔ ConnectWaits m := by
  simp [ConnectWaits, h]

theorem session_socketClose (b : Build) (c : TlsMosq) :
    session (c.socketClose b) = session c ∨ session (c.socketClose b) = none := by
  unfold TlsMosq.socketClose
  cases b.tls
  · exact .inl rfl
  · exact .inr rfl

theorem unwritten_sendPacket (alloc : Alloc) (m : Mosq) (n : Nat) (p : Packet) :
    ((sendPacket alloc m n p).2 = .success ∧ unwritten (sendPacket alloc m n p).1 = unwritten m ++ [p]) ∨
    ((sendPacket alloc m n p).2 ≠ .success ∧ unwritten (sendPacket alloc m n p).1 = unwritten m) := by
  rcases sendPacket_cases alloc m n p with ⟨-, e⟩ | ⟨rc, h, e⟩
  · rw [e]
    exact .inl ⟨rfl, by simp [unwritten, packetQueue]⟩
  · rw [e]
    exact .inr ⟨h, rfl⟩

/-- A CONNECT waits once `send__connect` has succeeded; else nothing changes. -/
theorem waits_sendConnect (alloc : Alloc) (m : Mosq) (l : List MosquittoProperty) :
    ((sendConnect alloc m l).2 = .success ∧ ConnectWaits (sendConnect alloc m l).1) ∨
    ((sendConnect alloc m l).2 ≠ .success ∧ unwritten (sendConnect alloc m l).1 = unwritten m) := by
  have ha : unwritten (adoptReceiveMaximum m l) = unwritten m := by
    obtain ⟨maximum, quota, e⟩ := adoptReceiveMaximum_eq m l
    rw [e]
    rfl
  unfold sendConnect
  split
  · exact .inr ⟨by simp, rfl⟩
  dsimp only
  split
  · exact .inr ⟨by simp, ha⟩
  · rcases unwritten_sendPacket alloc (adoptReceiveMaximum m l) _ _ with ⟨hs, hu⟩ | ⟨hs, hu⟩
    · exact .inl ⟨hs, ⟨_, by rw [hu]; exact List.mem_append_right _ (List.mem_singleton_self _)⟩⟩
    · exact .inr ⟨hs, hu.trans ha⟩

section Pieces

variable {b : Build} {env : Env} {l : List MosquittoProperty} {s : Sys}

/-- A connected socket that is still open has its session. -/
theorem opened_covered (hi : Sessions s) (hc : connects env s.c = true) (h : covered b s.c.tls = true) :
    Sessions (s.recStep b env l .connect).1 ∧ Encrypted (s.recStep b env l .connect).1 := by
  have hr : (s.recStep b env l .connect).1.c = (netSocketConnect b env s.c).1 := rfl
  have hsec : (s.recStep b env l .connect).1.secured = some s.c.m.conns := by simp [Sys.recStep, hc, h]
  rcases netSocketConnect_covered hc h with ⟨hm, hs⟩ | ⟨hm, hs⟩
  · rw [← hr] at hm hs
    have hk : ∀ k, (s.recStep b env l .connect).1.c.m.sock = some k → k = s.c.m.conns := by
      rw [hm]
      exact fun k hk => (Option.some.inj hk).symm
    have hconns : (s.recStep b env l .connect).1.c.m.conns = s.c.m.conns + 1 := by rw [hm]; rfl
    refine ⟨⟨fun k h => ?_, fun k h => ?_, fun k h => ?_, fun k h => ?_⟩, fun _ k h => ?_⟩
    · rw [hconns, hk k h]
      omega
    · rw [hs] at h
      rw [hconns, ← Option.some.inj h]
      exact Nat.lt_succ_self _
    · rw [hsec] at h
      rw [hconns, ← Option.some.inj h]
      omega
    · rw [hk k h, hs, hsec]
      exact Iff.rfl
    · rw [hk k h]
      exact hs
  · rw [← hr] at hm hs
    have hn : (s.recStep b env l .connect).1.c.m.sock = none := by rw [hm]; rfl
    have hconns : (s.recStep b env l .connect).1.c.m.conns = s.c.m.conns + 1 := by rw [hm]; rfl
    refine ⟨⟨fun k h => ?_, fun k h => ?_, fun k h => ?_, fun k h => ?_⟩, fun _ k h => ?_⟩
    · simp [hn] at h
    · rw [hconns]
      rcases hs with e | e | e
      · exact Nat.lt_succ_of_lt (hi.session k (e ▸ h))
      · simp [e] at h
      · rw [e] at h
        rw [← Option.some.inj h]
        exact Nat.lt_succ_self _
    · rw [hsec] at h
      rw [hconns, ← Option.some.inj h]
      omega
    · simp [hn] at h
    · simp [hn] at h

/-- A connected socket has none. -/
theorem opened_uncovered (hi : Sessions s) (hc : connects env s.c = true) (h : covered b s.c.tls = false) :
    Sessions (s.recStep b env l .connect).1 ∧
      (Encrypted (s.recStep b env l .connect).1 ↔ ¬ ConnectWaits s.c.m) := by
  have hr : (s.recStep b env l .connect).1.c = { s.c with m := s.c.m.socketOpen } :=
    netSocketConnect_uncovered hc h
  have hsec : (s.recStep b env l .connect).1.secured = s.secured := by simp [Sys.recStep, h]
  have hses : session (s.recStep b env l .connect).1.c = session s.c := by rw [hr]; rfl
  have hsock : (s.recStep b env l .connect).1.c.m.sock = some s.c.m.conns := by rw [hr]; rfl
  have hconns : (s.recStep b env l .connect).1.c.m.conns = s.c.m.conns + 1 := by rw [hr]; rfl
  -- both the session and the record are of an earlier socket
  have h1 : session s.c ≠ some s.c.m.conns := fun e => absurd (hi.session _ e) (Nat.lt_irrefl _)
  have h2 : s.secured ≠ some s.c.m.conns := fun e => absurd (hi.secured _ e) (Nat.lt_irrefl _)
  refine ⟨⟨fun k h => ?_, fun k h => ?_, fun k h => ?_, fun k h => ?_⟩, ?_⟩
  · rw [hsock] at h
    rw [hconns, ← Option.some.inj h]
    omega
  · rw [hconns]
    exact Nat.lt_succ_of_lt (hi.session k (hses ▸ h))
  · rw [hconns]
    exact Nat.lt_succ_of_lt (hi.secured k (hsec ▸ h))
  · rw [hsock] at h
    rw [hses, hsec, ← Option.some.inj h]
    exact iff_of_false h1 h2
  · have hw : ConnectWaits (s.recStep b env l .connect).1.c.m ↔ ConnectWaits s.c.m := by
      rw [hr]
      exact waits_congr rfl
    constructor
    · exact fun he hc' => h1 (hses ▸ he (hw.mpr hc') _ hsock)
    · exact fun hn hc' => absurd (hw.mp hc') hn

theorem recStep_connect (hi : Sessions s) :
    Exact (RecEncrypts b env l s .connect) s (s.recStep b env l .connect).1 := by
  cases hc : connects env s.c with
  | false =>
    have hr : (s.recStep b env l .connect).1.c = (netSocketConnect b env s.c).1 := rfl
    have hsec : (s.recStep b env l .connect).1.secured = s.secured := by simp [Sys.recStep, hc]
    rcases netSocketConnect_failed (b := b) hc with e | e
    · rw [e] at hr
      exact .same ⟨by rw [hr], by rw [hr], by rw [hr], hsec⟩ hi (by rw [hr]; exact id)
        (fun hc' => by simp [hc] at hc')
    · rw [e] at hr
      exact .closed ⟨by rw [hr], by rw [hr], .inl (by rw [hr]; rfl), hsec⟩ hi (fun hc' => by simp [hc] at hc')
  | true =>
    cases hcov : covered b s.c.tls with
    | true =>
      obtain ⟨h1, h2⟩ := opened_covered (l := l) hi hc hcov
      exact ⟨h1, fun _ => iff_of_true h2 (fun _ => .inl hcov)⟩
    | false =>
      obtain ⟨h1, h2⟩ := opened_uncovered (l := l) hi hc hcov
      exact ⟨h1, fun _ => h2.trans ⟨fun h _ => .inr h, fun h => (h hc).resolve_left (by simp [hcov])⟩⟩

theorem recStep_sendConnect (hi : Sessions s) :
    Exact (RecEncrypts b env l s .sendConnect) s (s.recStep b env l .sendConnect).1 := by
  have hm : (s.recStep b env l .sendConnect).1.c.m = (sendConnect env.rec_.alloc s.c.m l).1 := by
    simp only [Sys.recStep, reconnectStep, Client.reconnectStep]
    split <;> rfl
  have hconn := conn_sendConnect env.rec_.alloc s.c.m l
  have h : Same s (s.recStep b env l .sendConnect).1 :=
    ⟨by rw [hm]; exact sock_of_conn hconn, by rw [hm]; exact conns_of_conn hconn, rfl, by simp [Sys.recStep]⟩
  refine ⟨h.sessions hi, fun hp => ?_⟩
  rcases waits_sendConnect env.rec_.alloc s.c.m l with ⟨hs, hw⟩ | ⟨hs, hu⟩
  · -- the CONNECT waits now, so the socket must have its session
    rw [← hm] at hw
    constructor
    · intro he _ k hk
      refine (hi.same k hk).mp ?_
      rw [← h.session]
      exact he hw k (h.sock.trans hk)
    · intro hg _ k hk
      rw [h.sock] at hk
      rw [h.session]
      exact (hi.same k hk).mpr (hg hs k hk)
  · rw [← hm] at hu
    exact ⟨fun _ hs' => absurd hs' hs, fun _ => h.encrypted hp (waits_congr hu).mp⟩

/-- A piece of `mosquitto__reconnect`, in either thread. -/
theorem recStep_exact (env : Env) (hi : Sessions s) (pc : RecPc) :
    Exact (RecEncrypts b env l s pc) s (s.recStep b env l pc).1 := by
  cases pc with
  | connect => exact recStep_connect hi
  | sendConnect => exact recStep_sendConnect hi
  | close =>
    refine .closed ⟨?_, ?_, ?_, by simp [Sys.recStep]⟩ hi trivial
    all_goals
      simp only [Sys.recStep, reconnectStep]
      split
    · assumption
    · rfl
    · rfl
    · rfl
    · exact .inl rfl
    · exact session_socketClose ..
  | failed rc => exact .closed ⟨rfl, rfl, session_socketClose .., by simp [Sys.recStep]⟩ hi trivial
  | start =>
    refine .same ⟨?_, ?_, rfl, by simp [Sys.recStep]⟩ hi ?_ trivial
    all_goals
      simp only [Sys.recStep, reconnectStep, Client.reconnectStep]
      repeat' split
    all_goals first
      | rfl
      | exact id
      | exact fun ⟨data, hd⟩ => by simp [unwritten, packetCleanupAll] at hd
  | reset => exact .same ⟨rfl, rfl, rfl, by simp [Sys.recStep]⟩ hi (waits_congr rfl).mp trivial
  | pending rc => exact .same ⟨rfl, rfl, rfl, by simp [Sys.recStep]⟩ hi (waits_congr rfl).mp trivial
  | setConnected => exact .same ⟨rfl, rfl, rfl, by simp [Sys.recStep]⟩ hi (waits_congr rfl).mp trivial

end Pieces

/-- What a call of the application's that is not about the connection leaves alone. -/
def Frame (m m' : Mosq) : Prop := m'.sock = m.sock ∧ m'.conns = m.conns ∧ unwritten m' = unwritten m

theorem frame_setupOptions (m : Mosq) (c : ConnectConfig) : Frame m (setupOptions m c) := by
  unfold setupOptions
  dsimp only
  split <;> exact ⟨rfl, rfl, rfl⟩

theorem frame_usernamePwSet (m : Mosq) (username password : Option CString) :
    Frame m (usernamePwSet m username password) := by
  unfold usernamePwSet
  repeat' split
  all_goals exact ⟨rfl, rfl, rfl⟩

theorem frame_connectBind (env : RecEnv) (m : Mosq) (c : ConnectConfig) : Frame m (connectBind env m c).1 := by
  rcases connectBind_cases m env c with ⟨e, -⟩ | ⟨id, e⟩
  · rw [e]
    exact ⟨rfl, rfl, rfl⟩
  · rw [e]
    exact ⟨rfl, rfl, rfl⟩

theorem Exact.frame {s s' : Sys} {g : Prop} (h : Frame s.c.m s'.c.m) (ht : s'.c.tls.ssl = s.c.tls.ssl)
    (hsec : s'.secured = s.secured) (hi : Sessions s) (hg : g) : Exact g s s' :=
  .same ⟨h.1, h.2.1, by rw [session, ht]; rfl, hsec⟩ hi (waits_congr h.2.2).mp hg

theorem step_exact {b : Build} {s s' : Sys} {a : Act} (hi : Sessions s) (h : step b s a = some s') :
    Exact (Encrypts b s a) s s' := by
  cases a with
  | connect c tls =>
    simp only [step] at h
    split at h
    · cases h
      exact .frame (frame_setupOptions ..) rfl rfl hi trivial
    · cases h
  | queue env =>
    simp only [step, queueStep] at h
    split at h
    · cases h
    · rename_i o calls c hq
      cases h
      exact .frame ⟨rfl, rfl, rfl⟩ (applyOption_ssl o) rfl hi (fun pc l e => by simp [hq] at e)
    · rename_i c hq
      cases h
      exact .frame (frame_usernamePwSet ..) rfl rfl hi (fun pc l e => by simp [hq] at e)
    · rename_i c hq
      cases h
      exact .frame (frame_connectBind ..) rfl rfl hi (fun pc l e => by simp [hq] at e)
    · rename_i l hq
      cases h
      exact .frame ⟨rfl, rfl, rfl⟩ rfl rfl hi (fun pc l e => by simp [hq] at e)
    · rename_i pc l hq
      have hr := recStep_exact (b := b) (l := l) env hi pc
      have hg : Encrypts b s (.queue env) ↔ RecEncrypts b env l s pc := by simp [Encrypts, hq]
      rw [hg]
      split at h
      all_goals
        rename_i t x e
        cases h
        rw [e] at hr
        exact hr.imp (fun h => ⟨h.1, h.2, h.3, h.4⟩) id
  | loop env =>
    simp only [step] at h
    split at h
    · rename_i pc hl
      have hr := recStep_exact (b := b) (l := []) env hi pc
      have hg : Encrypts b s (.loop env) ↔ RecEncrypts b env [] s pc := by simp [Encrypts, hl]
      rw [hg]
      split at h
      all_goals
        rename_i t x e
        cases h
        rw [e] at hr
        exact hr.imp (fun h => ⟨h.1, h.2, h.3, h.4⟩) id
    · cases h
  | reconnect =>
    simp only [step] at h
    split at h <;> cases h
    exact .same ⟨rfl, rfl, rfl, rfl⟩ hi id trivial
  | lost freed =>
    simp only [step] at h
    split at h <;> cases h
    cases freed with
    | true => exact .closed ⟨rfl, rfl, session_socketClose .., rfl⟩ hi trivial
    | false => exact .closed ⟨rfl, rfl, .inl rfl, rfl⟩ hi trivial
  | written =>
    simp only [step] at h
    split at h <;> cases h
    refine .same ⟨rfl, rfl, rfl, rfl⟩ hi (fun ⟨data, hd⟩ => ⟨data, ?_⟩) trivial
    rw [unwritten_nextPacket] at hd
    exact List.mem_append_right _ hd

/-! ## Runs -/

theorem init_sessions (id : Option Bytes) (cleanStart : Bool) : Sessions (Sys.init id cleanStart) :=
  ⟨fun _ h => (by cases h), fun _ h => (by cases h), fun _ h => (by cases h), fun _ h => (by cases h)⟩

theorem init_encrypted (id : Option Bytes) (cleanStart : Bool) : Encrypted (Sys.init id cleanStart) :=
  fun _ _ h => (by cases h)

/-- The CA file cannot be opened; nothing else goes wrong. -/
def unreadable : Env where
  opt := ⟨fun _ => false, fun _ => true, fun _ => true, fun _ => none⟩
  rec_ := .good
  ssl := ⟨true, true, true, true, true, true, true, true, true, true, true, true, true, .done⟩

def withPassword : ConnectConfig := { ConnectConfig.plain with username := some (.of [117])
                                                               password := some (.of [112])
                                                               port := 8883 }

def withCafile : TlsConfig where
  tlsCert := some (.cafile [99])
  tlsVersion := .tlsv1_2
  tlsCiphers := none
  tlsClientCert := none
  sslContext := false
  sslContextWithDefaults := true
  tlsOCSPRequired := false
  tlsEngine := none
  tlsKeyform := none
  tlsKeyPassSHA1 := none
  tlsALPN := none
  tlsInsecure := false
  tlsCertRequired := true

/-- `connect()`, to the end of `mosquitto__reconnect`. -/
def connecting : List Act := .connect withPassword withCafile :: List.replicate 14 (.queue unreadable)

/-- The password that goes with the packet, if it is a CONNECT. -/
def password : Packet → Option (Option Bytes)
  | .connect data => some data.password
  | _ => none

theorem connectWaits_of_password {m : Mosq} {p : Option Bytes} (h : (unwritten m).map password = [some p]) :
    ConnectWaits m := by
  obtain ⟨packet, hu, hp⟩ := List.map_eq_singleton_iff.mp h
  cases packet with
  | connect data => exact ⟨data, by simp [hu]⟩
  | _ => cases hp

/-- A run to a CONNECT that waits, with its password, for a socket without a session. -/
theorem in_the_clear {b : Build} {as : List Act} {p : Option Bytes} {k : Nat}
    (hr : (Machine.run (step b) (Sys.init none true) as).map
      (fun s => ((unwritten s.c.m).map password, s.c.m.sock, session s.c)) = some ([some p], some k, none)) :
    ¬ ∀ s, Machine.Reach (step b) IsInit Machine.anyAct s → Encrypted s := by
  intro h
  obtain ⟨s, hs, hd⟩ := Machine.reach_of_map_any IsInit ⟨none, true, rfl⟩ hr
  simp only [Prod.mk.injEq] at hd
  obtain ⟨hw, hk, hn⟩ := hd
  have he := h s hs (connectWaits_of_password hw) k hk
  rw [hn] at he
  cases he

end Artemisia.Tls
