/-
  Artemisia.Threads.Flow — does the client keep to the window of the server, when no two steps overlap?

  The quota is what the client may still send. `handle__connack` sets it to the Receive Maximum whatever
  has been sent on the connection already, whatever `message__retry_check` sends next, and whatever
  `sendMaximum` says; an acknowledgement raises it before the packet id is looked up; and both
  `mosquitto__connect_init` and `message__reconnect_reset` set it while the old socket is still open.

  Proved:
  - `step_window`:  a step that meets `Fits` keeps what is sent and the quota within the window.
  - `flow_kept`:    so over a run: no more is in flight than the window allows.
-/
import Artemisia.Client.Quota
import Artemisia.Threads.Disconnect

namespace Artemisia.Threads

open Artemisia.Property Artemisia.Client

/-! ## The property -/

def Within (limit : Option Nat) (n : Nat) : Prop := ∀ L ∈ limit, n ≤ L

instance (limit : Option Nat) (n : Nat) : Decidable (Within limit n) :=
  inferInstanceAs (Decidable (∀ L ∈ limit, n ≤ L))

/-- What has been sent on the current connection and is not finished is within the window agreed on it. -/
def FlowControl (s : Sys) : Prop := Within s.limit (sent s.m)

/-- The window once `handle__connack` has gone on with reason code 0. -/
def agreed (s : Sys) (receiveMaximum : Nat) : Option Nat :=
  if s.m.protocol = .mqtt5 ∧ s.accepted = s.m.sock then some (min s.sendMax receiveMaximum) else s.limit

/-- A CONNACK announces no more than what is left of a window that is agreed already, and an acknowledgement that
    raises the quota finishes a message sent on this connection or finds room. -/
def packetFits (s : Sys) (p : InPacket) : Bool :=
  (announced s.m p).all (fun max => Within s.limit (sent s.m + max)) &&
    (raises s.m p).all fun r => finishes s.m r.1 r.2 || Within s.limit (sent s.m + raisedQuota s.m)

/-- The quota that `message__reconnect_reset` leaves fits the window of a socket that is still open. -/
def resetFits (s : Sys) : Bool :=
  Within s.limit (sent s.m + (s.m.msgsOut.inflightMaximum - s.m.msgsOut.inflight.length))

/-- Wherever the quota is set or raised, it fits the window together with what has been sent. When the window is
    agreed, what is about to be retried counts as sent. -/
def Fits (s : Sys) : Act → Bool
  | .loop (.packet p _ _) => packetFits s p
  | .loop (.tick _) => match s.loop with
    | .connack 0 receiveMaximum _ =>
      Within (agreed s receiveMaximum) (s.m.msgsOut.inflight.countP (dueOnConn s.m.sock) +
        s.m.msgsOut.inflightQuota)
    | .rec_ .reset => resetFits s
    | _ => true
  | .queue env => match s.queue with
    | .connectBind c =>
      (connectBind env s.m c).2 ≠ .success || Within s.limit (sent s.m + s.m.msgsOut.inflightMaximum)
    | .rec_ .reset _ => resetFits s
    | _ => true
  | _ => true

/-! ## One step -/

/-- The invariant: what is sent, and what may still be, is within the window. -/
def Window (s : Sys) : Prop := Within s.limit (used s.m)

theorem Window.flow {s : Sys} (h : Window s) : FlowControl s :=
  fun L hL => (Nat.le_add_right _ _).trans (h L hL)

/-- A step need only say what it does to the account of an open connection. -/
theorem window_upd {s s' : Sys} {m : Mosq} (hm : s'.m = m) (hl : s'.limit = (s.upd m).limit)
    (h : m.sock = s.m.sock → Within s.limit (used m)) : Window s' := by
  intro L hL
  rw [hl, Sys.upd] at hL
  split at hL
  · rename_i hs
    exact hm ▸ h hs L hL
  · cases hL

theorem Window.le {s s' : Sys} {m : Mosq} (hi : Window s) (hm : s'.m = m) (hl : s'.limit = (s.upd m).limit)
    (h : m.sock = s.m.sock → used m ≤ used s.m) : Window s' :=
  window_upd hm hl (fun hs L hL => (h hs).trans (hi L hL))

/-- A step that leaves the messages out alone. -/
theorem Window.store {s s' : Sys} {m : Mosq} (hi : Window s) (hm : s'.m = m) (hl : s'.limit = (s.upd m).limit)
    (h : m.msgsOut = s.m.msgsOut) : Window s' :=
  hi.le hm hl (fun hs => (used_congr h hs).le)

theorem used_setupMosquitto (m : Mosq) (c : ConnectConfig) : used (setupMosquitto m c) = used m := by
  obtain ⟨username, password, e⟩ := setupMosquitto_eq m c
  rw [e]
  unfold used
  dsimp only
  split <;> rfl

theorem used_connectBind (env : RecEnv) (m : Mosq) (c : ConnectConfig) :
    used (connectBind env m c).1 = used m ∨
      (used (connectBind env m c).1 = sent m + m.msgsOut.inflightMaximum ∧
      (connectBind env m c).2 = .success) := by
  rcases connectBind_cases m env c with ⟨e, -⟩ | ⟨id, e⟩
  · exact .inl (congrArg used e)
  · rw [e]
    exact .inr ⟨rfl, rfl⟩

theorem within_packet {s : Sys} {p : InPacket} (alloc : Alloc) (hi : Window s) (hf : packetFits s p = true) :
    Within s.limit (used (handlePacket alloc s.m p).1) := by
  simp only [packetFits, Bool.and_eq_true, Option.all_eq_true, decide_eq_true_eq, Bool.or_eq_true] at hf
  obtain ⟨ha, hr⟩ := hf
  cases hr' : raises s.m p with
  | some r =>
    have hu := used_raises alloc s.m hr'
    rcases hr r hr' with hfin | hw
    · -- the message that is finished makes room for the one that may be sent
      intro L hL
      have := hi L hL
      have hq := (incrementQuota_frame s.m.msgsOut).2.2
      rw [if_pos hfin] at hu
      unfold used at this
      unfold raisedQuota at hu
      omega
    · exact fun L hL => ((Nat.le_add_right _ _).trans hu).trans (hw L hL)
  | none =>
    cases ha' : announced s.m p with
    | none => exact fun L hL => (used_handlePacket alloc s.m hr' ha').trans (hi L hL)
    | some max =>
      cases p with
      | connack flags reason l =>
        have hu := used_handleConnack s.m flags reason l
        rw [ha'] at hu
        exact fun L hL => hu.le.trans (ha max ha' L hL)
      | _ => cases ha'

theorem window_packet {s t : Sys} {p : InPacket} {turn : Turn} {alloc : Alloc} (hi : Window s)
    (hf : packetFits s p = true) (h : ReadMoves s p turn alloc t) : Window t := by
  have hw := within_packet alloc hi hf
  cases h with
  | done m rc e hc he hr =>
    rw [e] at hw
    exact window_upd rfl rfl (fun _ => hw)
  | connack m r max e hc he hr =>
    rw [e] at hw
    exact window_upd rfl rfl (fun _ => hw)
  | unsupported m e hc he hr =>
    rw [e] at hw
    exact window_upd rfl rfl (fun _ => hw)
  | disconnect e he hr => exact hi.store rfl rfl rfl

theorem window_recMoves {s s' : Sys} {env : RecEnv} {l : List MosquittoProperty} {pc : RecPc} {next : RecPc ⊕ Rc}
    (hi : Window s) (h : RecMoves env l s.m pc s'.m next) (hl : s'.limit = (s.upd s'.m).limit)
    (hf : pc = .reset → resetFits s = true) : Window s' := by
  generalize hm : s'.m = m at h
  rw [hm] at hl
  cases h with
  | reset =>
    refine window_upd hm hl (fun _ => ?_)
    rw [used_messageReconnectReset]
    simpa [resetFits] using hf rfl
  | sent hs => exact hi.store hm hl (msgsOut_sendConnect ..)
  | unsent rc hs => exact hi.store hm hl (msgsOut_sendConnect ..)
  | _ => exact hi.store hm hl rfl

theorem used_connackSwitch (alloc : Alloc) (m : Mosq) (r : UInt8) : used (connackSwitch alloc m r).1 ≤
    if r = 0 then m.msgsOut.inflight.countP (dueOnConn m.sock) + m.msgsOut.inflightQuota else used m := by
  unfold connackSwitch
  split
  · dsimp only
    split
    · exact used_messageRetryCheck alloc (m.setState .active)
    · exact used_messageRetryCheck alloc m
  · split <;> exact Nat.le_refl _

/-- `handle__connack` goes on after its callback: the window is agreed. -/
theorem window_connack {s s' : Sys} {alloc : Alloc} {r : UInt8} (max : Nat) (hi : Window s)
    (hm : s'.m = (connackSwitch alloc s.m r).1) (hl : s'.limit = if r = 0 then agreed s max else s.limit)
    (hf : r = 0 → Within (agreed s max)
      (s.m.msgsOut.inflight.countP (dueOnConn s.m.sock) + s.m.msgsOut.inflightQuota)) : Window s' := by
  have hu := used_connackSwitch alloc s.m r
  intro L hL
  rw [hm]
  rw [hl] at hL
  by_cases h0 : r = 0
  · rw [if_pos h0] at hu hL
    exact hu.trans (hf h0 L hL)
  · rw [if_neg h0] at hu hL
    exact hu.trans (hi L hL)

theorem step_window {s s' : Sys} {a : Act} (hi : Window s) (hg : Fits s a = true) (h : Moves s a s') :
    Window s' := by
  cases h with
  | connect c hq => exact hi.le rfl rfl (fun _ => (used_setupMosquitto ..).le)
  | publish alloc a hq ha => exact hi.le rfl rfl (fun _ => used_mosquittoPublishV5 ..)
  | disconnect r l hq hc => exact hi.store rfl rfl rfl
  | bind env c hq =>
    simp only [Fits, hq, Bool.or_eq_true, decide_eq_true_eq] at hg
    rcases used_connectBind env s.m c with e | ⟨e, hs⟩
    · exact hi.le rfl rfl (fun _ => e.le)
    · exact window_upd rfl rfl (fun _ L hL => e.le.trans (hg.resolve_left (not_not.mpr hs) L hL))
  | setNew env l hq => exact hi.store rfl rfl rfl
  | queueRec env pc pc' l m hq e =>
    refine window_recMoves hi e rfl (fun hpc => ?_)
    subst hpc
    simpa [Fits, hq] using hg
  | queueRecEnd env pc l m rc hq e =>
    refine window_recMoves hi e rfl (fun hpc => ?_)
    subst hpc
    cases e
  | discSend env r l hq => exact hi.store rfl rfl (msgsOut_disconnectSend ..)
  | packet i n p again alloc hl hs hp t ht => exact window_packet hi hg ht
  | connack r max turn env hl =>
    obtain ⟨c, hm⟩ := connackSwitch_state env.alloc s.m r
    have hsock : (connackSwitch env.alloc s.m r).1.sock = s.m.sock := congrArg Conn.sock hm
    have hprot : (connackSwitch env.alloc s.m r).1.protocol = s.m.protocol := congrArg Conn.protocol hm
    refine window_connack max hi rfl ?_ (fun h0 => ?_)
    · dsimp only [Sys.upd, agreed]
      rw [hsock, hprot]
      by_cases h0 : r = 0 <;> simp [h0]
    · subst h0
      simpa [Fits, hl] using hg
  | discCall turn env hl => exact hi.store rfl rfl rfl
  | write i n taken e again m rc hl he =>
    have hm := msgsOut_packetWrite s.m e.rc taken
    rw [he] at hm
    exact hi.store rfl rfl hm
  | writeDisconnect i n taken e again m hl he =>
    have hm := msgsOut_packetWrite s.m e.rc taken
    rw [he] at hm
    exact hi.store rfl rfl hm
  | rcClose rc turn env hl => exact hi.store rfl rfl rfl
  | rcCall rc turn env hl => exact hi.store rfl rfl rfl
  | ping alloc hl hs ht => exact hi.store rfl rfl (msgsOut_sendPingreq ..)
  | unanswered alloc rc hl hs ht => exact hi.store rfl rfl rfl
  | kaCall rc env hl => exact hi.store rfl rfl rfl
  | loopRec env pc pc' m hl e =>
    refine window_recMoves hi e rfl (fun hpc => ?_)
    subst hpc
    simpa [Fits, hl] using hg
  | loopRecEnd env pc m rc hl e =>
    refine window_recMoves hi e rfl (fun hpc => ?_)
    subst hpc
    cases e
  | _ => exact hi

/-! ## Runs -/

theorem init_window {s : Sys} (h : IsInit s) : Window s := by
  obtain ⟨id, cleanStart, rfl⟩ := h
  exact fun L hL => (by cases hL)

/-- In a run in which the quota is only set and raised where it fits, the window is kept to. -/
theorem flow_kept {s : Sys} (h : Machine.Reach step IsInit (fun s a => Fits s a = true) s) : FlowControl s :=
  (h.inv (fun _ => init_window) (fun _ _ _ hi hg hs => step_window hi hg (step_moves hs))).flow

def receiveMaximum (n : UInt16) : List MosquittoProperty := [⟨.receiveMaximum, n⟩]

def publishes : Act :=
  .publish RecEnv.good.alloc
    { topic := some (.of [116]), payload := [], qos := 1, retain := false, properties := [],
      clientGenerated := false }

end Artemisia.Threads
