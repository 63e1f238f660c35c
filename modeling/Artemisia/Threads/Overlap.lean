/-
  Artemisia.Threads.Overlap — the window of the server, when a thread is in the middle of a step that uses the
  send quota.

  `publish`, the handler of PUBACK and PUBCOMP and `message__reconnect_reset` use `msgs_out.inflight_quota` with
  `msgs_out.mutex`. `handle__pubrec` raises it before it takes the mutex, and `handle__connack` and
  `mosquitto__connect_init` set it without. So the other thread can change it between the load and the store.

  Proved:
  - `flow_controlled`:          the window is kept to in a run in which the quota is only set and raised where it
                                fits, and stays as it is between a load and a store.
  - `retried_over_the_window`:  a message that is retried is not counted, and two are sent in a window of one.
-/
import Artemisia.Lib.Split
import Artemisia.Threads.Flow
import Artemisia.Threads.Sides

namespace Artemisia.Threads

open Artemisia.Property Artemisia.Client

/-! ## The cell -/

def usesQuota (s : Sys) : Act → Bool
  | .publish _ a => a.qos > 0
  | .loop (.packet p _ _) => (raises s.m p).isSome || (announced s.m p).isSome
  | .loop (.tick _) => s.loop = .rec_ .reset
  | .queue _ => match s.queue with
    | .connectBind _ | .rec_ .reset _ => true
    | _ => false
  | _ => false

/-- `msgs_out.inflight_quota`, with the maximum that it is set to or compared with. Of the two it is the quota
    that a step stores again as it had loaded it. -/
def sendQuota : Split.Cell Sys Act Side (Nat × Nat) where
  thread a := sideOf (.act a)
  splits := usesQuota
  load s := (s.m.msgsOut.inflightQuota, s.m.msgsOut.inflightMaximum)
  store s v := { s with m := { s.m with msgsOut := { s.m.msgsOut with inflightQuota := v.1 } } }
  store_load _ := rfl

abbrev QuotaState := Split.State Sys Act Side (Nat × Nat)

abbrev QuotaTurn := Split.Turn Act Side

/-- The two threads, where a step that uses the quota may take two turns. -/
abbrev quotaTurn := Split.turn sendQuota step

/-- The quota and its maximum stay as they are between a load and a store, and whatever sets or raises the
    quota fits. -/
def KeepsQuota (x : QuotaState) (e : QuotaTurn) : Prop :=
  Split.Steady sendQuota x e ∧ Split.Guarded (fun s a => Fits s a = true) x e

instance (x : QuotaState) (e : QuotaTurn) : Decidable (KeepsQuota x e) :=
  inferInstanceAs (Decidable (_ ∧ _))

/-! ## Runs -/

/-- In a run in which the quota is only set and raised where it fits, and no thread changes it between a load
    and a store of the other, the window is kept to. -/
theorem flow_controlled {x : QuotaState} (h : Machine.Reach quotaTurn (Split.Starts IsInit) KeepsQuota x) :
    FlowControl x.now := flow_kept (Split.reach_now h)

/-- Nothing has been begun. -/
def resting (s : Sys) : QuotaState := ⟨s, fun _ => none⟩

theorem starts_resting (id : Option Bytes) (cleanStart : Bool) :
    Split.Starts IsInit (resting (Sys.init id cleanStart)) :=
  ⟨⟨id, cleanStart, rfl⟩, rfl⟩

/-- Two messages are published in a window of one: the second waits for the acknowledgement of the first. The
    loop thread begins with the acknowledgement, and the second is published before it ends. -/
def inTurn : List QuotaTurn :=
  (established (receiveMaximum 1) ++ [publishes, publishes, .loop (.select (.ready true))]).map
    Split.Turn.whole ++
    [.load (.loop (.packet (.pubackcomp .puback (.ok 1) (.ok 0)) true RecEnv.good.alloc)), .whole publishes,
      .store .loop]

theorem flow_controlled_inTurn : ∃ x, Machine.run quotaTurn (resting (Sys.init none true)) inTurn = some x ∧
    x.now.limit = some 1 ∧ sent x.now.m = 1 ∧ x.now.m.published = 3 ∧ FlowControl x.now := by
  have hm : Machine.Meets quotaTurn KeepsQuota (resting (Sys.init none true)) inTurn := by decide
  have hr : (Machine.run quotaTurn (resting (Sys.init none true)) inTurn).map
      (fun x => (x.now.limit, sent x.now.m, x.now.m.published)) = some (some 1, 1, 3) := by decide
  obtain ⟨x, hs, hreach, hd⟩ := Machine.reach_of_map (Split.Starts IsInit) (starts_resting none true) hm hr
  simp only [Prod.mk.injEq] at hd
  exact ⟨x, hs, hd.1, hd.2.1, hd.2.2, flow_controlled hreach⟩

def publishes2 : Act :=
  .publish RecEnv.good.alloc
    { topic := some (.of [116]), payload := [], qos := 2, retain := false, properties := [],
      clientGenerated := false }

/-- In a window of three, with two messages in flight, a PUBREC refuses the first. A third is published
    between the load and the store of the handler; what it has taken from the quota is lost, and two more
    are sent. -/
example : (Machine.run quotaTurn (resting (Sys.init none true))
    ((established (receiveMaximum 3) ++
        [publishes2, publishes2, .loop (.select (.ready true))]).map Split.Turn.whole ++
      [.load (.loop (.packet (.pubrec (.ok 1) (.ok 0x80)) true RecEnv.good.alloc)),
        .whole publishes2, .store .loop, .whole publishes2, .whole publishes2])).map
      (fun x => (x.now.limit, sent x.now.m)) = some (some 3, 4) := by decide

/-! ## A message is retried -/

/-- A message is sent in a window of one, and the connection is lost. On the new one the message is retried, and
    another is published. -/
def retried : List Act :=
  established (receiveMaximum 1) ++ [publishes] ++ loses ++ [tick, tick, tick, tick, tick, tick] ++
    writes ++ ends ++
    reads (connack 0 (receiveMaximum 1)) ++ [tick] ++ idles ++ [publishes] ++ writes

/-- Both are written, neither is acknowledged. -/
theorem retried_over_the_window :
    ¬ ∀ x, Machine.Reach quotaTurn (Split.Starts IsInit) Machine.anyAct x → FlowControl x.now := by
  intro h
  have hr : (Machine.run step (Sys.init none true) retried).map
      (fun s => (s.limit, sent s.m, (unwritten s.m).length)) = some (some 1, 2, 0) := by decide
  obtain ⟨s, hs, hd⟩ := Machine.reach_of_map_any IsInit ⟨none, true, rfl⟩ hr
  simp only [Prod.mk.injEq] at hd
  have hkeep := h (resting s) (Split.reach_whole (fun _ _ _ => trivial) hs) 1 hd.1
  have hsent : sent (resting s).now.m = 2 := hd.2.1
  omega

end Artemisia.Threads
