/-
  Artemisia.Threads.Locks — the mutexes of a client, and the fields that they are there for.

  Each function is here as what it does with the mutexes of `struct mosquitto` and with those of its fields
  that have one, in the order of the source; what it tests is left open. Of the other fields (`sock`, `in_packet`,
  `ping_t`) there is nothing: they have no mutex. A callback does not call the library: the closures of the Swift
  object put what they want on its queue.

  `handle__disconnect` calls `do_client_disconnect`, which gives back a mutex that only `packet__write` has taken.

  Proved:
  - `waits_end`:     a thread that waits for a mutex waits, in the end, for one that can go on, and none ends
                     with one.
  - `raced_iff`:     which fields both threads can be at the same time.
  - `unlocked_iff`:  a mutex is given back by a thread that does not have it only for a DISCONNECT of the server.
-/
import Artemisia.Lib.Mutex

namespace Artemisia.Locks

open Mutex Mutex.Code

inductive Lock where
  | callback | logCallback | msgtime | outPacket | currentOutPacket | state | mid | msgsIn | msgsOut
  deriving DecidableEq

inductive Field where
  /-- `on_connect_v5` and the other ones. -/
  | callbacks
  | onLog
  /-- `last_msg_in` and `next_msg_out`. -/
  | msgTimes
  /-- `out_packet` and `out_packet_last`. -/
  | outPacket
  | currentOutPacket
  | state
  | lastMid
  /-- `msgs_in.inflight` and its `queue_len`. -/
  | inMessages
  /-- `msgs_in.inflight_quota` and `msgs_in.inflight_maximum`. -/
  | inQuota
  | outMessages
  | outQuota
  deriving DecidableEq

abbrev Code := Mutex.Code Lock Field

/-! ## `util_mosq.c`, `logging_mosq.c` -/

def setState : Code := locked .state [use .state]

def getState : Code := locked .state [use .state]

def midGenerate : Code := locked .mid [use .lastMid]

def logPrintf : Code := locked .logCallback [use .onLog]

/-- `util__increment_receive_quota` and `util__decrement_receive_quota`. -/
def receiveQuota : Code := use .inQuota

def sendQuota : Code := use .outQuota

def calls : Code := locked .callback [use .callbacks]

def setTime : Code := locked .msgtime [use .msgTimes]

/-! ## `packet_mosq.c` -/

def doClientDisconnect : Code :=
  seqs [setState, locked .outPacket [use .currentOutPacket, use .outPacket], setTime, calls,
    unlock .currentOutPacket]

/-- A packet is written whole, and the next one is taken. -/
def packetWritten : Code :=
  seqs [use .currentOutPacket, opt [calls], locked .outPacket [use .currentOutPacket, use .outPacket], setTime]

def packetWrite : Code :=
  opt [lock .currentOutPacket, locked .outPacket [use .outPacket, use .currentOutPacket], getState,
    alt (unlock .currentOutPacket) (seqs [loop packetWritten, use .currentOutPacket,
      -- the socket takes no more, or there is no more; a DISCONNECT
      alt (unlock .currentOutPacket) doClientDisconnect])]

/-- `packet__queue`: `mosq->threaded` is not `mosq_ts_none`, and the packet is left to the loop thread. -/
def packetQueue : Code := locked .outPacket [use .outPacket]

def packetCleanupAll : Code :=
  locked .currentOutPacket [locked .outPacket [use .outPacket, use .currentOutPacket]]

/-! ## `send_*.c` -/

/-- `send__real_publish`, `send__command_with_mid` and `send__simple_command`: there is a packet, or there
    is not. -/
def sendPacket : Code := opt [packetQueue]

def sendPublish : Code := opt [logPrintf, sendPacket]

def sendPuback : Code := seqs [logPrintf, receiveQuota, sendPacket]

def sendPubcomp : Code := seqs [logPrintf, receiveQuota, sendPacket]

def sendPubrec : Code := seqs [logPrintf, opt [receiveQuota], sendPacket]

def sendPubrel : Code := seqs [logPrintf, sendPacket]

def sendPingreq : Code := seqs [logPrintf, sendPacket]

def sendPingresp : Code := seqs [logPrintf, sendPacket]

def sendConnect : Code := opt [opt [use .inQuota], opt [logPrintf, packetQueue]]

def sendDisconnect : Code := seqs [logPrintf, sendPacket]

/-- `send__subscribe` and `send__unsubscribe`, with a line in the log for each topic. -/
def sendTopics : Code := opt [midGenerate, loop logPrintf, packetQueue]

/-! ## `messages_mosq.c` -/

/-- `message__release_to_inflight`, which is called with the mutex. It stops at a message that is not sent. -/
def messageReleaseToInflight : Code :=
  loop (seqs [use .outQuota, opt [use .outMessages, opt [sendPublish, opt [sendQuota]]]])

/-- `message__queue` with `mosq_md_out`, which is called with the mutex. -/
def messageQueueOut : Code := seqs [use .outMessages, messageReleaseToInflight]

def messageQueueIn : Code := use .inMessages

/-- `message__remove`: each way out gives the mutex back. -/
def messageRemoveOut : Code := locked .msgsOut [loop (use .outMessages)]

def messageRemoveIn : Code := locked .msgsIn [loop (use .inMessages)]

def messageOutUpdate : Code := locked .msgsOut [loop (use .outMessages)]

def messageRetryCheck : Code :=
  locked .msgsOut [loop (seqs [use .outMessages, alts [sendPublish, sendPubrec, sendPubrel, skip]])]

def messageReconnectReset : Code :=
  seqs [locked .msgsIn [use .inQuota, use .inMessages, loop (seqs [use .inMessages, opt [receiveQuota]])],
    locked .msgsOut [use .outQuota, use .outMessages,
      loop (seqs [use .outMessages, use .outQuota, opt [sendQuota]])]]

/-! ## `handle_*.c` -/

def handlePingreq : Code := seqs [getState, opt [logPrintf, sendPingresp]]

def handlePingresp : Code := seqs [getState, opt [logPrintf]]

def handlePubackcomp : Code :=
  seqs [getState, opt [locked .msgsOut [sendQuota], opt [logPrintf, messageRemoveOut,
    opt [opt [calls], locked .msgsOut [messageReleaseToInflight]]]]]

def handlePublish : Code :=
  seqs [getState, opt [opt [use .inQuota], opt [logPrintf, alts [calls, seqs [receiveQuota, sendPuback, calls],
    seqs [receiveQuota, sendPubrec, locked .msgsIn [messageQueueIn]], skip]]]]

def handlePubrec : Code :=
  seqs [getState, opt [logPrintf, alt (seqs [messageOutUpdate, opt [opt [logPrintf], sendPubrel]])
    (seqs [messageRemoveOut, opt [calls], sendQuota, locked .msgsOut [messageReleaseToInflight]])]]

def handlePubrel : Code := seqs [getState, opt [logPrintf, sendPubcomp, messageRemoveIn, opt [calls]]]

def handleConnack : Code :=
  alts [skip, seqs [logPrintf, calls],
    seqs [use .outQuota, logPrintf, calls, opt [locked .state [use .state], messageRetryCheck]]]

def handleSuback : Code := seqs [getState, opt [logPrintf, opt [calls]]]

def handleUnsuback : Code := seqs [getState, opt [logPrintf, opt [calls]]]

def handleDisconnect : Code := opt [logPrintf, doClientDisconnect]

def handleAuth : Code := logPrintf

/-- `handle__packet`, from a server that sends a DISCONNECT or one that does not. -/
def handlePacket (disconnects : Bool) : Code :=
  alts ([handlePingreq, handlePingresp, handlePubackcomp, handlePublish, handlePubrec, handlePubrel,
    handleConnack,
    handleSuback, handleUnsuback, handleAuth, logPrintf] ++ if disconnects then [handleDisconnect] else [])

/-! ## `loop.c`, `connect.c` and `thread_mosq.c` -/

def packetRead (disconnects : Bool) : Code :=
  opt [getState, opt [alts [skip, setTime, seqs [handlePacket disconnects, setTime]]]]

def loopRcHandle : Code := opt [getState, calls]

def loopRead (disconnects : Bool) : Code :=
  seqs [locked .msgsOut [use .outMessages], locked .msgsIn [use .inMessages], loop (packetRead disconnects),
    loopRcHandle]

def loopWrite : Code :=
  seqs [locked .msgsOut [use .outMessages], locked .msgsIn [use .inMessages], loop packetWrite, loopRcHandle]

def checkKeepalive : Code :=
  seqs [locked .msgtime [use .msgTimes],
    opt [getState, alt (seqs [sendPingreq, setTime]) (seqs [getState, calls])]]

def mosquittoLoop (disconnects : Bool) : Code :=
  opt [locked .currentOutPacket [locked .outPacket [use .outPacket, use .currentOutPacket]], use .msgTimes,
    opt [opt [loopRead disconnects], opt [opt [loopWrite], opt [checkKeepalive]]]]

def mosquittoReconnect : Code :=
  opt [setTime, packetCleanupAll, messageReconnectReset,
    alt setState (seqs [setState, sendConnect, opt [packetCleanupAll, setState]])]

def loopForever (disconnects : Bool) : Code :=
  loop (seqs [loop (mosquittoLoop disconnects), loop (seqs [getState, opt [getState, opt [mosquittoReconnect]]])])

def threadMain (disconnects : Bool) : Code := seqs [getState, loop getState, loopForever disconnects]

/-! ## The queue of the Swift object -/

/-- `setupMosquitto` sets the maxima, and `setupCallbacks` six callbacks. -/
def connect : Code :=
  seqs [opt [use .outQuota, use .inQuota], seqs (List.replicate 6 calls),
    opt [opt [use .inQuota, use .outQuota, setState, mosquittoReconnect]]]

/-- `mosquitto_publish_v5`. -/
def publish : Code := opt [midGenerate, alts [sendPublish, skip, locked .msgsOut [messageQueueOut]]]

/-- `mosquitto_disconnect_v5`. -/
def disconnect : Code := opt [setState, opt [sendDisconnect]]

/-- Calls, one after the other; `subscribe` and `unsubscribe` are the same here. -/
def queueMain : Code := loop (alts [connect, publish, sendTopics, disconnect])

inductive Thread where
  | queue | loop
  deriving DecidableEq

def program (disconnects : Bool) : Thread → Code
  | .queue => queueMain
  | .loop => threadMain disconnects

/-! ## The rules -/

/-- With `msgs_in.mutex` or `msgs_out.mutex` other mutexes are taken, and with `current_out_packet_mutex`. -/
def rank : Lock → Nat
  | .msgsIn | .msgsOut => 0
  | .currentOutPacket => 1
  | .callback | .logCallback | .msgtime | .outPacket | .state | .mid => 2

/-- The fields that are also used without their mutex. -/
def unguarded : Field → Bool
  | .msgTimes | .inQuota | .outQuota => true
  | .callbacks | .onLog | .outPacket | .currentOutPacket | .state | .lastMid | .inMessages | .outMessages => false

def lockOf : Field → Lock
  | .callbacks => .callback
  | .onLog => .logCallback
  | .msgTimes => .msgtime
  | .outPacket => .outPacket
  | .currentOutPacket => .currentOutPacket
  | .state => .state
  | .lastMid => .mid
  | .inMessages | .inQuota => .msgsIn
  | .outMessages | .outQuota => .msgsOut

def rules (disconnects : Bool) : Rules Lock Field where
  rank := rank
  guard := fun v => if unguarded v then none else some (lockOf v)
  strict := fun l => !disconnects || l ≠ .currentOutPacket

theorem program_keeps (disconnects : Bool) (t : Thread) : (program disconnects t).Keeps (rules disconnects) := by
  cases disconnects <;> cases t <;> decide +kernel

/-! ## Runs -/

abbrev State := Config Thread Lock Field

def Reached (disconnects : Bool) (c : State) : Prop :=
  Machine.Reach step (· = Config.start (program disconnects)) Machine.anyAct c

theorem reached_follows {disconnects : Bool} {c : State} (h : Reached disconnects c) :
    ∃ held, Follows (rules disconnects) c held := follows_of_reach (program_keeps disconnects) h

/-- The thread does this many steps, then goes the second way, and so on. -/
def goes (t : Thread) (turns : List Nat) (steps : Nat) : List (Thread × Bool) :=
  (turns.flatMap fun n => List.replicate n (t, false) ++ [(t, true)]) ++ List.replicate steps (t, false)

/-- A run that comes to a state that has it. -/
theorem reached_of_run {disconnects : Bool} {has : State → Bool} (as : List (Thread × Bool))
    (h : (Machine.run step (Config.start (program disconnects)) as).map has = some true) :
    ∃ c, Reached disconnects c ∧ has c = true :=
  Machine.reach_of_map_any (· = Config.start (program disconnects)) rfl h

/-! ## Who waits -/

/-- A thread that waits for a mutex waits, in the end, for one that can go on; a thread that is done has none. -/
theorem waits_end (disconnects : Bool) {c : State} (h : Reached disconnects c) (t : Thread) :
    (c.todo t ≠ [] → ∀ choice, ∃ u, Relation.ReflTransGen c.Awaits t u ∧ ∃ c', step c (u, choice) = some c') ∧
    (c.todo t = [] → ∀ l, c.owner l ≠ some t) := by
  obtain ⟨held, hf⟩ := reached_follows h
  have hbound (l : Lock) : (rules disconnects).rank l ≤ 2 := by
    show rank l ≤ 2
    cases l <;> decide
  exact ⟨fun ht choice => no_deadlock hf hbound ht choice, fun hdone l ho => hf.busy ho hdone⟩

/-- The queue is about to take the mutex of the messages, which the loop thread has. -/
def queueWaits (c : State) : Bool := (c.todo .queue).head? = some (.lock .msgsOut) ∧ c.owner .msgsOut = some .loop

theorem waits_end_msgsOut : ∃ c, Reached true c ∧ c.todo .queue ≠ [] ∧
    ∃ u, Relation.ReflTransGen c.Awaits .queue u ∧ ∃ c', step c (u, true) = some c' := by
  obtain ⟨c, hr, hc⟩ : ∃ c, Reached true c ∧ queueWaits c = true :=
    reached_of_run (goes .loop [11, 1, 0, 19, 1] 6 ++ goes .queue [0, 0, 1, 9, 0] 1) (by decide +kernel)
  have hwaits : (c.todo .queue).head? = some (.lock .msgsOut) ∧ c.owner .msgsOut = some .loop :=
    of_decide_eq_true hc
  have ht : c.todo .queue ≠ [] := by
    intro h
    rw [h] at hwaits
    cases hwaits.1
  exact ⟨c, hr, ht, (waits_end true hr .queue).1 ht true⟩

/-! ## Who uses what -/

def bothUse (v : Field) (c : State) : Bool :=
  (c.todo .queue).head? = some (.use v) ∧ (c.todo .loop).head? = some (.use v)

/-- Runs of the two threads to where they use the same field. -/
def race : Field → List (Thread × Bool)
  -- `mosquitto_loop` before `pselect`, and `connect()` in `mosquitto__reconnect`
  | .msgTimes => goes .loop [11, 1, 0] 17 ++ goes .queue [0, 55, 1, 13] 5
  -- `handle__publish`, and `connect()` in `setupMosquitto`
  | .inQuota => goes .loop [11, 1, 0, 19, 1, 18, 0, 9, 1, 0, 1, 0, 0, 10, 1] 1 ++ goes .queue [0, 2] 3
  -- `handle__connack`, and `publish` in `message__release_to_inflight`
  | .outQuota => goes .loop [11, 1, 0, 19, 1, 18, 0, 9, 1, 0, 1, 0, 0, 0, 0, 0, 1, 0] 1 ++
      goes .queue [0, 0, 1, 9, 0, 7] 1
  | _ => []

theorem race_runs (disconnects : Bool) {v : Field} (hv : unguarded v = true) :
    (Machine.run step (Config.start (program disconnects)) (race v)).map (bothUse v) = some true := by
  cases v with
  | msgTimes | inQuota | outQuota => cases disconnects <;> decide +kernel
  | _ => cases hv

/-- Both threads can be at a field at the same time exactly if it is one that is also used without its mutex; of
    `current_out_packet` this is left open where the server sends a DISCONNECT. -/
theorem raced_iff (disconnects : Bool) (v : Field) (hv : v = .currentOutPacket → disconnects = false) :
    (∃ c, Reached disconnects c ∧ c.Uses .queue v ∧ c.Uses .loop v) ↔ unguarded v = true := by
  constructor
  · intro h
    obtain ⟨c, hr, hqueue, hloop⟩ := h
    by_contra hguarded
    obtain ⟨held, hf⟩ := reached_follows hr
    have hguard : (rules disconnects).guard v = some (lockOf v) := if_neg hguarded
    have hstrict : (rules disconnects).strict (lockOf v) = true := by
      cases v with
      | currentOutPacket =>
        rw [hv rfl]
        rfl
      | _ => simp [rules, lockOf]
    cases exclusive hf hguard hstrict hqueue hloop
  · intro h
    obtain ⟨c, hr, hc⟩ := reached_of_run (race v) (race_runs disconnects h)
    have hboth : (c.todo .queue).head? = some (.use v) ∧ (c.todo .loop).head? = some (.use v) :=
      of_decide_eq_true hc
    exact ⟨c, hr, hboth.1, hboth.2⟩

theorem raced_iff_outPacket : (Field.outPacket = .currentOutPacket → true = false) ∧
    ((∃ c, Reached true c ∧ c.Uses .queue .outPacket ∧ c.Uses .loop .outPacket) ↔ unguarded .outPacket = true) :=
  ⟨fun h => (by cases h), raced_iff true .outPacket (fun h => by cases h)⟩

/-- A mutex is given back by a thread that does not have it exactly if it is `current_out_packet_mutex`, and
    the server sends a DISCONNECT. -/
theorem unlocked_iff (disconnects : Bool) (l : Lock) :
    (∃ c, Reached disconnects c ∧ c.foul l = true) ↔ disconnects = true ∧ l = .currentOutPacket := by
  constructor
  · intro h
    obtain ⟨c, hr, hfoul⟩ := h
    obtain ⟨held, hf⟩ := reached_follows hr
    have hloose : (rules disconnects).strict l = false := by
      by_contra hs
      have hclean := hf.clean l (by simpa using hs)
      rw [hfoul] at hclean
      cases hclean
    simpa [rules] using hloose
  · rintro ⟨rfl, rfl⟩
    exact reached_of_run (goes .loop [11, 1, 0, 19, 1, 18, 0, 9, 1, 0, 1, 0, 0, 0, 0, 0, 0, 0, 0, 0, 0, 0] 45)
      (by decide +kernel)

end Artemisia.Locks
