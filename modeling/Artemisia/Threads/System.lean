/-
  Artemisia.Threads.System — the two threads of a client as one state machine.

  The application's calls run one after the other on the serial queue of the Swift object
  (`Mosquitto.swift`); the network runs on the thread that `mosquitto_loop_start` creates
  (`thread_mosq.c`, `loop.c`). A call of `publish` is one step, and so is a packet handler but for its
  callback points; `connect()`, `disconnect()` and `mosquitto_loop` are cut where they release a mutex or look at
  the state or the socket again. What the socket, the server and the clock do is in the action. A step that ends
  the process is not enabled.

  Inside such a step the other thread can still come to a field that is used without its mutex; `Threads.Locks`
  has which ones. For the send quota `Threads.Overlap` takes the steps apart, and for `mosq->sock` in
  `net__socket_close` and `net__try_connect` `Threads.Sockets` does.

  `accepted`, `limit`, `sendMax` and `discReturned` only record: what a step does to the rest does not
  depend on them. `limit` is made of `accepted` and `sendMax` when a CONNACK has been handled.
-/
import Artemisia.Lib.Machine
import Artemisia.Client.Connect

namespace Artemisia.Threads

open Artemisia.Property Artemisia.Client

/-! ## Where the threads stand -/

/-- What is left to do in `mosquitto_loop_read` or `mosquitto_loop_write` after turn `i` of `n`; `again`
    says that `errno` was left at `EAGAIN`. -/
inductive Turn where
  | read (i n : Nat) (again : Bool)
  | write (i n : Nat) (again : Bool)
  deriving DecidableEq, Repr

inductive LoopPc where
  | none
  /-- `mosquitto__thread_main` waits for the state to leave `mosq_cs_new`. -/
  | waitNew
  /-- `mosquitto_loop` is called. -/
  | top
  /-- `packet__read`, turn `i` of `n`. -/
  | read (i n : Nat)
  /-- `handle__connack` after its callback, with the Receive Maximum in force. -/
  | connack (reason : UInt8) (receiveMaximum : Nat) (turn : Turn)
  /-- `do_client_disconnect` has closed the socket; its callback comes next. -/
  | discCall (turn : Turn)
  | selWrite
  /-- `packet__write`, turn `i` of `n`. -/
  | write (i n : Nat)
  /-- `mosquitto__loop_rc_handle` with an error. -/
  | rcClose (rc : Rc) (turn : Turn)
  /-- It has closed the socket; its callback comes next. -/
  | rcCall (rc : Rc) (turn : Turn)
  | misc
  /-- `mosquitto__check_keepalive` has closed the socket; its callback comes next. -/
  | kaCall (rc : Rc)
  /-- `mosquitto_loop` has returned. -/
  | ret (rc : Rc)
  /-- The inner loop of `mosquitto_loop_forever`: the state is looked at before and after the sleep. -/
  | check1
  | sleep
  | check2
  | rec_ (at_ : RecPc)
  /-- `mosquitto_loop_forever` has returned, and the thread with it. -/
  | exited
  deriving DecidableEq, Repr

/-- Where the application's queue stands in the call it runs. -/
inductive QueuePc where
  | idle
  | loopStart (c : ConnectConfig)
  | connectBind (c : ConnectConfig)
  | setNew (properties : List MosquittoProperty)
  | rec_ (at_ : RecPc) (properties : List MosquittoProperty)
  /-- `mosquitto_disconnect_v5` after the state is set. -/
  | discSend (reason : UInt8) (properties : List MosquittoProperty)

structure Sys where
  m : Mosq
  loop : LoopPc
  queue : QueuePc
  /-- `CallbackWrapper.connected`. -/
  connected : Bool
  /-- The connection that the last CONNACK with reason 0 came on. -/
  accepted : Option Nat
  /-- The window of the current connection, once a CONNACK with reason 0 has been handled on it. -/
  limit : Option Nat
  /-- The `sendMaximum` in force. -/
  sendMax : Nat
  /-- How many sockets had been opened when the last `mosquitto_disconnect_v5` returned, until `connect()`
      is called again. -/
  discReturned : Option Nat

def Sys.init (id : Option Bytes) (cleanStart : Bool) : Sys where
  m := Mosq.new id cleanStart
  loop := .none
  queue := .idle
  connected := false
  accepted := none
  limit := none
  sendMax := 20
  discReturned := none

/-- A client just made by `mosquitto_new`. -/
def IsInit (s : Sys) : Prop := ∃ id cleanStart, s = Sys.init id cleanStart

/-! ## Actions -/

inductive Select where
  /-- A descriptor is past `FD_SETSIZE`. -/
  | badFd
  | interrupted
  | failed
  | ready (readable : Bool)
  deriving DecidableEq, Repr

/-- How `packet__read` ends without a whole packet. -/
inductive ReadEnd where
  | incomplete | lost | failed | malformed | nomem
  deriving DecidableEq, Repr

def ReadEnd.rc : ReadEnd → Rc
  | .incomplete => .success
  | .lost => .connLost
  | .failed => .errno
  | .malformed => .protocol
  | .nomem => .nomem

/-- What `net__write` makes of a packet it does not take whole. -/
inductive WriteEnd where
  | blocked | lost | failed
  deriving DecidableEq, Repr

def WriteEnd.rc : WriteEnd → Rc
  | .blocked => .success
  | .lost => .connLost
  | .failed => .errno

/-- What happens to the loop thread where it stands. -/
inductive LoopEv where
  | tick (env : RecEnv)
  | select (r : Select)
  | packet (p : InPacket) (again : Bool) (alloc : Alloc)
  | noPacket (e : ReadEnd) (again : Bool)
  | writable (b : Bool)
  | write (taken : Nat) (e : WriteEnd) (again : Bool)
  /-- `mosquitto__check_keepalive`: whether its time has come. -/
  | keepalive (due : Bool) (alloc : Alloc)
  /-- `mosquitto_loop` has returned and left `errno` at `EPROTO` or not. -/
  | errno (eproto : Bool)
  | slept (ok : Bool)

inductive Act where
  | connect (c : ConnectConfig)
  | publish (alloc : Alloc) (a : PublishArgs)
  | disconnect (reason : UInt8) (properties : List MosquittoProperty)
  /-- The application's queue goes on with its call. -/
  | queue (env : RecEnv)
  | loop (e : LoopEv)

/-! ## Steps -/

/-- The client changes; a window belongs to the socket it was agreed on. -/
def Sys.upd (s : Sys) (m : Mosq) : Sys := { s with m := m, limit := if m.sock = s.m.sock then s.limit else none }

/-- The errors on which `mosquitto_loop_forever` returns. -/
def fatal : Rc → Bool
  | .nomem | .protocol | .inval | .notFound | .tls | .payloadSize | .notSupported | .auth | .aclDenied | .unknown
  | .eai | .proxy => true
  | _ => false

def ended (c : ClientState) : Bool := c = .disconnecting || c = .disconnected

/-- How many packets `mosquitto_loop_read` and `mosquitto_loop_write` handle. -/
def maxPackets (m : Mosq) : Nat := max 1 (m.msgsOut.queueLen + m.msgsIn.queueLen)

/-- `mosquitto_loop` after `mosquitto_loop_read` or `mosquitto_loop_write` has returned `rc`. -/
def afterIo (m : Mosq) (rc : Rc) : Turn → LoopPc
  | .read .. => if rc ≠ .success ∨ m.sock = none then .ret rc else .selWrite
  | .write .. => if rc ≠ .success ∨ m.sock = none then .ret rc else .misc

/-- The test after a turn of `mosquitto_loop_read` or `mosquitto_loop_write`. -/
def afterTurn (m : Mosq) (rc : Rc) (turn : Turn) : LoopPc :=
  if rc ≠ .success then .rcClose rc turn
  else match turn with
    | .read i n again => if again ∨ i + 1 ≥ n then afterIo m rc turn else .read (i + 1) n
    | .write i n again => if again ∨ i + 1 ≥ n then afterIo m rc turn else .write (i + 1) n

/-- `mosquitto_loop` up to `mosquitto_loop_read`. -/
def selectNext (m : Mosq) : Select → LoopPc
  | .badFd => .ret .inval
  | .interrupted => if m.sock = none then .ret .noConn else .ret .success
  | .failed => if m.sock = none then .ret .noConn else .ret .errno
  | .ready readable =>
    if m.sock = none then .ret .noConn else if readable then .read 0 (maxPackets m) else .selWrite

/-- The on_disconnect callback, down to the Swift closure. -/
def Sys.onDisconnect (s : Sys) : Sys := { s.upd (s.m.emit .onDisconnect) with connected := false }

/-- A packet has been read in turn `i` of `n`. -/
def readPacket (s : Sys) (p : InPacket) (turn : Turn) (alloc : Alloc) : Sys :=
  let (m, handled) := handlePacket alloc s.m p
  let t := s.upd m
  match handled with
  | .done rc => { t with loop := afterTurn m rc turn }
  | .connack reason receiveMaximum =>
    { t with connected := true, accepted := if reason = 0 then m.sock else s.accepted,
             loop := .connack reason ((receiveMaximum.map UInt16.toNat).getD 65535) turn }
  | .connackUnsupported => { t with connected := true, loop := afterTurn m .protocol turn }
  | .disconnect => { t with loop := .discCall turn }

/-- `handle__connack` goes on after its callback. -/
def endConnack (s : Sys) (reason : UInt8) (receiveMaximum : Nat) (turn : Turn) (alloc : Alloc) : Sys :=
  let (m, rc) := connackSwitch alloc s.m reason
  let t := s.upd m
  { t with limit := if reason = 0 ∧ m.protocol = .mqtt5 ∧ s.accepted = m.sock then
             some (min s.sendMax receiveMaximum)
                    else t.limit,
           loop := afterTurn m rc turn }

/-- `mosquitto__check_keepalive` when its time has come. -/
def keepaliveDue (s : Sys) (alloc : Alloc) : Sys :=
  if s.m.state = .active ∧ !s.m.pingT then { s.upd (sendPingreq alloc s.m).1 with loop := .ret .success }
  else { s.upd s.m.socketClose with loop := .kaCall (if s.m.state = .disconnecting then .success
                                      else .keepalive) }

def loopStep (s : Sys) (e : LoopEv) : Option Sys :=
  match s.loop, e with
  | .waitNew, .tick _ => some { s with loop := if s.m.state = .new then .waitNew else .top }
  | .top, .select r => some { s with loop := selectNext s.m r }
  | .read i n, .packet p again alloc =>
    if s.m.sock = none ∨ s.m.state = .connectPending ∨ (handlePacket alloc s.m p).2 = .done .aborted then none
    else some (readPacket s p (.read i n again) alloc)
  | .read i n, .noPacket e again =>
    let rc := if s.m.sock = none then .noConn else if s.m.state = .connectPending then .success else e.rc
    some { s with loop := afterTurn s.m rc (.read i n again) }
  | .connack reason receiveMaximum turn, .tick env =>
    if (connackSwitch env.alloc s.m reason).2 = .aborted then none
    else some (endConnack s reason receiveMaximum turn env.alloc)
  | .discCall turn, .tick _ => some { s.onDisconnect with loop := afterTurn s.m .success turn }
  | .selWrite, .writable b =>
    some { s with loop := if s.m.sock.isSome ∧ b then .write 0 (maxPackets s.m) else .misc }
  | .write i n, .write taken e again =>
    match packetWrite e.rc taken s.m with
    | (m, .done rc) => some { s.upd m with loop := afterTurn m rc (.write i n again) }
    | (m, .disconnect) => some { s.upd m with loop := .discCall (.write i n again) }
  | .rcClose rc turn, .tick _ =>
    some { s.upd s.m.socketClose with loop := .rcCall (if ended s.m.state then .success else rc) turn }
  | .rcCall rc turn, .tick _ => some { s.onDisconnect with loop := afterIo s.m rc turn }
  | .misc, .keepalive due alloc =>
    if s.m.sock = none then some { s with loop := .ret .noConn }
    else if due ∧ s.m.keepalive ≠ 0 then some (keepaliveDue s alloc)
    else some { s with loop := .ret .success }
  | .kaCall rc, .tick _ => some { s.onDisconnect with loop := .ret rc }
  | .ret rc, .errno eproto =>
    some { s with loop := if rc = .success then .top else if fatal rc ∨ eproto then .exited else .check1 }
  | .check1, .tick _ => some { s with loop := if ended s.m.state then .exited else .sleep }
  | .sleep, .slept ok => some { s with loop := if ok then .check2 else .exited }
  | .check2, .tick _ => some { s with loop := if ended s.m.state then .exited else .rec_ .start }
  | .rec_ pc, .tick env =>
    match reconnectStep env [] s.m pc with
    | (m, .inl pc') => some { s.upd m with loop := .rec_ pc' }
    | (m, .inr rc) => some { s.upd m with loop := if rc = .success then .top else .check1 }
  | _, _ => none

/-- The application's queue, in the middle of a call. -/
def queueStep (s : Sys) (env : RecEnv) : Option Sys :=
  match s.queue with
  | .idle => none
  | .loopStart c =>
    -- `pthread_create` succeeds
    if s.m.threaded = .none then
      some { s with m := { s.m with threaded := .self }, loop := .waitNew, queue := .connectBind c }
    else some { s with queue := .connectBind c }
  | .connectBind c =>
    let r := connectBind env s.m c
    some { s.upd r.1 with queue := if r.2 = .success then .setNew c.properties else .idle }
  | .setNew properties => some { s.upd (s.m.setState .new) with queue := .rec_ .start properties }
  | .rec_ pc properties =>
    match reconnectStep env properties s.m pc with
    | (m, .inl pc') => some { s.upd m with queue := .rec_ pc' properties }
    | (m, .inr _) => some { s.upd m with queue := .idle }
  | .discSend reason properties =>
    some { s.upd (disconnectSend env.alloc s.m reason properties).1 with queue := .idle,
                                                                         discReturned := some s.m.conns }

/-- `connect()`: no properties are built for a protocol before version 5. -/
def startConnect (s : Sys) (c : ConnectConfig) : Sys :=
  let c := if c.protocolVersion = .mqtt5 then c else { c with properties := [] }
  { s.upd (setupMosquitto s.m c) with
    queue := .loopStart c
    sendMax := if c.protocolVersion = .mqtt5 then (intOptionMaximum c.sendMaximum).getD s.sendMax else s.sendMax
    discReturned := none }

/-- `disconnect()`: a call that is refused returns at once. -/
def startDisconnect (s : Sys) (reason : UInt8) (properties : List MosquittoProperty) : Sys :=
  if disconnectChecks s.m properties ≠ .success then { s with discReturned := some s.m.conns }
  else { s.upd (s.m.setState .disconnected) with queue := .discSend reason properties }

def step (s : Sys) : Act → Option Sys
  | .connect c => match s.queue with
    | .idle => some (startConnect s c)
    | _ => none
  | .publish alloc a => match s.queue with
    | .idle =>
      if (mosquittoPublishV5 alloc s.m a).2 = .aborted then none
        else some (s.upd (mosquittoPublishV5 alloc s.m a).1)
    | _ => none
  | .disconnect reason properties => match s.queue with
    | .idle => some (startDisconnect s reason properties)
    | _ => none
  | .queue env => queueStep s env
  | .loop e => loopStep s e

/-! ## Pieces of runs -/

def tick : Act := .loop (.tick .good)

def goOn : Act := .queue .good

def connects (c : ConnectConfig) : List Act := .connect c :: List.replicate 9 goOn

/-- The loop thread reads one packet in a call of `mosquitto_loop_read`. -/
def reads (p : InPacket) : List Act := [.loop (.select (.ready true)), .loop (.packet p true RecEnv.good.alloc)]

/-- The end of a call of `mosquitto_loop` in which nothing goes wrong. -/
def ends : List Act := [.loop (.keepalive false RecEnv.good.alloc), .loop (.errno false)]

def idles : List Act := .loop (.writable false) :: ends

/-- The loop thread writes all there is, in a call of its own. -/
def writes : List Act :=
  [.loop (.select (.ready false)), .loop (.writable true), .loop (.write 10 .blocked true)]

def connack (reason : UInt8) (properties : List MosquittoProperty) : InPacket :=
  .connack (.ok 0) (.ok reason) (.ok properties)

def established (properties : List MosquittoProperty) : List Act :=
  connects .plain ++ [tick] ++ writes ++ ends ++ reads (connack 0 properties) ++ [tick] ++ idles

end Artemisia.Threads
