/-
  Artemisia.Client.Types — the state of a client: `struct mosquitto` as far as the message store, the
  packet queue and the connection go (`mosquitto_internal.h`), with the packets that go out and come in.

  A socket is the number of the connection it carries. `conns`, `published` and `trace` belong to the
  model: how many sockets were opened, how many messages were stored, and what has been observed.
-/
import Artemisia.Property.List

namespace Artemisia.Client

open Artemisia.Property

inductive Protocol where
  | mqtt31 | mqtt311 | mqtt5
  deriving DecidableEq, Repr

/-- `enum mosquitto_client_state`, the states a client without SOCKS and SRV uses. -/
inductive ClientState where
  | new | connected | disconnecting | active | connectPending | disconnected
  deriving DecidableEq, Repr

inductive MsgState where
  | invalid | publishQos0 | publishQos1 | waitForPuback | publishQos2 | waitForPubrec | resendPubrel
  | waitForPubrel | resendPubcomp | waitForPubcomp | sendPubrec | queued
  deriving DecidableEq, Repr

/-- `mosq->threaded`; `mosq_ts_external` is never set by the Swift layer. -/
inductive Threaded where
  | none | self
  deriving DecidableEq, Repr

/-- `struct mosquitto_message_all`. -/
structure Message where
  mid : UInt16
  /-- NULL when a topic alias stands for it. -/
  topic : Option Bytes
  payload : Bytes
  qos : Nat
  retain : Bool
  dup : Bool
  state : MsgState
  properties : List MosquittoProperty
  /-- The application message it stands for: a number of the publisher's. -/
  uid : Nat
  /-- The connection its PUBLISH was last handed to `packet__queue` on. -/
  sentOn : Option Nat
  deriving DecidableEq

structure MsgData where
  inflight : List Message
  queueLen : Nat
  inflightQuota : Nat
  inflightMaximum : Nat
  deriving DecidableEq

structure Will where
  topic : Bytes
  payload : Bytes
  /-- An `int` that no function looks at. -/
  qos : Int
  retain : Bool
  properties : List MosquittoProperty
  deriving DecidableEq

structure ConnectData where
  protocol : Protocol
  cleanStart : Bool
  id : Option Bytes
  username : Option Bytes
  password : Option Bytes
  keepalive : Nat
  will : Option Will
  properties : List MosquittoProperty
  deriving DecidableEq

/-- `struct mosquitto__packet` on its way out, by what is written in it. -/
inductive Packet where
  | connect (data : ConnectData)
  | publish (mid : UInt16) (topic : Option Bytes) (payload : Bytes) (qos : Nat) (retain dup : Bool)
      (properties : List MosquittoProperty)
  | puback (mid : UInt16) (reason : UInt8)
  | pubrec (mid : UInt16) (reason : UInt8)
  | pubrel (mid : UInt16)
  | pubcomp (mid : UInt16)
  | subscribe (mid : UInt16) (topics : List Bytes) (topicQos : UInt8) (properties : List MosquittoProperty)
  | unsubscribe (mid : UInt16) (topics : List Bytes) (properties : List MosquittoProperty)
  | pingreq
  | pingresp
  | disconnect (reason : UInt8) (properties : List MosquittoProperty)

/-- The packets the allocator has memory for. -/
abbrev Alloc := Packet → Bool

/-- PUBACK and PUBCOMP, which one handler takes. -/
inductive Ack where
  | puback | pubcomp
  deriving DecidableEq, Repr

/-- The fields of a PUBLISH that came in, each as its reader gives it. -/
structure PublishIn where
  dup : Bool
  qos : Nat
  retain : Bool
  topic : Except Rc CString
  mid : Except Rc UInt16
  properties : Except Rc (List MosquittoProperty)
  payload : Bytes
  /-- The application message of the server's. -/
  uid : Nat

/-- A packet that has been read whole, each field as its reader gives it: a handler reads the fields in
    order and stops at the first that cannot be read. -/
inductive InPacket where
  | connack (connectFlags reason : Except Rc UInt8) (properties : Except Rc (List MosquittoProperty))
  | publish (p : PublishIn)
  | pubackcomp (type : Ack) (mid : Except Rc UInt16) (tail : Except Rc UInt8)
  | pubrec (mid : Except Rc UInt16) (tail : Except Rc UInt8)
  | pubrel (flags : UInt8) (mid : Except Rc UInt16) (tail : Except Rc UInt8)
  /-- SUBACK and UNSUBACK: whether the rest can be read. -/
  | suback (body : Rc)
  | unsuback (body : Rc)
  | pingreq
  | pingresp
  | disconnect (reason : Except Rc UInt8) (tail : Rc)
  | auth (body : Rc)
  | unrecognised

/-- What can be seen from outside, newest first in a trace. -/
inductive Event where
  | opened (conn : Nat)
  | queued (conn : Option Nat) (packet : Packet)
  | onConnect (reason : UInt8)
  | onDisconnect
  | onMessage (message : Message)
  | onPublish (mid : UInt16)

/-- `struct mosquitto`. -/
structure Mosq where
  sock : Option Nat
  protocol : Protocol
  id : Option Bytes
  username : Option Bytes
  password : Option Bytes
  will : Option Will
  keepalive : Nat
  lastMid : UInt16
  state : ClientState
  pingT : Bool
  currentOutPacket : Option Packet
  outPacket : List Packet
  maximumPacketSize : Nat
  maximumQos : Nat
  cleanStart : Bool
  msgsIn : MsgData
  msgsOut : MsgData
  host : Option Bytes
  port : Int
  threaded : Threaded
  conns : Nat
  published : Nat
  trace : List Event

/-- `mosquitto_reinitialise`. -/
def Mosq.new (id : Option Bytes) (cleanStart : Bool) : Mosq where
  sock := none
  protocol := .mqtt311
  id := id
  username := none
  password := none
  will := none
  keepalive := 60
  lastMid := 0
  state := .new
  pingT := false
  currentOutPacket := none
  outPacket := []
  maximumPacketSize := 0
  maximumQos := 2
  cleanStart := cleanStart
  msgsIn := ⟨[], 0, 20, 20⟩
  msgsOut := ⟨[], 0, 20, 20⟩
  host := none
  port := 1883
  threaded := .none
  conns := 0
  published := 0
  trace := []

/-- How often on_disconnect has been called since a socket was last opened. -/
def discsSinceOpen : List Event → Nat
  | [] => 0
  | .opened _ :: _ => 0
  | .onDisconnect :: t => discsSinceOpen t + 1
  | _ :: t => discsSinceOpen t

/-- The part of a client that is about its connection, apart from the stores and the packets. -/
structure Conn where
  sock : Option Nat
  state : ClientState
  conns : Nat
  threaded : Threaded
  protocol : Protocol
  discs : Nat

def Mosq.conn (m : Mosq) : Conn := ⟨m.sock, m.state, m.conns, m.threaded, m.protocol, discsSinceOpen m.trace⟩

def Mosq.emit (m : Mosq) (e : Event) : Mosq := { m with trace := e :: m.trace }

def Mosq.setState (m : Mosq) (state : ClientState) : Mosq := { m with state := state }

def Mosq.socketClose (m : Mosq) : Mosq := { m with sock := none }

/-- `mosq->sock` is assigned a socket that has just been connected. -/
def Mosq.socketOpen (m : Mosq) : Mosq :=
  { m with sock := some m.conns, conns := m.conns + 1, trace := .opened m.conns :: m.trace }

end Artemisia.Client
