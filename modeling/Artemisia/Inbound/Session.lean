/-
  Artemisia.Inbound.Session — one client and its server, with the packets on their way between them.

  The server follows the rules of a QoS 2 sender: under a free packet id it publishes a message; until
  it has read PUBREC it may publish it again, then it releases it, again until it has read PUBCOMP, which
  frees the packet id. Its session survives every connection. A connection keeps the order of packets.
  What is on its way to the client is lost with the socket it was sent to; of what is on its way to the
  server some may still arrive.

  `log` only records: each QoS 2 message given to on_message, with what the server does with its packet
  id at that moment.
-/
import Artemisia.Lib.Machine
import Artemisia.Inbound.Receive

namespace Artemisia.Inbound

open Artemisia.Property Artemisia.Client Handshake

structure AppMessage where
  topic : CString
  payload : Bytes
  retain : Bool
  properties : List MosquittoProperty

inductive Down where
  | publish (mid : UInt16) (uid : Nat) (a : AppMessage) (dup : Bool)
  | pubrel (mid : UInt16)
  | other (p : InPacket) (h : ofQos2 p = false)

def AppMessage.publishIn (a : AppMessage) (mid : UInt16) (uid : Nat) (dup : Bool) : PublishIn where
  dup := dup
  qos := 2
  retain := a.retain
  topic := .ok a.topic
  mid := .ok mid
  properties := .ok a.properties
  payload := a.payload
  uid := uid

theorem AppMessage.read {a : AppMessage} {m : Mosq} {mid : UInt16} {uid : Nat} {dup : Bool} {msg : Message}
    (h : readPublish m (a.publishIn mid uid dup) = .ok msg) :
    msg.mid = mid ∧ msg.uid = uid ∧ msg.qos = 2 ∧ msg.topic = some a.topic.bytes ∧ msg.payload = a.payload := by
  obtain ⟨hqos, huid, hpay, ⟨t, ht, htopic⟩, hmid, -⟩ := readPublish_ok h
  have hmid : (Except.ok mid : Except Rc UInt16) = .ok msg.mid := hmid (Nat.succ_pos 1)
  cases ht
  cases hmid
  exact ⟨rfl, huid, hqos, htopic, hpay⟩

def Down.packet : Down → InPacket
  | .publish mid uid a dup => .publish (a.publishIn mid uid dup)
  | .pubrel mid => .pubrel 0x62 (.ok mid) (.ok 0)
  | .other p _ => p

structure Session where
  m : Mosq
  /-- What the server does with each packet id; a message is named by its place in `sent`. -/
  server : UInt16 → Phase Nat
  sent : List AppMessage
  toClient : List Down
  toServer : List Packet
  log : List (Message × Phase Nat)

/-- A client made with `cleanSession = false`, and a server that has no session of its. -/
def Session.init (id : Option Bytes) : Session where
  m := Mosq.new id false
  server := fun _ => .idle
  sent := []
  toClient := []
  toServer := []
  log := []

def IsInit (s : Session) : Prop := ∃ id, s = Session.init id

inductive Move where
  /-- The server publishes a message under a packet id. -/
  | publish (mid : UInt16) (a : AppMessage)
  | republish (mid : UInt16)
  | rerelease (mid : UInt16)
  | other (p : InPacket) (h : ofQos2 p = false)
  /-- The server reads a packet. -/
  | serve
  /-- The client reads a packet. -/
  | deliver (alloc : Alloc)
  /-- The client writes a packet. -/
  | write
  /-- The connection is lost; so many packets of those on their way to the server still arrive. -/
  | cut (arrive : Nat)
  | reconnect (env : RecEnv)
  /-- `connect()` and `publish()` of the application. -/
  | connect (env : RecEnv) (c : ConnectConfig)
  | appPublish (alloc : Alloc) (a : PublishArgs)

/-- The server's next packet id, as the server has it. -/
def setPhase (server : UInt16 → Phase Nat) (mid : UInt16) (p : Phase Nat) : UInt16 → Phase Nat :=
  fun i => if i = mid then p else server i

/-- The client changes; what was on its way to a socket goes with it. -/
def Session.upd (s : Session) (m : Mosq) : Session :=
  { s with m := m, toClient := if m.sock = s.m.sock then s.toClient else [] }

/-- A packet sent while the client is not there is lost. -/
def Session.send (s : Session) (d : Down) : Session :=
  if s.m.sock.isSome then { s with toClient := s.toClient ++ [d] } else s

def serve (s : Session) : Packet → Session
  | .pubrec mid _ => match s.server mid with
    | .offered uid => { s with server := setPhase s.server mid (.released uid) }.send (.pubrel mid)
    | _ => s
  | .pubcomp mid => match s.server mid with
    | .released _ => { s with server := setPhase s.server mid .idle }
    | _ => s
  | _ => s

def clientReads (s : Session) (alloc : Alloc) (d : Down) : Session :=
  let m := receive alloc s.m d.packet
  { s.upd m with log := (newDeliveries m s.m).map (fun msg => (msg, s.server msg.mid)) ++ s.log }

/-- One move; there is none in which the process ends. -/
def move (s : Session) : Move → Option Session
  | .publish mid a =>
    if s.server mid = .idle ∧ mid ≠ 0 then
      some ({ s with server := setPhase s.server mid (.offered s.sent.length), sent := s.sent ++ [a] }.send
        (.publish mid s.sent.length a false))
    else none
  | .republish mid => match s.server mid with
    | .offered uid => match s.sent[uid]? with
      | some a => some (s.send (.publish mid uid a true))
      | none => none
    | _ => none
  | .rerelease mid => match s.server mid with
    | .released _ => some (s.send (.pubrel mid))
    | _ => none
  | .other p h => some (s.send (.other p h))
  | .serve => match s.toServer with
    | [] => none
    | p :: rest => some (serve { s with toServer := rest } p)
  | .deliver alloc => match s.toClient with
    | [] => none
    | d :: rest =>
      if survives alloc s.m d.packet then some (clientReads { s with toClient := rest } alloc d) else none
  | .write => some { s.upd (writeOne s.m) with toServer := s.toServer ++ (nextWritten s.m).toList }
  | .cut arrive =>
    let s := { s with toServer := s.toServer.take arrive }
    some (if s.m.sock.isSome then s.upd (endConnection s.m) else s)
  | .reconnect env => some (s.upd (mosquittoReconnect env [] s.m))
  | .connect env c => some (s.upd (connectAgain env c s.m))
  | .appPublish alloc a =>
    if (mosquittoPublishV5 alloc s.m a).2 = .aborted then none
      else some (s.upd (mosquittoPublishV5 alloc s.m a).1)

end Artemisia.Inbound
