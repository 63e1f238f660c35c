/-
  Artemisia.Client.Connect — `connect()`: the options that the Swift layer sets (`Mosquitto.swift`, `options.c`),
  `mosquitto__connect_init`, and `mosquitto__reconnect` cut into the pieces between which the other
  thread may run (`connect.c`); and `packet__write` (`packet_mosq.c`).

  The build is that of `Package.swift`: threads, no TLS, no SOCKS, no SRV. There every TLS option call of
  the Swift layer answers `MOSQ_ERR_NOT_SUPPORTED` and changes nothing.

  Proved:
  - `unwritten_takeNext`: making the next packet the current one changes nothing about what is to be written.
-/
import Artemisia.Client.Actions

namespace Artemisia.Client

open Artemisia.Property

/-! ## Options -/

/-- The Swift object's fields that `connect()` reads, with the CONNECT properties it is given. -/
structure ConnectConfig where
  protocolVersion : Protocol
  sendMaximum : Int
  receiveMaximum : Int
  host : Bytes
  port : Int
  keepAlive : Int
  username : Option CString
  password : Option CString
  properties : List MosquittoProperty

/-- `mosquitto_int_option` for the two maxima: the value stored, `none` if it is refused. -/
def intOptionMaximum (value : Int) : Option Nat :=
  if value < 0 ∨ value > 65535 then none else if value = 0 then some 65535 else some value.toNat

def MsgData.setMaximum (d : MsgData) (value : Int) : MsgData :=
  { d with inflightMaximum := (intOptionMaximum value).getD d.inflightMaximum }

def usernamePwSet (m : Mosq) (username password : Option CString) : Mosq :=
  if m.protocol ≠ .mqtt5 ∧ password.isSome ∧ username = none then m
  else match username with
  | some u =>
    if validateUtf8 u.bytes ≠ .success then { m with username := none, password := none }
    else { m with username := some u.bytes, password := password.map CString.bytes }
  | none => { m with username := none, password := password.map CString.bytes }

/-- `setupMosquitto` up to the TLS options: the protocol version and the two maxima. -/
def setupOptions (m : Mosq) (c : ConnectConfig) : Mosq :=
  let m := { m with protocol := c.protocolVersion }
  if c.protocolVersion = .mqtt5 then
    { m with msgsOut := m.msgsOut.setMaximum c.sendMaximum, msgsIn := m.msgsIn.setMaximum c.receiveMaximum }
  else m

/-- `setupMosquitto` up to `mosquitto_loop_start`. No result is looked at. -/
def setupMosquitto (m : Mosq) (c : ConnectConfig) : Mosq := usernamePwSet (setupOptions m c) c.username c.password

/-! ## Connecting -/

/-- What the environment decides while a thread connects. -/
structure RecEnv where
  alloc : Alloc
  /-- The result of `net__try_connect`. -/
  tryConnect : Rc
  /-- The letters drawn for a client id, of which 18 are used. -/
  randomId : Bytes

def RecEnv.good : RecEnv := ⟨fun _ => true, .success, []⟩

/-- The configuration of the runs that are worked out, to a host of one letter. -/
def ConnectConfig.plain : ConnectConfig where
  protocolVersion := .mqtt5
  sendMaximum := 20
  receiveMaximum := 20
  host := [104]
  port := 1883
  keepAlive := 60
  username := none
  password := none
  properties := []

/-- The quotas at the end of `mosquitto__connect_init`. -/
def MsgData.fullQuota (d : MsgData) : MsgData := { d with inflightQuota := d.inflightMaximum }

def connectInit (env : RecEnv) (m : Mosq) (c : ConnectConfig) : Mosq × Rc :=
  if c.port ≤ 0 then (m, .inval)
  else if c.keepAlive < 5 then (m, .inval)
  else
    let id := if m.id = none ∧ m.protocol ≠ .mqtt5 then some ([109, 111, 115, 113, 45] ++ env.randomId.take 18)
        else m.id
    ({ m with
       id := id
       host := some c.host
       port := c.port
       -- `uint16_t keepalive`
       keepalive := c.keepAlive.toNat % 65536
       msgsIn := m.msgsIn.fullQuota
       msgsOut := m.msgsOut.fullQuota }, .success)

/-- `mosquitto_connect_bind_v5` up to its `mosquitto__set_state`. -/
def connectBind (env : RecEnv) (m : Mosq) (c : ConnectConfig) : Mosq × Rc :=
  if checkAll .connect c.properties ≠ .success then (m, checkAll .connect c.properties) else connectInit env m c

/-- Where a thread stands in `mosquitto__reconnect`. -/
inductive RecPc where
  | start
  | reset
  | close
  | connect
  /-- `net__socket_connect` has failed. -/
  | pending (rc : Rc)
  | setConnected
  | sendConnect
  /-- `send__connect` has failed. -/
  | failed (rc : Rc)
  deriving DecidableEq, Repr

/-- One piece of `mosquitto__reconnect`: the piece that follows, or the result. -/
def reconnectStep (env : RecEnv) (properties : List MosquittoProperty) (m : Mosq) : RecPc → Mosq × (RecPc ⊕ Rc)
  | .start =>
    if m.host = none ∨ m.port ≤ 0 then (m, .inr .inval)
    else if m.protocol ≠ .mqtt5 ∧ properties ≠ [] then (m, .inr .notSupported)
    else if checkAll .connect properties ≠ .success then (m, .inr (checkAll .connect properties))
    else ({ packetCleanupAll m with pingT := false }, .inl .reset)
  | .reset => (messageReconnectReset m, .inl .close)
  | .close => (m.socketClose, .inl .connect)
  | .connect =>
    -- the port is passed as a `uint16_t`; `net__try_connect` first sets the socket to `INVALID_SOCKET`
    if m.port % 65536 = 0 then (m, .inl (.pending .inval))
    else if env.tryConnect = .success then (m.socketOpen, .inl .setConnected)
    else ({ m with sock := none }, .inl (.pending env.tryConnect))
  | .pending rc => (m.setState .connectPending, .inr rc)
  | .setConnected => (m.setState .connected, .inl .sendConnect)
  | .sendConnect =>
    let r := sendConnect env.alloc m properties
    if r.2 = .success then (r.1, .inr .success) else (r.1, .inl (.failed r.2))
  | .failed rc => ((packetCleanupAll m).socketClose.setState .new, .inr rc)

/-! ## Writing -/

/-- How `packet__write` ends. -/
inductive Written where
  | done (rc : Rc)
  /-- A DISCONNECT went out: `do_client_disconnect` has closed the socket, its callback has not run. -/
  | disconnect
  deriving DecidableEq

/-- The loop of `packet__write`: so many packets are taken whole by the socket, then `stop` is what
    `net__write` makes of the next one. -/
def packetWriteLoop (stop : Rc) : Nat → Mosq → Mosq × Written
  | 0, m => if m.currentOutPacket.isNone then (m, .done .success) else (m, .done stop)
  | n + 1, m =>
    match m.currentOutPacket with
    | none => (m, .done .success)
    | some (.disconnect _ _) => (doClientDisconnect m, .disconnect)
    | some p =>
      let m := match p with
        | .publish mid _ _ 0 _ _ _ => m.emit (.onPublish mid)
        | _ => m
      packetWriteLoop stop n (nextPacket m)

/-- `packet__write` before its loop: the next packet becomes the current one if there is none. -/
def takeNext (m : Mosq) : Mosq := if m.currentOutPacket.isNone then nextPacket m else m

def packetWrite (stop : Rc) (taken : Nat) (m : Mosq) : Mosq × Written :=
  if m.sock = none then (m, .done .noConn)
  else if (takeNext m).state = .connectPending then (takeNext m, .done .success)
  else packetWriteLoop stop taken (takeNext m)

/-- The packets still to be written. -/
def unwritten (m : Mosq) : List Packet := m.currentOutPacket.toList ++ m.outPacket

section Taking

variable (m : Mosq)

theorem unwritten_nextPacket : unwritten (nextPacket m) = m.outPacket := by
  cases h : m.outPacket <;> simp [unwritten, nextPacket, h]

theorem unwritten_takeNext : unwritten (takeNext m) = unwritten m := by
  unfold takeNext
  split
  · rename_i h
    rw [unwritten_nextPacket, unwritten, Option.isNone_iff_eq_none.mp h]
    rfl
  · rfl

/-- It leaves no packet behind when there is no current one. -/
theorem takeNext_current (h : (takeNext m).currentOutPacket = none) : (takeNext m).outPacket = [] := by
  unfold takeNext at h ⊢
  split at h
  · rename_i hnone
    have h : m.outPacket.head? = none := h
    simp [nextPacket, hnone, List.head?_eq_none_iff.mp h]
  · rename_i hsome
    exact absurd (Option.isNone_iff_eq_none.mpr h) hsome

theorem takeNext_frame :
    (takeNext m).msgsIn = m.msgsIn ∧ (takeNext m).trace = m.trace ∧ (takeNext m).state = m.state := by
  unfold takeNext
  split <;> exact ⟨rfl, rfl, rfl⟩

end Taking

end Artemisia.Client
