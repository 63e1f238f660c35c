/-
  Artemisia.Wire.Connect — CONNECT as bytes (`send_connect.c`), and the layout that MQTT gives it.

  A length of two bytes stands before each value. The setters accept values that are longer; then the length is
  that of the value modulo 65536, and so many bytes of it go out.

  Proved:
  - `decodeConnect_only`:  what can be decoded fits the fields it is in.
  - `decodeConnect_body`:  what fits is decoded as it was written.
  - `connect_encodes_iff`: for every configuration, CONNECT says it exactly when each value fits its field.
-/
import Artemisia.Client.Config
import Artemisia.Property.Section
import Artemisia.Wire.Packet

namespace Artemisia.Wire

open Codec Artemisia.Property Artemisia.Client Artemisia.Topic

/-! ## Writing -/

/-- "MQIsdp" and "MQTT". -/
def protocolName (protocol : Protocol) : Bytes :=
  if protocol = .mqtt31 then [77, 81, 73, 115, 100, 112] else [77, 81, 84, 84]

def protocolVersion : Protocol → UInt8
  | .mqtt31 => 3
  | .mqtt311 => 4
  | .mqtt5 => 5

/-- The bits of a will; two of its QoS are written. -/
def willBits (qos : UInt8) (retain : Bool) : UInt8 :=
  (UInt8.ofNat retain.toNat <<< 5) ||| ((qos &&& 0x3) <<< 3) ||| 0x04

def flagByte (cleanStart : Bool) (will : UInt8) (username password : Bool) : UInt8 :=
  (UInt8.ofNat cleanStart.toNat <<< 1) ||| will ||| (if username then 0x80 else 0) ||| (if password then
    0x40 else 0)

def connectFlags (c : ConnectData) : UInt8 :=
  flagByte c.cleanStart
    (match c.will with
      | some will => willBits (UInt8.ofInt will.qos) will.retain
      | none => 0)
    c.username.isSome c.password.isSome

/-- `local_props`. -/
def localProperties (m : Mosq) (properties : List MosquittoProperty) : List MosquittoProperty :=
  if readPropertyInt16 properties PropId.receiveMaximum.code false = none then
    [⟨.receiveMaximum, UInt16.ofNat m.msgsIn.inflightMaximum⟩]
  else []

def connectPacket (m : Mosq) (properties : List MosquittoProperty) : Except Rc OutBuffer := do
  let packet ← allocBuffer 0x10 (connectLength (connectDataOf m properties))
  let packet := packet.write (writeString (protocolName m.protocol))
  let packet := packet.write (writeByte (protocolVersion m.protocol))
  let packet := packet.write (writeByte (connectFlags (connectDataOf m properties)))
  let packet := packet.write (writeUint16 (UInt16.ofNat m.keepalive))
  let packet :=
    if m.protocol = .mqtt5 then
      let localProps := localProperties m properties
      let packet := packet.write (writeVarint (getLengthAll properties + getLengthAll localProps : Nat)).1
      (packet.write (writeAll properties false).1).write (writeAll localProps false).1
    else packet
  let packet := packet.write (match m.id with
    | some clientid => writeString clientid
    | none => writeUint16 0)
  let packet := match m.will with
    | some will =>
      let packet := if m.protocol = .mqtt5 then packet.write (writeAll will.properties true).1 else packet
      (packet.write (writeString will.topic)).write (writeString will.payload)
    | none => packet
  let packet := match m.username with
    | some username => packet.write (writeString username)
    | none => packet
  .ok (match m.password with
    | some password => packet.write (writeString password)
    | none => packet)

/-! ## The layout -/

/-- The version that the protocol name and the byte after it stand for. -/
def readProtocol (s : Bytes) : Except Rc (Protocol × Bytes) := do
  let (name, s) ← readBinary s
  let (version, s) ← readByte s
  match [Protocol.mqtt31, .mqtt311, .mqtt5].find? (fun p => name = protocolName p ∧
    version = protocolVersion p) with
  | some protocol => .ok (protocol, s)
  | none => .error .protocol

/-- A property section, in the version that has them. -/
def readSection (protocol : Protocol) (s : Bytes) : Except Rc (List MosquittoProperty × Bytes) :=
  if protocol = .mqtt5 then do
    let ((proplen, _), s) ← readVarint s
    propertyReadFrom s.length proplen [] s
  else .ok ([], s)

/-- A field that a flag announces. -/
def readFlagged (flag : Bool) (s : Bytes) : Except Rc (Option Bytes × Bytes) :=
  if flag then do
    let (value, s) ← readBinary s
    .ok (some value, s)
  else .ok (none, s)

/-- The will, with its QoS and its retain flag among the flags. -/
def readWill (protocol : Protocol) (flags : UInt8) (s : Bytes) : Except Rc (Option Will × Bytes) :=
  if flags &&& 0x04 = 0 then .ok (none, s)
  else do
    let (properties, s) ← readSection protocol s
    let (topic, s) ← readBinary s
    let (payload, s) ← readBinary s
    .ok (some ⟨topic, payload, ((flags >>> 3) &&& 0x3).toNat, flags &&& 0x20 ≠ 0, properties⟩, s)

/-- The fields after the fixed header, up to the last byte. -/
def readConnect (s : Bytes) : Except Rc ConnectData := do
  let (protocol, s) ← readProtocol s
  let (flags, s) ← readByte s
  let (keepalive, s) ← readUint16 s
  let (properties, s) ← readSection protocol s
  let (clientid, s) ← readBinary s
  let (will, s) ← readWill protocol flags s
  let (username, s) ← readFlagged (flags &&& 0x80 ≠ 0) s
  let (password, s) ← readFlagged (flags &&& 0x40 ≠ 0) s
  if s = [] then
    .ok { protocol := protocol, cleanStart := flags &&& 0x02 ≠ 0,
          id := if clientid = [] then none else some clientid,
          username := username, password := password, keepalive := keepalive.toNat, will := will, properties :=
            properties }
  else .error .malformedPacket

/-- A whole packet, by the layout of CONNECT. -/
def decodeConnect (s : Bytes) : Except Rc ConnectData := do
  let (command, s) ← readByte s
  let ((remainingLength, _), s) ← readVarint s
  if command = 0x10 ∧ s.length = remainingLength then readConnect s else .error .malformedPacket

/-! ## What fits -/

/-- Each value fits the field that it has. -/
structure Encodable (c : ConnectData) : Prop where
  id : ∀ clientid ∈ c.id, clientid.length ≤ 65535
  username : ∀ username ∈ c.username, username.length ≤ 65535
  password : ∀ password ∈ c.password, password.length ≤ 65535
  keepalive : c.keepalive ≤ 65535
  topic : ∀ will ∈ c.will, will.topic.length ≤ 65535
  payload : ∀ will ∈ c.will, will.payload.length ≤ 65535
  qos : ∀ will ∈ c.will, 0 ≤ will.qos ∧ will.qos ≤ 3
  willSection : ∀ will ∈ c.will, c.protocol ≠ .mqtt5 → will.properties = []
  willProperties : ∀ will ∈ c.will, ∀ p ∈ will.properties, p.Short
  properties : ∀ p ∈ c.properties, p.Short

theorem fits_short {p : MosquittoProperty} (h : p.Fits) : p.Short := by
  obtain ⟨i, v⟩ := p
  unfold MosquittoProperty.Fits at h
  unfold MosquittoProperty.Short
  dsimp only at h v ⊢
  revert v
  generalize i.kind = k
  intro v h
  cases k with
  | string => exact h.1
  | binary => exact h
  | pair => exact ⟨h.1.1, h.2.1⟩
  | _ => trivial

/-! ## Decoding -/

theorem bind_ok {α β : Type} {x : Except Rc α} {f : α → Except Rc β} {b : β} (h : (x >>= f) = .ok b) :
    ∃ a, x = .ok a ∧ f a = .ok b := by
  cases x with
  | error e => cases h
  | ok a => exact ⟨a, rfl, h⟩

theorem readSection_only {protocol : Protocol} {s rest : Bytes} {l : List MosquittoProperty}
    (h : readSection protocol s = .ok (l, rest)) : (protocol ≠ .mqtt5 → l = []) ∧ ∀ p ∈ l, p.Short := by
  unfold readSection at h
  split at h
  · rename_i h5
    obtain ⟨⟨⟨proplen, n⟩, body⟩, -, h⟩ := bind_ok h
    obtain ⟨read, rfl, hfits, -⟩ := (propertyReadFrom_iff (Nat.le_refl _)).mp h
    exact ⟨fun h3 => absurd h5 h3, fun p hp => fits_short (hfits p (by simpa using hp))⟩
  · cases h
    exact ⟨fun _ => rfl, fun p hp => by cases hp⟩

theorem readFlagged_only {flag : Bool} {s rest : Bytes} {v : Option Bytes}
    (h : readFlagged flag s = .ok (v, rest)) :
    ∀ b ∈ v, b.length ≤ 65535 := by
  unfold readFlagged at h
  split at h
  · obtain ⟨⟨value, s'⟩, hr, h⟩ := bind_ok h
    cases h
    intro b hb
    rw [← Option.some.inj hb]
    exact (reads_binary.only hr).1
  · cases h
    exact fun b hb => by cases hb

theorem readWill_only {protocol : Protocol} {flags : UInt8} {s rest : Bytes} {v : Option Will}
    (h : readWill protocol flags s = .ok (v, rest)) : ∀ will ∈ v, will.topic.length ≤ 65535 ∧
      will.payload.length ≤ 65535 ∧ (0 ≤ will.qos ∧ will.qos ≤ 3) ∧ (protocol ≠ .mqtt5 → will.properties = []) ∧
        ∀ p ∈ will.properties, p.Short := by
  unfold readWill at h
  split at h
  · cases h
    exact fun will hw => by cases hw
  · obtain ⟨⟨properties, s1⟩, hp, h⟩ := bind_ok h
    obtain ⟨⟨topic, s2⟩, ht, h⟩ := bind_ok h
    obtain ⟨⟨payload, s3⟩, hl, h⟩ := bind_ok h
    cases h
    intro will hw
    rw [← Option.some.inj hw]
    have hq : ((flags >>> 3) &&& 0x3).toNat ≤ 3 := by
      rw [UInt8.toNat_and]
      exact Nat.and_le_right
    obtain ⟨h3, hshort⟩ := readSection_only hp
    refine ⟨(reads_binary.only ht).1, (reads_binary.only hl).1, ⟨by simp, ?_⟩, h3, hshort⟩
    show (((flags >>> 3) &&& 0x3).toNat : Int) ≤ 3
    omega

theorem decodeConnect_only {s : Bytes} {c : ConnectData} (h : decodeConnect s = .ok c) : Encodable c := by
  obtain ⟨⟨command, s1⟩, -, h⟩ := bind_ok h
  obtain ⟨⟨⟨remainingLength, n⟩, s2⟩, -, h⟩ := bind_ok h
  dsimp only at h
  split at h
  · obtain ⟨⟨protocol, s3⟩, -, h⟩ := bind_ok h
    obtain ⟨⟨flags, s4⟩, -, h⟩ := bind_ok h
    obtain ⟨⟨keepalive, s5⟩, -, h⟩ := bind_ok h
    obtain ⟨⟨properties, s6⟩, hproperties, h⟩ := bind_ok h
    obtain ⟨⟨clientid, s7⟩, hid, h⟩ := bind_ok h
    obtain ⟨⟨will, s8⟩, hwill, h⟩ := bind_ok h
    obtain ⟨⟨username, s9⟩, husername, h⟩ := bind_ok h
    obtain ⟨⟨password, s10⟩, hpassword, h⟩ := bind_ok h
    dsimp only at h
    split at h
    · cases h
      have hw := readWill_only hwill
      refine ⟨?_, readFlagged_only husername, readFlagged_only hpassword, ?_, fun w h => (hw w h).1,
        fun w h => (hw w h).2.1, fun w h => (hw w h).2.2.1, fun w h => (hw w h).2.2.2.1, fun w h =>
          (hw w h).2.2.2.2,
        (readSection_only hproperties).2⟩
      · intro i hi
        dsimp only at hi
        split at hi
        · cases hi
        · rw [← Option.some.inj hi]
          exact (reads_binary.only hid).1
      · have := keepalive.toNat_lt
        show keepalive.toNat ≤ 65535
        omega
    · cases h
  · cases h

/-! ## The bytes -/

def sectionBytes (protocol : Protocol) (l : List MosquittoProperty) : Bytes :=
  if protocol = .mqtt5 then varintDigits 5 (getLengthAll l) ++ spelled l else []

def flaggedBytes : Option Bytes → Bytes
  | some value => writeString value
  | none => []

def willBytes (protocol : Protocol) : Option Will → Bytes
  | some will => sectionBytes protocol will.properties ++ (writeString will.topic ++ writeString will.payload)
  | none => []

def connectBody (c : ConnectData) : Bytes :=
  writeString (protocolName c.protocol) ++
    (writeByte (protocolVersion c.protocol) ++ (writeByte (connectFlags c) ++
    (writeUint16 (UInt16.ofNat c.keepalive) ++ (sectionBytes c.protocol c.properties ++
      (writeString (c.id.getD []) ++ (willBytes c.protocol c.will ++
        (flaggedBytes c.username ++ flaggedBytes c.password)))))))

/-- What can be decoded again: each value fits its field, and what the setters see to. -/
structure Sound (c : ConnectData) : Prop where
  encodable : Encodable c
  named : c.id ≠ some []
  noProperties : c.protocol ≠ .mqtt5 → c.properties = []
  fits : ∀ p ∈ c.properties, p.Fits
  willFits : ∀ will ∈ c.will, ∀ p ∈ will.properties, p.Fits
  short : connectLength c < 268435456

structure FlagBits (f : UInt8) (cleanStart username password : Bool) : Prop where
  cleanStart : decide (f &&& 0x02 ≠ 0) = cleanStart
  username : decide (f &&& 0x80 ≠ 0) = username
  password : decide (f &&& 0x40 ≠ 0) = password

theorem flagByte_noWill (cleanStart username password : Bool) :
    FlagBits (flagByte cleanStart 0 username password) cleanStart username password ∧
      flagByte cleanStart 0 username password &&& 0x04 = 0 := by
  cases cleanStart <;> cases username <;> cases password <;> exact ⟨⟨by decide, by decide, by decide⟩, by decide⟩

theorem flagByte_will (cleanStart username password retain : Bool) {q : UInt8}
    (h : q = 0 ∨ q = 1 ∨ q = 2 ∨ q = 3) :
    let f := flagByte cleanStart (willBits q retain) username password
    FlagBits f cleanStart username password ∧ ¬ f &&& 0x04 = 0 ∧ (f >>> 3) &&& 0x3 = q ∧
      decide (f &&& 0x20 ≠ 0) = retain := by
  rcases h with rfl | rfl | rfl | rfl
  all_goals
    cases cleanStart <;> cases username <;> cases password <;> cases retain <;>
      exact ⟨⟨by decide, by decide, by decide⟩, by decide, by decide, by decide⟩

theorem connectFlags_bits {c : ConnectData} (h : ∀ will ∈ c.will, 0 ≤ will.qos ∧ will.qos ≤ 3) :
    FlagBits (connectFlags c) c.cleanStart c.username.isSome c.password.isSome := by
  unfold connectFlags
  cases hw : c.will with
  | none => exact (flagByte_noWill ..).1
  | some will =>
    refine (flagByte_will _ _ _ _ ?_).1
    obtain ⟨h0, h3⟩ := h will hw
    obtain e | e | e | e : will.qos = 0 ∨ will.qos = 1 ∨ will.qos = 2 ∨ will.qos = 3 := by omega
    all_goals rw [e]; decide

theorem connectFlags_will {c : ConnectData} {will : Will} (hw : c.will = some will)
    (h : 0 ≤ will.qos ∧ will.qos ≤ 3) :
    ¬ connectFlags c &&& 0x04 = 0 ∧ ((((connectFlags c >>> 3) &&& 0x3).toNat : Nat) : Int) = will.qos ∧
      decide (connectFlags c &&& 0x20 ≠ 0) = will.retain := by
  obtain ⟨q, hq, he, hn⟩ : ∃ q : UInt8, UInt8.ofInt will.qos = q ∧ (q = 0 ∨ q = 1 ∨ q = 2 ∨ q = 3) ∧
      (q.toNat : Int) = will.qos := by
    obtain e | e | e | e : will.qos = 0 ∨ will.qos = 1 ∨ will.qos = 2 ∨ will.qos = 3 := by omega
    all_goals rw [e]; exact ⟨_, rfl, by decide, by decide⟩
  obtain ⟨-, hset, hqos, hretain⟩ := flagByte_will c.cleanStart c.username.isSome c.password.isSome will.retain he
  have hf : connectFlags c = flagByte c.cleanStart (willBits q will.retain) c.username.isSome
      c.password.isSome := by
    rw [connectFlags, hw, ← hq]
  rw [hf]
  exact ⟨hset, by rw [hqos, hn], hretain⟩

theorem connectFlags_noWill {c : ConnectData} (hw : c.will = none) : connectFlags c &&& 0x04 = 0 := by
  rw [connectFlags, hw]
  exact (flagByte_noWill ..).2

theorem readProtocol_round (protocol : Protocol) (s : Bytes) :
    readProtocol (writeString (protocolName protocol) ++ (writeByte (protocolVersion protocol) ++ s)) =
    .ok (protocol, s) := by
  have hlen : (protocolName protocol).length ≤ 65535 := by cases protocol <;> decide
  have hread := reads_binary.round (writeByte (protocolVersion protocol) ++ s) hlen
  rw [← writeString_of_le hlen] at hread
  simp only [readProtocol, hread, bind, Except.bind, reads_byte.round s trivial]
  cases protocol <;> rfl

theorem readSection_round {protocol : Protocol} {l : List MosquittoProperty} (h : ∀ p ∈ l, p.Fits)
    (h3 : protocol ≠ .mqtt5 → l = []) (hlen : protocol = .mqtt5 → getLengthAll l < 268435456) (s : Bytes) :
    readSection protocol (sectionBytes protocol l ++ s) = .ok (l, s) := by
  unfold readSection sectionBytes
  by_cases h5 : protocol = .mqtt5
  · have hproplen := reads_varint.round (a := (getLengthAll l, varintBytes (getLengthAll l))) (spelled l ++ s)
      ⟨hlen h5, rfl⟩
    have hfuel : l.length ≤ (spelled l ++ s).length := by
      have := length_le_spelled h
      rw [List.length_append]
      omega
    rw [if_pos h5, if_pos h5, List.append_assoc]
    simp only [hproplen, bind, Except.bind, propertyReadFrom_spelled h hfuel, List.nil_append]
  · rw [if_neg h5, if_neg h5, h3 h5]
    rfl

theorem readFlagged_round {v : Option Bytes} (h : ∀ b ∈ v, b.length ≤ 65535) (s : Bytes) :
    readFlagged v.isSome (flaggedBytes v ++ s) = .ok (v, s) := by
  cases v with
  | none => rfl
  | some b =>
    have hb := h b rfl
    simp only [readFlagged, flaggedBytes, Option.isSome_some, if_true, writeString_of_le hb,
      reads_binary.round s hb, bind,
      Except.bind]

theorem connectLength_sections {c : ConnectData} (h : connectLength c < 268435456) (h5 : c.protocol = .mqtt5) :
    getLengthAll c.properties < 268435456 ∧ ∀ will ∈ c.will, getLengthAll will.properties < 268435456 := by
  unfold connectLength at h
  simp only [if_pos h5] at h
  refine ⟨by omega, fun will hw => ?_⟩
  rw [Option.mem_def.mp hw] at h
  simp only [Option.map_some, Option.getD_some] at h
  omega

theorem readWill_round {c : ConnectData} (h : Sound c) (s : Bytes) :
    readWill c.protocol (connectFlags c) (willBytes c.protocol c.will ++ s) = .ok (c.will, s) := by
  unfold readWill
  cases hw : c.will with
  | none =>
    rw [if_pos (connectFlags_noWill hw)]
    rfl
  | some will =>
    obtain ⟨hset, hqos, hretain⟩ := connectFlags_will hw (h.encodable.qos will hw)
    rw [if_neg hset]
    have hsection := readSection_round (h.willFits will hw) (h.encodable.willSection will hw)
      (fun h5 => (connectLength_sections h.short h5).2 will hw)
    have ht := h.encodable.topic will hw
    have hp := h.encodable.payload will hw
    simp only [willBytes, List.append_assoc, hsection, bind, Except.bind, writeString_of_le ht,
      writeString_of_le hp,
      reads_binary.round _ ht, reads_binary.round _ hp, hqos, hretain]

/-- What fits is decoded as it was written. -/
theorem readConnect_body {c : ConnectData} (h : Sound c) : readConnect (connectBody c) = .ok c := by
  obtain ⟨hclean, husername, hpassword⟩ := connectFlags_bits h.encodable.qos
  have hsection := readSection_round h.fits h.noProperties (fun h5 => (connectLength_sections h.short h5).1)
  have hid : (c.id.getD []).length ≤ 65535 := by
    cases hc : c.id with
    | none => exact Nat.zero_le _
    | some i => exact h.encodable.id i hc
  have hkeepalive : (UInt16.ofNat c.keepalive).toNat = c.keepalive := by
    have := h.encodable.keepalive
    exact ofNat_toNat16 (by omega)
  have hnamed : (if c.id.getD [] = [] then none else some (c.id.getD [])) = c.id := by
    cases hc : c.id with
    | none => rfl
    | some i =>
      have hi : i ≠ [] := fun e => h.named (hc.trans (congrArg some e))
      simp [hi]
  have hend := readFlagged_round h.encodable.password []
  rw [List.append_nil] at hend
  simp only [readConnect, connectBody, readProtocol_round, bind, Except.bind, reads_byte.round _ trivial,
    reads_uint16.round _ trivial, hsection, writeString_of_le hid, reads_binary.round _ hid,
      readWill_round h, husername,
    readFlagged_round h.encodable.username, hpassword, hend, if_true, hkeepalive, hclean, hnamed]

theorem length_sectionBytes {protocol : Protocol} {l : List MosquittoProperty} (h : ∀ p ∈ l, p.Fits)
    (hlen : protocol = .mqtt5 → getLengthAll l < 268435456) : (sectionBytes protocol l).length =
      if protocol = .mqtt5 then getLengthAll l + varintBytes (getLengthAll l) else 0 := by
  unfold sectionBytes
  split
  · rename_i h5
    rw [List.length_append, length_spelled h, length_varintDigits (hlen h5), Nat.add_comm]
  · rfl

theorem length_flaggedBytes {v : Option Bytes} (h : ∀ b ∈ v, b.length ≤ 65535) :
    (flaggedBytes v).length = (v.map (2 + ·.length)).getD 0 := by
  cases v with
  | none => rfl
  | some b => exact length_writeString_of_le (h b rfl)

theorem length_willBytes {c : ConnectData} (h : Sound c) : (willBytes c.protocol c.will).length =
    (c.will.map fun w => 2 + w.topic.length + 2 + w.payload.length +
      if c.protocol = .mqtt5 then getLengthAll w.properties + varintBytes (getLengthAll w.properties)
      else 0).getD 0 := by
  cases hw : c.will with
  | none => rfl
  | some will =>
    have hsection := length_sectionBytes (h.willFits will hw)
        (fun h5 => (connectLength_sections h.short h5).2 will hw)
    rw [willBytes, List.length_append, List.length_append, hsection,
      length_writeString_of_le (h.encodable.topic will hw),
      length_writeString_of_le (h.encodable.payload will hw), Option.map_some, Option.getD_some]
    omega

theorem length_protocolName (protocol : Protocol) :
    (writeString (protocolName protocol)).length + 4 = if protocol = .mqtt31 then 12 else 10 := by
  cases protocol <;> decide

theorem length_connectBody {c : ConnectData} (h : Sound c) : (connectBody c).length = connectLength c := by
  have hid : (writeString (c.id.getD [])).length = 2 + (c.id.getD []).length := by
    cases hc : c.id with
    | none => rfl
    | some i => exact length_writeString_of_le (h.encodable.id i hc)
  have hname := length_protocolName c.protocol
  simp only [connectBody, List.length_append, hid, length_writeUint16, writeByte, List.length_singleton,
    length_sectionBytes h.fits (fun h5 => (connectLength_sections h.short h5).1), length_willBytes h,
    length_flaggedBytes h.encodable.username, length_flaggedBytes h.encodable.password, connectLength]
  omega

theorem decodeConnect_body {c : ConnectData} (h : Sound c) :
    decodeConnect (packetBytes 0x10 (connectBody c)) = .ok c := by
  have hlen := length_connectBody h
  have hlength := reads_varint.round (a := ((connectBody c).length, varintBytes (connectBody c).length))
      (connectBody c)
    ⟨by rw [hlen]; exact h.short, rfl⟩
  simp only [decodeConnect, packetBytes, readByte, bind, Except.bind, hlength, and_self, if_true,
    readConnect_body h]

/-! ## The packet -/

section Packet

variable {m : Mosq} {l : List MosquittoProperty}

theorem connectProperties_local (h5 : m.protocol = .mqtt5) :
    connectProperties m l = l ++ localProperties m l := by
  unfold connectProperties localProperties
  rw [if_neg (not_not.mpr h5)]
  split
  · rfl
  · rw [List.append_nil]

theorem write_write (b : OutBuffer) (x y : Bytes) : (b.write x).write y = b.write (x ++ y) := by
  simp only [OutBuffer.write, List.append_assoc]

/-- The CONNECT properties, with those that are added. -/
theorem sectionBytes_local (h : Sound (connectDataOf m l)) (h5 : m.protocol = .mqtt5) :
    (writeVarint (getLengthAll l + getLengthAll (localProperties m l) : Nat)).1 ++
      ((writeAll l false).1 ++ (writeAll (localProperties m l) false).1) =
        sectionBytes m.protocol (connectProperties m l) := by
  have hfits : ∀ p ∈ l ++ localProperties m l, p.Fits := by
    rw [← connectProperties_local h5]
    exact h.fits
  have hsum : getLengthAll (l ++ localProperties m l) = getLengthAll l + getLengthAll (localProperties m l) := by
    simp [getLengthAll]
  have hlen : getLengthAll l + getLengthAll (localProperties m l) < 268435456 := by
    rw [← hsum, ← connectProperties_local h5]
    exact (connectLength_sections h.short h5).1
  have hl := propertyWriteFrom_of_fits (fun p hp => hfits p (List.mem_append_left _ hp))
  have ha := propertyWriteFrom_of_fits (fun p hp => hfits p (List.mem_append_right _ hp))
  rw [connectProperties_local h5, sectionBytes, if_pos h5, hsum, writeVarint_of_lt hlen]
  simp only [writeAll, Bool.false_eq_true, if_false, hl, ha, spelled, List.flatMap_append]

theorem writeAll_will (h : Sound (connectDataOf m l)) (h5 : m.protocol = .mqtt5) {will : Will}
    (hw : m.will = some will) :
    (writeAll will.properties true).1 = sectionBytes m.protocol will.properties := by
  rw [writeAll_of_fits (h.willFits will hw) ((connectLength_sections h.short h5).2 will hw),
    sectionBytes, if_pos h5]

/-- The buffer is filled to its end with the header and the body. -/
theorem connectPacket_bytes (h : Sound (connectDataOf m l)) : ∃ packet, connectPacket m l = .ok packet ∧
    packet.pos = packet.packetLength ∧ packet.written = packetBytes 0x10 (connectBody (connectDataOf m l)) := by
  have hlen := length_connectBody h
  have hwritten : connectPacket m l = .ok ⟨connectLength (connectDataOf m l) + 1 +
      (varintDigits 5 (connectLength (connectDataOf m l))).length,
        packetBytes 0x10 (connectBody (connectDataOf m l))⟩ := by
    have hid : (match m.id with | some clientid => writeString clientid | none => writeUint16 0) =
        writeString (m.id.getD []) := by
      cases m.id <;> rfl
    have hflagged (b : OutBuffer) (v : Option Bytes) :
        (match v with | some value => b.write (writeString value) | none => b) = b.write (flaggedBytes v) := by
      cases v with
      | none => simp [flaggedBytes, OutBuffer.write]
      | some value => rfl
    have hproperties (b : OutBuffer) : (if m.protocol = .mqtt5 then
        ((b.write (writeVarint (getLengthAll l + getLengthAll (localProperties m l) : Nat)).1).write
          (writeAll l false).1).write (writeAll (localProperties m l) false).1 else b) =
        b.write (sectionBytes m.protocol (connectProperties m l)) := by
      by_cases h5 : m.protocol = .mqtt5
      · rw [if_pos h5, ← sectionBytes_local h h5, write_write, write_write]
      · simp [sectionBytes, h5, OutBuffer.write]
    have hwill (b : OutBuffer) : (match m.will with
        | some will =>
          ((if m.protocol = .mqtt5 then b.write (writeAll will.properties true).1 else b).write
            (writeString will.topic)).write (writeString will.payload)
        | none => b) = b.write (willBytes m.protocol m.will) := by
      cases hw : m.will with
      | none => simp [willBytes, OutBuffer.write]
      | some will =>
        by_cases h5 : m.protocol = .mqtt5
        · simp only [if_pos h5, writeAll_will h h5 hw, write_write, willBytes, List.append_assoc]
        · simp [willBytes, sectionBytes, h5, OutBuffer.write]
    unfold connectPacket
    simp only [allocBuffer_of_lt h.short, bind, Except.bind, hid, hproperties, hwill, hflagged]
    rw [packetBytes, hlen]
    simp only [OutBuffer.write, connectBody, List.append_assoc, List.cons_append]
    rfl
  refine ⟨_, hwritten, ?_, rfl⟩
  show (packetBytes _ _).length = connectLength _ + 1 + (varintDigits 5 _).length
  rw [length_packetBytes, hlen]

theorem connectPacket_exists (h : connectLength (connectDataOf m l) < 268435456) :
    ∃ packet, connectPacket m l = .ok packet := by
  unfold connectPacket
  rw [allocBuffer_of_lt h]
  exact ⟨_, rfl⟩

theorem connectLength_of_sent {alloc : Alloc} (h : (sendConnect alloc m l).2 = .success) :
    connectLength (connectDataOf m l) < 268435456 := by
  rcases sendConnect_cases alloc m l with ⟨hlen, -⟩ | ⟨rc, hne, e | e⟩
  · exact hlen
  · rw [e] at h
    exact absurd h hne
  · rw [e] at h
    exact absurd h hne

end Packet

/-! ## Every configuration -/

section Configurations

variable {c : Config} {m m' : Mosq} {env : RecEnv} {call : ConnectConfig} {generated : Bool}

/-- The list is sent whole: it was built by the application, or has one property at most, or a second one
    that is just what is added where there is no Receive Maximum. -/
def SentWhole (c : Config) (l : List MosquittoProperty) (generated : Bool) : Prop :=
  generated = true ∨ l.length ≤ 1 ∨
    ∃ p, p.identifier ≠ .receiveMaximum ∧ l = [p, ⟨.receiveMaximum, UInt16.ofNat c.receiveMaximum⟩]

theorem sentWhole_iff {l : List MosquittoProperty} (h3 : c.protocol ≠ .mqtt5 → l = []) :
    propertiesFor c (outgoingProperties l generated) = propertiesFor c l ↔ SentWhole c l generated := by
  unfold SentWhole
  cases generated with
  | true => exact iff_of_true rfl (.inl rfl)
  | false =>
    rcases l with _ | ⟨p, _ | ⟨q, l⟩⟩
    · exact iff_of_true rfl (.inr (.inl (Nat.zero_le _)))
    · exact iff_of_true rfl (.inr (.inl (Nat.le_refl _)))
    have h5 : c.protocol = .mqtt5 := by
      by_contra hne
      cases h3 hne
    show propertiesFor c [p] = propertiesFor c (p :: q :: l) ↔ _
    by_cases hp : p.identifier = .receiveMaximum
    · have hnot : propertiesFor c [p] ≠ propertiesFor c (p :: q :: l) := by
        simp [propertiesFor, hp]
      refine iff_of_false hnot ?_
      rintro (h | h | ⟨p', hne, h⟩)
      · cases h
      · simp at h
      · cases h
        exact hne hp
    · by_cases hany : (q :: l).any (·.identifier = .receiveMaximum) = true
      · have hany' : (p :: q :: l).any (·.identifier = .receiveMaximum) = true := by
          rw [List.any_cons, hany, Bool.or_true]
        have hlong : propertiesFor c (p :: q :: l) = p :: q :: l := by rw [propertiesFor, if_pos (.inr hany')]
        have hshort : propertiesFor c [p] = [p, ⟨.receiveMaximum, UInt16.ofNat c.receiveMaximum⟩] := by
          simp [propertiesFor, h5, hp]
        rw [hlong, hshort]
        constructor
        · intro h
          exact .inr (.inr ⟨p, hp, h.symm⟩)
        · rintro (h | h | ⟨p', -, h⟩)
          · cases h
          · simp at h
          · rw [h]
            cases h
            rfl
      · have hlong : (propertiesFor c (p :: q :: l)).length = l.length + 3 := by
          have hnone : ¬ (p :: q :: l).any (·.identifier = .receiveMaximum) = true := by simpa [hp] using hany
          simp [propertiesFor, h5, hnone]
        have hshort : (propertiesFor c [p]).length = 2 := by simp [propertiesFor, h5, hp]
        refine iff_of_false (fun h => ?_) ?_
        · have := congrArg List.length h
          omega
        · rintro (h | h | ⟨p', -, h⟩)
          · cases h
          · simp at h
          · cases h
            simp at hany

/-- What goes out is short enough if what was given is. -/
theorem encodable_outgoing {keepAlive : Int} {l : List MosquittoProperty}
    (he : Encodable (c.said env keepAlive l)) :
    Encodable (c.said env keepAlive (outgoingProperties l generated)) := by
  refine { he with properties := fun p hp => ?_ }
  have hmem : p ∈ propertiesFor c (outgoingProperties l generated) := hp
  have hall : ∀ q ∈ l, q.Short := fun q hq => he.properties q (mem_propertiesFor hq)
  rcases of_mem_propertiesFor hmem with hmem | rfl
  · exact hall p (outgoing_mem hmem)
  · trivial

/-- What is said can be decoded again, if it fits and is not too long. -/
theorem sound_said {l : List MosquittoProperty} (hc : Configured c m)
    (hl : ∀ p ∈ l, AddedValue p.identifier.kind p.value)
    (hr : ConnectReady env c call.keepAlive l m') (he : Encodable (c.said env call.keepAlive l))
    (hlen : connectLength (connectDataOf m' l) < 268435456) :
    connectDataOf m' l = c.said env call.keepAlive l ∧ Sound (c.said env call.keepAlive l) := by
  have hkeep : call.keepAlive.toNat % 65536 = call.keepAlive.toNat := by
    have : call.keepAlive.toNat ≤ 65535 := he.keepalive
    omega
  have hdata : connectDataOf m' l = c.said env call.keepAlive l := by
    rw [hr.data, hkeep]
    rfl
  have hfits {q : MosquittoProperty} (hq : AddedValue q.identifier.kind q.value) (hs : q.Short) : q.Fits :=
    (fitsValue_iff hq).mpr hs
  refine ⟨hdata, he, idFor_named env hc, fun h3 => ?_, fun p hp => ?_, fun will hw => ?_, hdata ▸ hlen⟩
  · show propertiesFor c l = []
    rw [propertiesFor, if_pos (.inl h3)]
    exact hr.carries h3
  · rcases of_mem_propertiesFor (show p ∈ propertiesFor c l from hp) with hmem | rfl
    · exact hfits (hl p hmem) (he.properties p hp)
    · trivial
  · obtain ⟨generated, hobtained⟩ := (configured_eq hc).obtained will hw
    exact obtained_fits hobtained (he.willProperties will hw)

/-- For every configuration that the setters accept: the CONNECT that is sent fills its buffer exactly, and
    is decoded to what was configured, exactly when each value fits its field and the properties are sent
    whole. -/
theorem connect_encodes_iff (hc : Configured c m) (hl : Obtained call.properties generated)
    (hconn : connectBindV5 env m call generated = some m')
    (hsend : (sendConnect env.alloc m' (outgoingProperties call.properties generated)).2 = .success) :
    ∃ packet, connectPacket m' (outgoingProperties call.properties generated) = .ok packet ∧
      ((packet.pos = packet.packetLength ∧
          decodeConnect packet.written = .ok (c.said env call.keepAlive call.properties)) ↔
        Encodable (c.said env call.keepAlive call.properties) ∧ SentWhole c call.properties generated) := by
  have hr := connectBindV5_data hc hconn
  have hlen := connectLength_of_sent hsend
  have hadded : ∀ p ∈ outgoingProperties call.properties generated, AddedValue p.identifier.kind p.value :=
    fun p hp => obtained_added hl p (outgoing_mem hp)
  have hnone : c.protocol ≠ .mqtt5 → call.properties = [] := fun h3 => outgoing_nil_iff.mp (hr.carries h3)
  have hwhole : _ ↔ SentWhole c call.properties generated := sentWhole_iff hnone
  obtain ⟨packet, hpacket⟩ := connectPacket_exists hlen
  have hdecode (he : Encodable (c.said env call.keepAlive (outgoingProperties call.properties generated))) :
      packet.pos = packet.packetLength ∧
        decodeConnect packet.written =
          .ok (c.said env call.keepAlive (outgoingProperties call.properties generated)) := by
    obtain ⟨hdata, hsound⟩ := sound_said hc hadded hr he hlen
    rw [← hdata] at hsound ⊢
    obtain ⟨packet', hpacket', hpos, hwritten⟩ := connectPacket_bytes hsound
    obtain rfl : packet' = packet := by
      rw [hpacket] at hpacket'
      exact (Except.ok.inj hpacket').symm
    exact ⟨hpos, hwritten ▸ decodeConnect_body hsound⟩
  refine ⟨packet, hpacket, fun ⟨_, h⟩ => ?_, fun ⟨he, hs⟩ => ?_⟩
  · have he := decodeConnect_only h
    have hsaid := (hdecode (encodable_outgoing he)).2
    rw [h] at hsaid
    exact ⟨he, hwhole.mp (congrArg ConnectData.properties (Except.ok.inj hsaid)).symm⟩
  · have hsame : c.said env call.keepAlive (outgoingProperties call.properties generated) =
        c.said env call.keepAlive call.properties := by
      rw [Config.said, hwhole.mpr hs, ← Config.said]
    rw [← hsame]
    exact hdecode (encodable_outgoing he)

end Configurations

/-- A new client, and what the setters make of it. -/
def configured (setters : List Setter) : Config × Mosq :=
  setters.foldl (fun x s => (s.apply x.1, (s.run x.2).1)) (⟨none, true, .mqtt311, 20, none, none, none⟩,
    Mosq.new none true)

/-- A client of version 5 with a name, a password and a will. -/
def named : List Setter :=
  [.protocolVersion .mqtt5, .usernamePw (some (.of [117])) (some (.of [112])),
   .will ⟨some (.of [116]), [98, 121, 101], 1, true, []⟩]

theorem named_configured : Configured (configured named).1 (configured named).2 := by
  have h0 := Configured.new none true rfl
  have h1 := Configured.set _ _ (.protocolVersion .mqtt5) h0 trivial rfl
  have h2 := Configured.set _ _ (.usernamePw (some (.of [117])) (some (.of [112]))) h1 trivial (by decide)
  exact Configured.set _ _ (.will ⟨some (.of [116]), [98, 121, 101], 1, true, []⟩) h2 ⟨true,
    .none true⟩ (by decide)

def namedCall : ConnectConfig :=
  { ConnectConfig.plain with properties := [⟨.sessionExpiryInterval, (100 : UInt32)⟩] }

/-- What it is configured with fits, so it is decoded again. -/
theorem connect_encodes_iff_named : ∃ m' packet, connectBindV5 .good (configured named).2 namedCall
    true = some m' ∧
    connectPacket m' namedCall.properties = .ok packet ∧
    Encodable ((configured named).1.said .good 60 namedCall.properties) ∧
      ((packet.pos = packet.packetLength ∧
          decodeConnect packet.written = .ok ((configured named).1.said .good 60 namedCall.properties)) ↔
        Encodable ((configured named).1.said .good 60 namedCall.properties) ∧
          SentWhole (configured named).1 namedCall.properties true) := by
  have hsome : ((connectBindV5 .good (configured named).2 namedCall true).map fun m' =>
      (sendConnect RecEnv.good.alloc m' namedCall.properties).2) = some .success := by decide
  obtain ⟨m', hm', hsend⟩ := Option.map_eq_some_iff.mp hsome
  have hl : Obtained namedCall.properties true := .add [] _ true (.int32 100) 17 (.none true) rfl
  obtain ⟨packet, hpacket, hiff⟩ := connect_encodes_iff named_configured hl hm' hsend
  refine ⟨m', packet, hm', hpacket, ?_, hiff⟩
  refine ⟨?_, ?_, ?_, by decide, ?_, ?_, ?_, ?_, ?_, ?_⟩
  all_goals decide

/-- A will without properties is accepted for its topic and its length. -/
theorem will_accepted {m : Mosq} {a : WillArgs} {topic : CString} (ht : a.topic = some topic)
    (hp : a.properties = [])
    (hlen : a.payload.length ≤ 268435455) (hc : mosquittoPubTopicCheck topic.bytes = .success)
    (hu : validateUtf8 topic.bytes = .success) : (mosquittoWillSetV5 m a).2 = .success := by
  have hfits : ¬ a.payload.length > 268435455 := by omega
  simp [mosquittoWillSetV5, willSet, checkWillProperties, checkAll, ht, hp, hfits, hc, hu]

/-- A CONNECT of version 5 is sent if it is not too long. -/
theorem sendConnect_mqtt5 {alloc : Alloc} {m : Mosq} {l : List MosquittoProperty} (h5 : m.protocol = .mqtt5)
    (hlen : connectLength (connectDataOf m l) < 268435456) (ha : ∀ p, alloc p = true) :
    (sendConnect alloc m l).2 = .success := by
  have halloc : packetAlloc alloc (connectLength (connectDataOf m l)) (.connect (connectDataOf m l)) =
      .success := by
    rw [packetAlloc, if_neg (by omega), ha, if_pos rfl]
  have hadopt : (adoptReceiveMaximum m l).protocol = .mqtt5 :=
    (protocol_of_conn (conn_adoptReceiveMaximum m l)).trans h5
  unfold sendConnect
  rw [if_neg (fun h => by rw [h5] at h; cases h.1)]
  dsimp only
  rw [if_neg (fun h => h.1 hadopt)]
  show (sendPacket alloc _ (connectLength (connectDataOf m l)) (.connect (connectDataOf m l))).2 = .success
  unfold sendPacket
  rw [halloc]

def longWill : WillArgs := ⟨some (.of [116]), List.replicate 65536 98, 0, false, []⟩

def version5 : Mosq := { Mosq.new none true with protocol := .mqtt5 }

theorem version5_configured {a : WillArgs} (hp : Built a.properties)
    (hset : (mosquittoWillSetV5 version5 a).2 = .success) :
    Configured ⟨none, true, .mqtt5, 20, none, none, some a.will⟩ { version5 with will := some a.will } := by
  have h0 : Configured ⟨none, true, .mqtt311, 20, none, none, none⟩ (Mosq.new none true) := .new none true rfl
  have h1 : Configured ⟨none, true, .mqtt5, 20, none, none, none⟩ version5 :=
    .set _ _ (.protocolVersion .mqtt5) h0 trivial rfl
  rw [← mosquittoWillSetV5_ok hset]
  exact .set _ _ (.will a) h1 ⟨true, hp.obtained⟩ hset

/-- It connects, with any will. -/
theorem version5_connects (will : Option Will) :
    (connectBindV5 .good { version5 with will := will } .plain true).isSome = true := rfl

theorem connectLength_will {c : ConnectData} {will : Will} (hc : c.will = some will) (h5 : c.protocol = .mqtt5)
    (hid : c.id = none) (hu : c.username = none) (hp : c.password = none) (hl : getLengthAll c.properties = 3)
    (hw : will.properties = []) : connectLength c = 21 + will.topic.length + will.payload.length := by
  have h0 : getLengthAll [] = 0 := rfl
  have h1 : varintBytes 0 = 1 ∧ varintBytes 3 = 1 := by decide
  simp [connectLength, hc, h5, hid, hu, hp, hl, hw, h0, h1]
  omega

/-- Its length goes out as 0. -/
theorem long_will_cut : ¬ ∀ (c : Config) (m m' : Mosq) (env : RecEnv) (call : ConnectConfig) (generated : Bool),
    Configured c m → Obtained call.properties generated → connectBindV5 env m call generated = some m' →
    (sendConnect env.alloc m' (outgoingProperties call.properties generated)).2 = .success →
      ∀ packet, connectPacket m' (outgoingProperties call.properties generated) = .ok packet →
        packet.pos = packet.packetLength ∧
          decodeConnect packet.written = .ok (c.said env call.keepAlive call.properties) := by
  intro h
  have hlong : longWill.will.payload.length = 65536 := List.length_replicate
  have hfits : longWill.payload.length ≤ 268435455 := by
    rw [show longWill.payload.length = 65536 from hlong]
    decide
  have hc := version5_configured (a := longWill) Built.nil (will_accepted rfl rfl hfits (by decide) (by decide))
  obtain ⟨m', hm'⟩ := Option.isSome_iff_exists.mp (version5_connects (some longWill.will))
  have hdata := (connectBindV5_data hc hm').data
  have hprotocol : m'.protocol = .mqtt5 := congrArg ConnectData.protocol hdata
  have hlen : connectLength (connectDataOf m' []) < 268435456 := by
    rw [show connectDataOf m' [] = _ from hdata, connectLength_will rfl rfl rfl rfl rfl rfl rfl, hlong]
    decide
  obtain ⟨packet, hpacket⟩ := connectPacket_exists hlen
  have hsend : (sendConnect RecEnv.good.alloc m' []).2 = .success :=
    sendConnect_mqtt5 hprotocol hlen (fun _ => rfl)
  have hsaid := (h _ _ m' .good .plain true hc (.none true) hm' hsend packet hpacket).2
  have hshort : longWill.will.payload.length ≤ 65535 := (decodeConnect_only hsaid).payload _ rfl
  omega

end Artemisia.Wire
