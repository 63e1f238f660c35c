/-
  Artemisia.Wire.Incoming — the packets of the server as bytes, up to what the client makes of them
  (`read_handle.c`, `handle_connack.c`, `handle_suback.c`, `handle_unsuback.c`).

  `Client.Handlers` takes packets whose fields have been read. Here `handle__packet` gets the first byte and
  the body, as `packet__read` leaves them.

  Proved:
  - `decodePacket_body`:  a packet is read as what it says.
  - `incoming_received`:  in whatever pieces the packets of a server come, the client is left as by the packets
                          themselves.
  - `answers_received`:   so are those that the send functions of another client of the version have built.
-/
import Artemisia.Client.Tails
import Artemisia.Threads.Moves
import Artemisia.Wire.Connect
import Artemisia.Wire.Link
import Artemisia.Wire.Publish

namespace Artemisia.Wire

open Artemisia.Property Artemisia.Client

/-! ## Reading -/

/-- `handle__connack` reads one field after the other. -/
def decodeConnack (protocol : Protocol) (body : Bytes) : InPacket :=
  let connectFlags := readByte body
  let reasonCode := connectFlags.bind fun r => readByte r.2
  let properties := reasonCode.bind fun r => readProperties protocol .connack r.2
  .connack (connectFlags.map (·.1)) (reasonCode.map (·.1)) (properties.map (·.1))

/-- The loop of `handle__suback`. -/
def readGranted : Bytes → Except Rc (List UInt8)
  | [] => .ok []
  | byte :: s => do
    let (qos, _) ← readByte (byte :: s)
    let granted ← readGranted s
    .ok (qos :: granted)

/-- The packet id and the properties of a SUBACK or an UNSUBACK, and what follows them. -/
def readSubscribed (protocol : Protocol) (command : Cmd) (body : Bytes) :
    Except Rc (UInt16 × List MosquittoProperty × Bytes) := do
  let (mid, s) ← readUint16 body
  if mid = 0 then .error .protocol
  else do
    let (properties, s) ← readProperties protocol command s
    .ok (mid, properties, s)

/-- `handle__suback`: what on_subscribe gets. -/
def readSuback (protocol : Protocol) (body : Bytes) :
    Except Rc (UInt16 × List UInt8 × List MosquittoProperty) := do
  let (mid, properties, s) ← readSubscribed protocol .suback body
  let granted ← readGranted s
  .ok (mid, granted, properties)

/-- `handle__unsuback`: what on_unsubscribe gets. The codes are not read. -/
def readUnsuback (protocol : Protocol) (body : Bytes) : Except Rc (UInt16 × List MosquittoProperty) := do
  let (mid, properties, _) ← readSubscribed protocol .unsuback body
  .ok (mid, properties)

/-- The switch of `handle__packet`. Which application message a PUBLISH stands for is not on the wire. -/
def decodePacket (m : Mosq) (command : UInt8) (body : Bytes) : InPacket :=
  if command &&& 0xF0 = 0xC0 then .pingreq
  else if command &&& 0xF0 = 0xD0 then .pingresp
  else if command &&& 0xF0 = 0x40 then inPacket m command .puback body
  else if command &&& 0xF0 = 0x70 then inPacket m command .pubcomp body
  else if command &&& 0xF0 = 0x30 then .publish (decodePublish m.protocol command body 0)
  else if command &&& 0xF0 = 0x50 then inPacket m command .pubrec body
  else if command &&& 0xF0 = 0x60 then inPacket m command .pubrel body
  else if command &&& 0xF0 = 0x20 then decodeConnack m.protocol body
  else if command &&& 0xF0 = 0x90 then .suback (rcOf (readSuback m.protocol body))
  else if command &&& 0xF0 = 0xB0 then .unsuback (rcOf (readUnsuback m.protocol body))
  else if command &&& 0xF0 = 0xE0 then inPacket m command .disconnect body
  else if command &&& 0xF0 = 0xF0 then inPacket m command .auth body
  else .unrecognised

/-- A handler to its end, with callbacks that call nothing. -/
def takePacket (alloc : Alloc) (m : Mosq) (p : InPacket) : Mosq × Rc :=
  match handlePacket alloc m p with
  | (m, .done rc) => (m, rc)
  | (m, .connack reasonCode _) => connackSwitch alloc m reasonCode
  | (m, .connackUnsupported) => (m, .protocol)
  | (m, .disconnect) => (m.emit .onDisconnect, .success)

/-- `handle__packet`. -/
def takeBytes (alloc : Alloc) : Handle := fun m command body => takePacket alloc m (decodePacket m command body)

/-! ## The packets of a server -/

/-- A reason code, and properties after it. -/
abbrev Tail := Option (UInt8 × Option (List MosquittoProperty))

def Tail.reasonCode : Tail → UInt8
  | none => 0
  | some (reasonCode, _) => reasonCode

def Tail.properties : Tail → List MosquittoProperty
  | some (_, some l) => l
  | _ => []

/-- A reason code and properties as `send__command_with_mid` writes them. -/
def tailFor (protocol : Protocol) (reasonCode : UInt8) (properties : List MosquittoProperty) : Tail :=
  if protocol = .mqtt5 ∧ (reasonCode ≠ 0 ∨ properties ≠ []) then
    some (reasonCode, if properties = [] then none else some properties)
  else none

inductive Incoming where
  | connack (connectFlags reasonCode : UInt8) (properties : List MosquittoProperty)
  | publish (dup : Bool) (qos : Nat) (retain : Bool) (topic : CString) (mid : UInt16)
      (properties : List MosquittoProperty) (payload : Bytes)
  /-- A DISCONNECT and an AUTH have no packet id. -/
  | tailed (t : Tailed) (mid : UInt16) (tail : Tail)
  | suback (mid : UInt16) (properties : List MosquittoProperty) (codes : List UInt8)
  | unsuback (mid : UInt16) (properties : List MosquittoProperty) (codes : List UInt8)
  | pingreq
  | pingresp

def tailedCommand : Tailed → UInt8
  | .puback => 0x40
  | .pubrec => 0x50
  | .pubrel => 0x62
  | .pubcomp => 0x70
  | .disconnect => 0xE0
  | .auth => 0xF0

namespace Incoming

def command : Incoming → UInt8
  | connack .. => 0x20
  | publish dup qos retain .. => publishCommand dup qos retain
  | tailed t .. => tailedCommand t
  | suback .. => 0x90
  | unsuback .. => 0xB0
  | pingreq => 0xC0
  | pingresp => 0xD0

end Incoming

def tailBytes : Tail → Bytes
  | none => []
  | some (reasonCode, none) => [reasonCode]
  | some (reasonCode, some l) => reasonCode :: (varintDigits 5 (getLengthAll l) ++ spelled l)

/-- A DISCONNECT and an AUTH begin with the reason code. -/
def hasMid : Tailed → Bool
  | .disconnect | .auth => false
  | _ => true

namespace Incoming

def body (protocol : Protocol) : Incoming → Bytes
  | connack connectFlags reasonCode l => connectFlags :: reasonCode :: sectionBytes protocol l
  | publish _ qos _ topic mid l payload => publishBody protocol topic.bytes qos mid l payload
  | tailed t mid tail => (if hasMid t then writeUint16 mid else []) ++ tailBytes tail
  | suback mid l codes | unsuback mid l codes => writeUint16 mid ++ (sectionBytes protocol l ++ codes)
  | pingreq | pingresp => []

def bytes (protocol : Protocol) (p : Incoming) : Bytes := packetBytes p.command (p.body protocol)

def packet (protocol : Protocol) : Incoming → InPacket
  | connack connectFlags reasonCode l =>
    .connack (.ok connectFlags) (.ok reasonCode) (.ok (if protocol = .mqtt5 then l else []))
  | publish dup qos retain topic mid l payload =>
    .publish ⟨dup, qos, retain, .ok topic, .ok (if qos > 0 then mid else 0),
      .ok (if protocol = .mqtt5 then l else []), payload, 0⟩
  | tailed .puback mid tail => .pubackcomp .puback (.ok mid) (.ok tail.reasonCode)
  | tailed .pubcomp mid tail => .pubackcomp .pubcomp (.ok mid) (.ok tail.reasonCode)
  | tailed .pubrec mid tail => .pubrec (.ok mid) (.ok tail.reasonCode)
  | tailed .pubrel mid tail => .pubrel 0x62 (.ok mid) (.ok tail.reasonCode)
  | tailed .disconnect _ tail => .disconnect (.ok tail.reasonCode) .success
  | tailed .auth _ _ => .auth .success
  | suback mid _ _ => .suback (if mid = 0 then .protocol else .success)
  | unsuback mid _ _ => .unsuback (if mid = 0 then .protocol else .success)
  | pingreq => .pingreq
  | pingresp => .pingresp

end Incoming

/-! ## What can be said -/

/-- Properties that the command has, in a section that can hold them. -/
structure Sectional (command : Cmd) (l : List MosquittoProperty) : Prop where
  fits : ∀ p ∈ l, p.Fits
  length : getLengthAll l < 268435456
  checked : checkAll command l = .success

/-- There are reason codes and properties from version 5 on. The handlers want a reason code in a DISCONNECT, and
    properties in an AUTH. -/
structure Sayable (protocol : Protocol) (t : Tailed) (tail : Tail) : Prop where
  properties : Sectional t.cmd tail.properties
  version : protocol ≠ .mqtt5 → hasMid t = true ∧ tail = none
  disconnect : t = .disconnect → tail ≠ none
  auth : t = .auth → ∃ reasonCode l, tail = some (reasonCode, some l)

namespace Incoming

/-- The fields of a packet that its encoding can hold. -/
def Fields (protocol : Protocol) : Incoming → Prop
  | connack _ _ l => Sectional .connack l
  | publish _ qos _ topic _ l _ =>
    qos ≤ 2 ∧ topic.bytes.length ≤ 65535 ∧ validateUtf8 topic.bytes = .success ∧ Sectional .publish l
  | tailed t _ tail => Sayable protocol t tail
  | suback _ l _ => Sectional .suback l
  | unsuback _ l _ => Sectional .unsuback l
  | pingreq | pingresp => True

structure Conforms (protocol : Protocol) (p : Incoming) : Prop where
  fields : p.Fields protocol
  short : (p.body protocol).length < 268435456

end Incoming

section Decoding

variable {m : Mosq} {l : List MosquittoProperty}

theorem readProperties_section {protocol : Protocol} {command : Cmd} (h : Sectional command l) (s : Bytes) :
    readProperties protocol command (sectionBytes protocol l ++ s) =
    .ok (if protocol = .mqtt5 then l else [], s) := by
  unfold readProperties sectionBytes
  split
  · rw [List.append_assoc]
    exact readAll_spelled h.checked h.fits h.length s
  · rfl

theorem readGranted_all (s : Bytes) : readGranted s = .ok s := by
  induction s with
  | nil => rfl
  | cons byte s ih =>
    have hread : readByte (byte :: s) = .ok (byte, s) := rfl
    rw [readGranted, hread, ih]
    rfl

theorem readSubscribed_body {protocol : Protocol} {command : Cmd} (h : Sectional command l) (mid : UInt16)
    (s : Bytes) :
    readSubscribed protocol command (writeUint16 mid ++ (sectionBytes protocol l ++ s)) =
      if mid = 0 then .error .protocol else .ok (mid, if protocol = .mqtt5 then l else [], s) := by
  have hmid := reads_uint16.round (a := mid) (sectionBytes protocol l ++ s) trivial
  unfold readSubscribed
  simp only [hmid, bind, Except.bind, readProperties_section h s]

theorem decodeConnack_body {protocol : Protocol} (h : Sectional .connack l) (connectFlags reasonCode : UInt8) :
    decodeConnack protocol (connectFlags :: reasonCode :: sectionBytes protocol l) =
      .connack (.ok connectFlags) (.ok reasonCode) (.ok (if protocol = .mqtt5 then l else [])) := by
  have hread (b : UInt8) (s : Bytes) : readByte (b :: s) = .ok (b, s) := rfl
  have hprops : readProperties protocol .connack (sectionBytes protocol l) =
      .ok (if protocol = .mqtt5 then l else [], []) := by
    rw [← readProperties_section h [], List.append_nil]
  simp only [decodeConnack, hread, Except.bind, Except.map, hprops]

theorem tailOf_tailBytes {t : Tailed} {tail : Tail} (h : Sectional t.cmd tail.properties) :
    TailOf t (tailBytes tail) tail.reasonCode tail.properties := by
  rcases tail with _ | ⟨reasonCode, _ | l⟩
  · exact .inl ⟨rfl, rfl, rfl⟩
  · exact .inr (.inl ⟨rfl, rfl⟩)
  · exact .inr (.inr ⟨_, rfl, rfl, h.length, h.fits, checkAll_valid.mp h.checked⟩)

theorem readAckTail_tailBytes {t : Tailed} {tail : Tail} (h : Sayable m.protocol t tail) :
    readAckTail m t.cmd (2 + (tailBytes tail).length) (tailBytes tail) =
    .ok (tail.reasonCode, tail.properties) := by
  by_cases h5 : m.protocol = .mqtt5
  · exact (readAckTail_iff h5).mpr (.inl (tailOf_tailBytes h.properties))
  · obtain ⟨-, rfl⟩ := h.version h5
    rw [readAckTail, if_neg fun hx => h5 hx.1]
    rfl

theorem inPacket_ack {t : Tailed} {tail : Tail} (h : Sayable m.protocol t tail) (mid : UInt16) :
    (readUint16 (writeUint16 mid ++ tailBytes tail)).map Prod.fst = .ok mid ∧
      (readAckTail m t.cmd (writeUint16 mid ++ tailBytes tail).length
      ((writeUint16 mid ++ tailBytes tail).drop 2)).map
        Prod.fst = .ok tail.reasonCode := by
  have hlen : (writeUint16 mid ++ tailBytes tail).length = 2 + (tailBytes tail).length := by simp
  have hdrop : (writeUint16 mid ++ tailBytes tail).drop 2 = tailBytes tail := rfl
  rw [hlen, hdrop, readAckTail_tailBytes h, reads_uint16.round (a := mid) (tailBytes tail) trivial]
  exact ⟨rfl, rfl⟩

theorem readDisconnectTail_section {s : Bytes} (h : s = [] ∨ ∃ l, Sectional .disconnect l ∧
    s = varintDigits 5 (getLengthAll l) ++ spelled l) (n : Nat) : (n > 2 →
    s ≠ []) → readDisconnectTail n s = .ok () := by
  intro hn
  unfold readDisconnectTail
  split
  · rename_i hlong
    obtain ⟨l, hl, rfl⟩ := h.resolve_left (hn hlong)
    have hall := readAll_spelled hl.checked hl.fits hl.length []
    rw [List.append_nil] at hall
    rw [hall]
    rfl
  · rfl

theorem decode_tailed {t : Tailed} {mid : UInt16} {tail : Tail} (h : Sayable m.protocol t tail) :
    inPacket m (tailedCommand t) t ((Incoming.tailed t mid tail).body m.protocol) =
      (Incoming.tailed t mid tail).packet m.protocol := by
  cases t with
  | disconnect =>
    rcases tail with _ | ⟨reasonCode, _ | l⟩
    · exact absurd rfl (h.disconnect rfl)
    · rfl
    · have hsec : Sectional .disconnect l := h.properties
      have htail := readDisconnectTail_section (.inr ⟨l, hsec, rfl⟩)
        (reasonCode :: (varintDigits 5 (getLengthAll l) ++ spelled l)).length fun _ hnil =>
          absurd (List.append_eq_nil_iff.mp hnil).1 (varintDigits_ne_nil _)
      exact congrArg (fun x => InPacket.disconnect (.ok reasonCode) (rcOf x)) htail
  | auth =>
    obtain ⟨reasonCode, l, rfl⟩ := h.auth rfl
    have hsec : Sectional .auth l := h.properties
    have hall := readAll_spelled hsec.checked hsec.fits hsec.length []
    rw [List.append_nil] at hall
    have hread : readAuth (reasonCode :: (varintDigits 5 (getLengthAll l) ++ spelled l)) = .ok () := by
      unfold readAuth
      show (do let _ ← readAll .auth (varintDigits 5 (getLengthAll l) ++ spelled l); Except.ok ()) = _
      rw [hall]
      rfl
    exact congrArg (fun x => InPacket.auth (rcOf x)) hread
  | puback =>
    obtain ⟨hmid, htail⟩ := inPacket_ack h mid
    exact congrArg₂ (InPacket.pubackcomp .puback) hmid htail
  | pubcomp =>
    obtain ⟨hmid, htail⟩ := inPacket_ack h mid
    exact congrArg₂ (InPacket.pubackcomp .pubcomp) hmid htail
  | pubrec =>
    obtain ⟨hmid, htail⟩ := inPacket_ack h mid
    exact congrArg₂ InPacket.pubrec hmid htail
  | pubrel =>
    obtain ⟨hmid, htail⟩ := inPacket_ack h mid
    exact congrArg₂ (InPacket.pubrel 0x62) hmid htail

/-- A packet is read as what it says. -/
theorem decodePacket_body {p : Incoming} (h : p.Conforms m.protocol) :
    decodePacket m p.command (p.body m.protocol) = p.packet m.protocol := by
  cases p with
  | connack connectFlags reasonCode l =>
    have hswitch (body : Bytes) : decodePacket m 0x20 body = decodeConnack m.protocol body := rfl
    exact (hswitch _).trans (decodeConnack_body h.fields connectFlags reasonCode)
  | publish dup qos retain topic mid l payload =>
    obtain ⟨hqos, ht, hutf, hl⟩ := h.fields
    obtain ⟨hkind, -, -⟩ := publishCommand_flags dup retain hqos
    have hswitch (body : Bytes) : decodePacket m (publishCommand dup qos retain) body =
        .publish (decodePublish m.protocol (publishCommand dup qos retain) body 0) := by
      simp [decodePacket, hkind]
    exact (hswitch _).trans (congrArg InPacket.publish
      (decodePublish_body ht hutf hl.fits hl.checked hl.length hqos dup retain 0))
  | tailed t mid tail =>
    have hswitch (body : Bytes) : decodePacket m (tailedCommand t) body = inPacket m (tailedCommand t)
        t body := by
      cases t <;> rfl
    exact (hswitch _).trans (decode_tailed h.fields)
  | suback mid l codes =>
    have hread : rcOf (readSuback m.protocol (writeUint16 mid ++ (sectionBytes m.protocol l ++ codes))) =
        if mid = 0 then .protocol else .success := by
      unfold readSuback
      rw [readSubscribed_body h.fields]
      by_cases hmid : mid = 0
      · rw [if_pos hmid, if_pos hmid]
        rfl
      · rw [if_neg hmid, if_neg hmid]
        show rcOf (do let granted ← readGranted codes; Except.ok (mid, granted, _)) = _
        rw [readGranted_all]
        rfl
    have hswitch (body : Bytes) : decodePacket m 0x90 body = .suback (rcOf (readSuback m.protocol body)) := rfl
    exact (hswitch _).trans (congrArg InPacket.suback hread)
  | unsuback mid l codes =>
    have hread : rcOf (readUnsuback m.protocol (writeUint16 mid ++ (sectionBytes m.protocol l ++ codes))) =
        if mid = 0 then .protocol else .success := by
      unfold readUnsuback
      rw [readSubscribed_body h.fields]
      by_cases hmid : mid = 0
      · rw [if_pos hmid, if_pos hmid]
        rfl
      · rw [if_neg hmid, if_neg hmid]
        rfl
    have hswitch (body : Bytes) : decodePacket m 0xB0 body = .unsuback (rcOf (readUnsuback m.protocol body)) :=
      rfl
    exact (hswitch _).trans (congrArg InPacket.unsuback hread)
  | pingreq => rfl
  | pingresp => rfl

end Decoding

/-! ## One packet after the other -/

/-- What a read returns when there is no socket any more. -/
def atEnd (m : Mosq) : Option Rc := if m.sock = none then some .noConn else none

/-- The client as the packets leave it, and the first error. -/
def receiveAll (alloc : Alloc) (m : Mosq) : List InPacket → Mosq × Option Rc
  | [] => (m, atEnd m)
  | p :: l =>
    if reading m then
      if (takePacket alloc m p).2 = .success then receiveAll alloc (takePacket alloc m p).1 l
      else ((takePacket alloc m p).1, some (takePacket alloc m p).2)
    else (m, atEnd m)

section Runs

variable {handle : Handle} {alloc : Alloc} {m : Mosq} {r : Reader} {s : Scan} {sock : List Arrival}

theorem protocol_takePacket (alloc : Alloc) (m : Mosq) (p : InPacket) :
    (takePacket alloc m p).1.protocol = m.protocol := by
  have hsame : (handlePacket alloc m p).1.protocol = m.protocol := by
    rcases conn_handlePacket alloc m p with ⟨hc, -, -⟩ | ⟨hd, -⟩
    · exact protocol_of_conn hc
    · rw [hd]
      rfl
  have hswitch (m' : Mosq) (reasonCode : UInt8) :
      (connackSwitch alloc m' reasonCode).1.protocol = m'.protocol := by
    obtain ⟨c, hc⟩ := Threads.connackSwitch_state alloc m' reasonCode
    exact congrArg Conn.protocol hc
  unfold takePacket
  generalize handlePacket alloc m p = x at hsame
  obtain ⟨m', rc | ⟨reasonCode, receiveMaximum⟩ | _ | _⟩ := x
  · exact hsame
  · exact (hswitch m' reasonCode).trans hsame
  · exact hsame
  · exact hsame

/-- The client that the packets leave, by their bytes. -/
def drive (handle : Handle) (m : Mosq) (l : List (UInt8 × Bytes)) : Mosq :=
  l.foldl (fun m x => (handle m x.1 x.2).1) m

theorem drive_snoc (l : List (UInt8 × Bytes)) (x : UInt8 × Bytes) :
    drive handle m (l ++ [x]) = (handle (drive handle m l) x.1 x.2).1 := by
  rw [drive, List.foldl_append]
  rfl

theorem call_drive (h : r.m = drive handle m r.handed) :
    (r.call handle).m = drive handle m (r.call handle).handed := by
  unfold Reader.call
  split
  · exact h
  · split
    · exact h
    · exact h
    · rw [drive_snoc, ← h]

theorem calls_drive (n : Nat) (h : r.m = drive handle m r.handed) :
    (r.calls handle n).m = drive handle m (r.calls handle n).handed := by
  induction n generalizing r with
  | zero => exact h
  | succ n ih => exact ih (call_drive h)

theorem scan_drive (l : Bytes) (h : s.m = drive handle m s.handed) :
    (scan handle s l).m = drive handle m (scan handle s l).handed := by
  induction l generalizing s with
  | nil => exact h
  | cons byte l ih =>
    apply ih
    unfold scanByte
    split
    · split
      · exact h
      · show (handle s.m _ _).1 = drive handle m (s.handed ++ [_])
        rw [drive_snoc, ← h]
      · exact h
    · exact h

/-- No pause finds a packet open that begins with a zero byte, if no beginning of the stream does. -/
theorem unsplit_quiet (hs : Steady sock) (h : ∀ p, p <+: arriving sock → (scan handle s p).zeroOpen = false) :
    Unsplit handle s sock := by
  induction sock generalizing s with
  | nil => trivial
  | cons a sock ih =>
    have hrest : Steady sock := fun x hx => hs x (List.mem_cons_of_mem _ hx)
    refine ⟨fun _ => h [] List.nil_prefix, ih hrest ?_⟩
    intro p hp
    rcases hs a (List.mem_cons_self ..) with rfl | ⟨bytes, rfl⟩
    · exact h p hp
    · show (scan handle (scan handle s bytes) p).zeroOpen = false
      rw [← scan_append]
      exact h (bytes ++ p) ((List.prefix_append_right_inj bytes).mpr hp)

theorem command_ne_zero {protocol : Protocol} {p : Incoming} (h : p.Fields protocol) : p.command ≠ 0 := by
  cases p with
  | publish dup qos retain topic mid l payload =>
    intro hzero
    obtain ⟨hkind, -, -⟩ := publishCommand_flags dup retain h.1
    have hzero : publishCommand dup qos retain = 0 := hzero
    rw [hzero] at hkind
    cases hkind
  | tailed t mid tail => cases t <;> simp [Incoming.command, tailedCommand]
  | _ => simp [Incoming.command]

/-- A packet of the version, as a frame. -/
def Incoming.frame {protocol : Protocol} (p : Incoming) (h : p.Conforms protocol) : Frame :=
  ⟨p.command, 0, p.body protocol, command_ne_zero h.fields, h.short⟩

theorem wire_frames {protocol : Protocol} {l : List Incoming} (h : ∀ p ∈ l, p.Conforms protocol) :
    Stream.wire Frame.bytes (l.attach.map fun p => p.1.frame (h p.1 p.2)) =
    l.flatMap (Incoming.bytes protocol) := by
  have hattach : l.attach.flatMap (fun p => p.1.bytes protocol) =
      (l.attach.map Subtype.val).flatMap (Incoming.bytes protocol) :=
    (List.flatMap_map ..).symm
  rw [List.attach_map_subtype_val] at hattach
  rw [Stream.wire, List.flatMap_map]
  exact hattach

/-- The scan takes the packets one after the other. -/
theorem scan_incoming {protocol : Protocol} {l : List Incoming} (h : ∀ p ∈ l, p.Conforms protocol)
    (hm : s.m.protocol = protocol) (hstop : s.stop = none) (hplace : s.place = .start) :
    let t := scan (takeBytes alloc) s (l.flatMap (Incoming.bytes protocol))
    (t.m, t.result.2) = receiveAll alloc s.m (l.map (Incoming.packet protocol)) := by
  induction l generalizing s with
  | nil =>
    show (s.m, s.result.2) = (s.m, atEnd s.m)
    simp [Scan.result, atEnd, hstop]
  | cons p l ih =>
    have hp := h p (List.mem_cons_self ..)
    rw [List.map_cons, receiveAll]
    by_cases hr : reading s.m = true
    · have hlive : s.live = true := decide_eq_true ⟨hstop, hr⟩
      have htake : takeBytes alloc s.m p.command (p.body protocol) = takePacket alloc s.m
          (p.packet protocol) := by
        subst hm
        rw [takeBytes, decodePacket_body hp]
      have hone : scan (takeBytes alloc) s (p.bytes protocol) =
          s.deliver (takeBytes alloc) p.command (p.body protocol) :=
        scan_packet (p.frame hp) hlive hplace
      rw [if_pos hr, List.flatMap_cons, scan_append, hone]
      by_cases hok : (takePacket alloc s.m (p.packet protocol)).2 = .success
      · have hnext := ih (s := s.deliver (takeBytes alloc) p.command (p.body protocol))
          (fun q hq => h q (List.mem_cons_of_mem _ hq)) (by
            show (takeBytes alloc s.m p.command (p.body protocol)).1.protocol = protocol
            rw [htake, protocol_takePacket, hm]) (by simp [Scan.deliver, htake, hok]) rfl
        rw [if_pos hok, ← htake]
        exact hnext
      · have hoff : (s.deliver (takeBytes alloc) p.command (p.body protocol)).live = false := by
          simp [Scan.live, Scan.deliver, htake, hok]
        rw [if_neg hok, scan_off hoff]
        simp [Scan.result, Scan.deliver, htake, hok]
    · have hoff : s.live = false := by
        simp only [Scan.live, hr]
        simp
      rw [if_neg hr, scan_off hoff]
      simp [Scan.result, atEnd, hstop]

/-- In whatever pieces the packets come, and with whatever pauses, `packet__read` leaves the client as the
    packets do, and returns the same error. -/
theorem incoming_received {l : List Incoming} {chunks : List Arrival} {n : Nat} (hr : reading m = true)
    (hl : ∀ p ∈ l, p.Conforms m.protocol) (hs : Steady chunks)
    (harrive : arriving chunks = l.flatMap (Incoming.bytes m.protocol)) (hn : weight chunks < n) :
    let r := (Reader.begin m chunks).calls (takeBytes alloc) n
    (r.m, r.stop) = receiveAll alloc m (l.map (Incoming.packet m.protocol)) := by
  intro r
  have hquiet (p : Bytes) (hp : p <+: arriving chunks) :
      (scan (takeBytes alloc) (Scan.begin m) p).zeroOpen = false := by
    rw [harrive, ← wire_frames hl] at hp
    exact (scan_decodes (takeBytes alloc)).quiet_anywhere (begin_rests hr) hp
  have hcalls := calls_scan (begin_tracks m chunks) (unsplit_quiet hs hquiet) (.inl (begin_zeroOpen m)) hn
  have hcalls : r.result = (scan (takeBytes alloc) (Scan.begin m) (arriving chunks)).result :=
    hcalls.trans (congrArg Scan.result (scanAll_steady (Scan.begin m) hs))
  have hm : r.m = (scan (takeBytes alloc) (Scan.begin m) (arriving chunks)).m := by
    have h1 : r.m = drive (takeBytes alloc) m r.handed := calls_drive n rfl
    have h2 : (scan (takeBytes alloc) (Scan.begin m) (arriving chunks)).m =
        drive (takeBytes alloc) m (scan (takeBytes alloc) (Scan.begin m) (arriving chunks)).handed :=
          scan_drive _ rfl
    rw [h1, h2]
    exact congrArg (drive (takeBytes alloc) m) (congrArg Prod.fst hcalls)
  have hscan := @scan_incoming alloc (Scan.begin m) _ _ hl rfl rfl rfl
  rw [← harrive] at hscan
  rw [hm]
  exact (congrArg (Prod.mk _) (congrArg Prod.snd hcalls)).trans hscan

end Runs

def twoPieces : List Arrival := [.data [0x40, 0x02], .again, .data [0x00, 0x05, 0xD0], .data [0x00]]

theorem incoming_received_twoPieces :
    ((Reader.begin activeClient twoPieces).calls (takeBytes fun _ => true) 20).stop = none ∧
    (let r := (Reader.begin activeClient twoPieces).calls (takeBytes fun _ => true) 20
     (r.m, r.stop) = receiveAll (fun _ => true) activeClient [.pubackcomp .puback (.ok 5) (.ok 0),
     .pingresp]) := by
  have hl : ∀ p ∈ [Incoming.tailed .puback 5 none, .pingresp], p.Conforms activeClient.protocol := by
    intro p hp
    have hsec : Sectional .puback [] := ⟨List.forall_mem_nil _, by decide, by decide⟩
    rcases List.mem_pair.mp hp with rfl | rfl
    · exact ⟨⟨hsec, fun _ => ⟨rfl, rfl⟩, fun h => (by cases h), fun h => (by cases h)⟩, by decide⟩
    · exact ⟨trivial, by decide⟩
  have hs : Steady twoPieces := by
    intro a ha
    simp only [twoPieces, List.mem_cons, List.not_mem_nil, or_false] at ha
    rcases ha with rfl | rfl | rfl | rfl <;> simp
  exact ⟨by decide, incoming_received (by decide) hl hs (by decide) (by decide)⟩

/-! ## The packets that the client builds -/

def commandWithMid (m : Mosq) (command : UInt8) (mid : UInt16) (dup : Bool) (reasonCode : UInt8)
    (properties : List MosquittoProperty) : Except Rc OutBuffer := do
  let remainingLength := 2 +
    if m.protocol = .mqtt5 then
      (if reasonCode ≠ 0 ∨ properties ≠ [] then 1 else 0) +
        if properties = [] then 0 else varintBytes (getLengthAll properties) + getLengthAll properties
    else 0
  let packet ← allocBuffer (if dup then command ||| 8 else command) remainingLength
  let packet := packet.write (writeUint16 mid)
  .ok (if m.protocol = .mqtt5 then
      let packet := if reasonCode ≠ 0 ∨ properties ≠ [] then packet.write (writeByte reasonCode) else packet
      if properties = [] then packet else packet.write (writeAll properties true).1
    else packet)

def simpleCommand (command : UInt8) : Except Rc OutBuffer := allocBuffer command 0

/-- The packets without a body of their own. -/
inductive Answer where
  | puback (mid : UInt16) (reasonCode : UInt8)
  | pubrec (mid : UInt16) (reasonCode : UInt8)
  | pubrel (mid : UInt16)
  | pubcomp (mid : UInt16)
  | pingreq
  | pingresp

namespace Answer

/-- `send__puback`, `send__pubrec`, `send__pubrel`, `send__pubcomp`, `send__pingreq` and `send__pingresp`. -/
def build (m : Mosq) : Answer → Except Rc OutBuffer
  | puback mid reasonCode => commandWithMid m 0x40 mid false reasonCode []
  | pubrec mid reasonCode => commandWithMid m 0x50 mid false reasonCode []
  | pubrel mid => commandWithMid m (0x60 ||| 2) mid false 0 []
  | pubcomp mid => commandWithMid m 0x70 mid false 0 []
  | pingreq => simpleCommand 0xC0
  | pingresp => simpleCommand 0xD0

/-- What the handlers take. There are no reason codes before version 5. -/
def packet (protocol : Protocol) : Answer → InPacket
  | puback mid reasonCode => .pubackcomp .puback (.ok mid) (.ok (if protocol = .mqtt5 then reasonCode else 0))
  | pubrec mid reasonCode => .pubrec (.ok mid) (.ok (if protocol = .mqtt5 then reasonCode else 0))
  | pubrel mid => .pubrel 0x62 (.ok mid) (.ok 0)
  | pubcomp mid => .pubackcomp .pubcomp (.ok mid) (.ok 0)
  | pingreq => .pingreq
  | pingresp => .pingresp

/-- The packet among those of a server. -/
def incoming (protocol : Protocol) : Answer → Incoming
  | puback mid reasonCode => .tailed .puback mid (tailFor protocol reasonCode [])
  | pubrec mid reasonCode => .tailed .pubrec mid (tailFor protocol reasonCode [])
  | pubrel mid => .tailed .pubrel mid (tailFor protocol 0 [])
  | pubcomp mid => .tailed .pubcomp mid (tailFor protocol 0 [])
  | pingreq => .pingreq
  | pingresp => .pingresp

end Answer

section Answers

variable {m : Mosq} {l : List MosquittoProperty}

theorem length_tailFor (protocol : Protocol) (reasonCode : UInt8) (hl : ∀ p ∈ l, p.Fits)
    (hlen : getLengthAll l < 268435456) :
    (tailBytes (tailFor protocol reasonCode l)).length =
      if protocol = .mqtt5 then (if reasonCode ≠ 0 ∨ l ≠ [] then 1 else 0) +
        if l = [] then 0 else varintBytes (getLengthAll l) + getLengthAll l
      else 0 := by
  unfold tailFor
  by_cases h5 : protocol = .mqtt5
  · by_cases hnil : l = []
    · by_cases hr : reasonCode = 0 <;> simp [h5, hnil, hr, tailBytes]
    · have htail : tailBytes (some (reasonCode, some l)) =
          reasonCode :: (varintDigits 5 (getLengthAll l) ++ spelled l) := rfl
      simp only [h5, hnil, htail, List.length_cons, List.length_append, length_varintDigits hlen,
        length_spelled hl, ne_eq,
        not_false_eq_true, or_true, and_self, if_true, if_false]
      omega
  · rw [if_neg fun hx => h5 hx.1, if_neg h5]
    rfl

/-- What follows the packet id is left out as far as it is nothing. -/
theorem commandWithMid_bytes (command : UInt8) (mid : UInt16) (dup : Bool) (reasonCode : UInt8)
    (hl : ∀ p ∈ l, p.Fits)
    (hlen : getLengthAll l < 268435448) :
    ∃ packet, commandWithMid m command mid dup reasonCode l = .ok packet ∧ packet.pos = packet.packetLength ∧
      packet.written = packetBytes (if dup then command ||| 8 else command)
        (writeUint16 mid ++ tailBytes (tailFor m.protocol reasonCode l)) := by
  have hl28 : getLengthAll l < 268435456 := by omega
  have htail := length_tailFor m.protocol reasonCode hl hl28
  have hbound : 2 + (tailBytes (tailFor m.protocol reasonCode l)).length < 268435456 := by
    have hdigits := varintBytes_le hl28
    rw [htail]
    split_ifs <;> omega
  have hbody : (writeUint16 mid ++ tailBytes (tailFor m.protocol reasonCode l)).length =
      2 + (tailBytes (tailFor m.protocol reasonCode l)).length := by simp
  have hwritten : commandWithMid m command mid dup reasonCode l =
      .ok ⟨2 + (tailBytes (tailFor m.protocol reasonCode l)).length + 1 +
          (varintDigits 5 (2 + (tailBytes (tailFor m.protocol reasonCode l)).length)).length,
        packetBytes (if dup then command ||| 8 else command)
          (writeUint16 mid ++ tailBytes (tailFor m.protocol reasonCode l))⟩ := by
    unfold commandWithMid packetBytes
    rw [hbody]
    simp only [← htail, allocBuffer_of_lt hbound, bind, Except.bind, OutBuffer.write]
    unfold tailFor
    by_cases h5 : m.protocol = .mqtt5
    · by_cases hnil : l = []
      · by_cases hr : reasonCode = 0 <;> simp [h5, hnil, hr, tailBytes, writeByte]
      · simp [h5, hnil, tailBytes, writeByte, writeAll_of_fits hl hl28]
    · simp [h5, tailBytes]
  refine ⟨_, hwritten, ?_, rfl⟩
  show (packetBytes _ _).length = _ + 1 + (varintDigits 5 _).length
  rw [length_packetBytes, hbody]

theorem simpleCommand_bytes (command : UInt8) : ∃ packet, simpleCommand command = .ok packet ∧
    packet.pos = packet.packetLength ∧ packet.written = packetBytes command [] :=
  ⟨_, rfl, rfl, rfl⟩

/-- Each of them is built, and is one of the packets of a server. -/
theorem answer_bytes (m : Mosq) (a : Answer) : ∃ packet, a.build m = .ok packet ∧
    packet.pos = packet.packetLength ∧
    packet.written = (a.incoming m.protocol).bytes m.protocol := by
  have hnone : ∀ p ∈ ([] : List MosquittoProperty), p.Fits := List.forall_mem_nil _
  cases a with
  | puback mid reasonCode => exact commandWithMid_bytes 0x40 mid false reasonCode hnone (by decide)
  | pubrec mid reasonCode => exact commandWithMid_bytes 0x50 mid false reasonCode hnone (by decide)
  | pubrel mid => exact commandWithMid_bytes 0x62 mid false 0 hnone (by decide)
  | pubcomp mid => exact commandWithMid_bytes 0x70 mid false 0 hnone (by decide)
  | pingreq => exact simpleCommand_bytes 0xC0
  | pingresp => exact simpleCommand_bytes 0xD0

theorem conforms_tailFor (protocol : Protocol) {t : Tailed} (ht : hasMid t = true) (mid : UInt16)
    (reasonCode : UInt8) :
    (Incoming.tailed t mid (tailFor protocol reasonCode [])).Conforms protocol := by
  have htail : tailFor protocol reasonCode [] = none ∨
      (protocol = .mqtt5 ∧ tailFor protocol reasonCode [] = some (reasonCode, none)) := by
    by_cases h : protocol = .mqtt5 ∧ (reasonCode ≠ 0 ∨ ([] : List MosquittoProperty) ≠ [])
    · exact .inr ⟨h.1, if_pos h⟩
    · exact .inl (if_neg h)
  have hprops : (tailFor protocol reasonCode []).properties = [] := by
    rcases htail with h | ⟨-, h⟩ <;> rw [h] <;> rfl
  refine ⟨⟨?_, ?_, ?_, ?_⟩, ?_⟩
  · rw [hprops]
    exact ⟨List.forall_mem_nil _, by decide, rfl⟩
  · intro h5
    exact ⟨ht, htail.resolve_right fun h => h5 h.1⟩
  · rintro rfl
    cases ht
  · rintro rfl
    cases ht
  · have hlen : (tailBytes (tailFor protocol reasonCode [])).length ≤ 1 := by
      rcases htail with h | ⟨-, h⟩ <;> rw [h] <;> simp [tailBytes]
    show ((if hasMid t then writeUint16 mid else []) ++ tailBytes _).length < _
    rw [if_pos ht, List.length_append, length_writeUint16]
    omega

theorem answer_conforms (protocol : Protocol) (a : Answer) : (a.incoming protocol).Conforms protocol := by
  cases a with
  | puback mid reasonCode => exact conforms_tailFor protocol rfl mid reasonCode
  | pubrec mid reasonCode => exact conforms_tailFor protocol rfl mid reasonCode
  | pubrel mid => exact conforms_tailFor protocol rfl mid 0
  | pubcomp mid => exact conforms_tailFor protocol rfl mid 0
  | pingreq => exact ⟨trivial, Nat.zero_lt_succ _⟩
  | pingresp => exact ⟨trivial, Nat.zero_lt_succ _⟩

theorem answer_packet (protocol : Protocol) (a : Answer) :
    (a.incoming protocol).packet protocol = a.packet protocol := by
  have hcode (reasonCode : UInt8) :
      (tailFor protocol reasonCode []).reasonCode = if protocol = .mqtt5 then reasonCode else 0 := by
    unfold tailFor
    by_cases h5 : protocol = .mqtt5 <;> by_cases hr : reasonCode = 0 <;> simp [h5, hr, Tail.reasonCode]
  cases a with
  | puback mid reasonCode => simp only [Answer.incoming, Answer.packet, Incoming.packet, hcode]
  | pubrec mid reasonCode => simp only [Answer.incoming, Answer.packet, Incoming.packet, hcode]
  | pubrel mid => simp [Answer.incoming, Answer.packet, Incoming.packet, hcode]
  | pubcomp mid => simp [Answer.incoming, Answer.packet, Incoming.packet, hcode]
  | pingreq => rfl
  | pingresp => rfl

theorem answers_built (m : Mosq) (answers : List Answer) : ∃ packets : List OutBuffer,
    answers.map (Answer.build m) = packets.map .ok ∧ (∀ packet ∈ packets, packet.pos = packet.packetLength) ∧
      packets.flatMap OutBuffer.written =
        (answers.map (Answer.incoming m.protocol)).flatMap (Incoming.bytes m.protocol) := by
  induction answers with
  | nil => exact ⟨[], rfl, List.forall_mem_nil _, rfl⟩
  | cons a answers ih =>
    obtain ⟨packet, hpacket, hpos, hwritten⟩ := answer_bytes m a
    obtain ⟨packets, hpackets, hfilled, hbytes⟩ := ih
    refine ⟨packet :: packets, ?_, List.forall_mem_cons.mpr ⟨hpos, hfilled⟩, ?_⟩
    · rw [List.map_cons, hpacket, hpackets, List.map_cons]
    · rw [List.flatMap_cons, hwritten, hbytes, List.map_cons, List.flatMap_cons]

/-- What one client answers is built, and another of its version takes it as it was meant, in whatever pieces it
    comes. -/
theorem answers_received {alloc : Alloc} {r : Mosq} (hprotocol : r.protocol = m.protocol) (hr : reading r = true)
    (answers : List Answer) : ∃ packets : List OutBuffer,
      answers.map (Answer.build m) = packets.map .ok ∧ (∀ packet ∈ packets, packet.pos = packet.packetLength) ∧
        ∀ chunks n, Steady chunks → arriving chunks = packets.flatMap OutBuffer.written → weight chunks < n →
          let t := (Reader.begin r chunks).calls (takeBytes alloc) n
          (t.m, t.stop) = receiveAll alloc r (answers.map (Answer.packet m.protocol)) := by
  obtain ⟨packets, hbuilt, hfilled, hbytes⟩ := answers_built m answers
  refine ⟨packets, hbuilt, hfilled, ?_⟩
  intro chunks n hs harrive hn
  have hconforms : ∀ p ∈ answers.map (Answer.incoming m.protocol), p.Conforms r.protocol := by
    intro p hp
    obtain ⟨a, -, rfl⟩ := List.mem_map.mp hp
    rw [hprotocol]
    exact answer_conforms m.protocol a
  have hsame : (answers.map (Answer.incoming m.protocol)).map (Incoming.packet r.protocol) =
      answers.map (Answer.packet m.protocol) := by
    rw [hprotocol, List.map_map]
    exact List.map_congr_left fun a _ => answer_packet m.protocol a
  rw [← hsame]
  exact incoming_received hr hconforms hs (by rw [harrive, hbytes, hprotocol]) hn

end Answers

theorem answers_received_two : ∃ packets : List OutBuffer,
    [Answer.puback 5 0x10, .pingresp].map (Answer.build activeClient) = packets.map .ok ∧
      (∀ packet ∈ packets, packet.pos = packet.packetLength) ∧
        ∀ chunks n, Steady chunks → arriving chunks = packets.flatMap OutBuffer.written → weight chunks < n →
          let t := (Reader.begin activeClient chunks).calls (takeBytes fun _ => true) n
          (t.m, t.stop) = receiveAll (fun _ => true) activeClient [.pubackcomp .puback (.ok 5) (.ok 0x10),
            .pingresp] :=
  answers_received rfl (by decide) [.puback 5 0x10, .pingresp]

end Artemisia.Wire
