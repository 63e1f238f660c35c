/-
  Artemisia.Wire.Link — the two ends of a connection: `packet__queue` and `packet__write` at one,
  `packet__read` at the other, and between them a stream of bytes that comes out in any pieces.

  The sender's threads queue, write and advance as in `Wire.Writer`; what the socket has taken comes out at the
  other end some bytes at a time, and is read by calls of `packet__read` that may come at any moment. So a
  connection is a queue of packets: what the reader hands on is what was queued, whole, once and in order.

  Proved:
  - `scan_packet` / `scan_part`: a packet is handed on with its last byte, and not before.
  - `step_linked`:               each step keeps the reader where the bytes that have come out leave it.
  - `link_fifo`:                 over any run, the packets handed on are the first of those queued, up to a
                                 DISCONNECT; and when `packet__read` has been called often enough, they are all
                                 that have come out whole.
-/
import Artemisia.Lib.Stream
import Artemisia.Wire.Framing
import Artemisia.Wire.Writer

namespace Artemisia.Wire

open Artemisia.Property Artemisia.Client

/-! ## Packets as frames -/

/-- A packet that a send function has built: `packet__alloc` has written its header, and refuses a longer one. -/
structure Frame where
  command : UInt8
  mid : UInt16
  body : Bytes
  nonzero : command ≠ 0
  short : body.length < 268435456

/-- What the reader gets of it. -/
def Frame.content (f : Frame) : UInt8 × Bytes := (f.command, f.body)

def Frame.bytes (f : Frame) : Bytes := packetBytes f.command f.body

/-- What lies in memory. -/
def Frame.packet (f : Frame) : OutPacket := ⟨f.command, f.mid, f.bytes, List.cons_ne_nil _ _⟩

/-- The packets up to a DISCONNECT. -/
def untilDisconnect : List Frame → List Frame
  | [] => []
  | f :: l => if f.packet.isDisconnect then [f] else f :: untilDisconnect l

theorem throughDisconnect_packets (l : List Frame) :
    throughDisconnect (l.map Frame.packet) = (untilDisconnect l).map Frame.packet := by
  induction l with
  | nil => rfl
  | cons f l ih =>
    rw [List.map_cons, throughDisconnect, untilDisconnect]
    split
    · rfl
    · rw [ih]
      rfl

theorem wire_packets (l : List Frame) : wire (l.map Frame.packet) = Stream.wire Frame.bytes l := by
  rw [wire, Stream.wire, List.flatMap_map]
  rfl

/-! ## The scan of a packet -/

section Scanning

variable {handle : Handle} {s : Scan} {c : UInt8}

/-- Inside a packet nothing changes but the place. -/
def Open (c : UInt8) (s t : Scan) : Prop :=
  ∃ p, t = { s with place := p } ∧
    ((∃ k mult v, p = .length c k mult v) ∨ ∃ todo payload, p = .body c todo payload)

/-- The digits of the length, down to the last one. -/
theorem scan_digits {n word k mult v : Nat} (hs : s.live = true) (hp : s.place = .length c k mult v) (hn : 0 < n)
    (hk : n + k ≤ 4) (hw : word < 128 ^ n) :
    scan handle s (varintDigits n word) = filled handle s c (v + word * mult) := by
  induction n generalizing s word k mult v with
  | zero => omega
  | succ n ih =>
    have hfour : ¬ k + 1 > 4 := by omega
    rw [varintDigits]
    by_cases hmore : word / 128 > 0
    · obtain ⟨hpos, hlt⟩ := digits_more hw hmore
      have hdigit := moreDigit_toNat word
      have htop : (UInt8.ofNat (word % 128) ||| 0x80) &&& 128 ≠ 0 := by
        rw [Ne, and128_eq_zero]
        omega
      have hlow : ((UInt8.ofNat (word % 128) ||| 0x80) &&& 127).toNat = word % 128 := by
        rw [and127, hdigit]
        omega
      have htake : takeByte s.place (UInt8.ofNat (word % 128) ||| 0x80) =
          .place (.length c (k + 1) (mult * 128) (v + word % 128 * mult)) := by
        rw [hp]
        simp only [takeByte, if_neg hfour, if_pos htop, hlow]
      have hrest := ih (s := { s with place := .length c (k + 1) (mult * 128) (v + word % 128 * mult) }) hs rfl
          hpos
        (by omega) hlt
      rw [if_pos hmore, scan, List.foldl_cons, scanByte_place hs htake, ← scan, hrest, digit_sum]
      rfl
    · have hdigit := lastDigit_toNat (show word < 128 by omega)
      have htop : ¬ UInt8.ofNat (word % 128) &&& 128 ≠ 0 := by
        rw [not_not, and128_eq_zero, hdigit]
        omega
      have hlow : (UInt8.ofNat (word % 128) &&& 127).toNat = word := by
        rw [and127, hdigit]
        omega
      rw [if_neg hmore]
      show scanByte handle s _ = _
      unfold filled
      by_cases hbody : v + word * mult > 0
      · have htake : takeByte s.place (UInt8.ofNat (word % 128)) = .place (.body c (v + word * mult) []) := by
          rw [hp]
          simp only [takeByte, if_neg hfour, if_neg htop, hlow, if_pos hbody]
        rw [scanByte_place hs htake, if_pos hbody]
      · have htake : takeByte s.place (UInt8.ofNat (word % 128)) = .whole c [] := by
          rw [hp]
          simp only [takeByte, if_neg hfour, if_neg htop, hlow, if_neg hbody]
        rw [scanByte_whole hs htake, if_neg hbody]

theorem scan_digits_part {n word k mult v : Nat} {p : Bytes} (hs : s.live = true)
    (hp : s.place = .length c k mult v)
    (hk : n + k ≤ 4) (hpre : p <+: varintDigits n word) (hlen : p.length < (varintDigits n word).length) :
    Open c s (scan handle s p) := by
  induction n generalizing s word k mult v p with
  | zero => simp [varintDigits] at hlen
  | succ n ih =>
    have hfour : ¬ k + 1 > 4 := by omega
    cases p with
    | nil => exact ⟨s.place, rfl, .inl ⟨k, mult, v, hp⟩⟩
    | cons b p =>
      rw [varintDigits] at hpre hlen
      by_cases hmore : word / 128 > 0
      · rw [if_pos hmore] at hpre hlen
        obtain ⟨rfl, htail⟩ := List.cons_prefix_cons.mp hpre
        have htop : (UInt8.ofNat (word % 128) ||| 0x80) &&& 128 ≠ 0 := by
          rw [Ne, and128_eq_zero, moreDigit_toNat]
          omega
        have htake : takeByte s.place (UInt8.ofNat (word % 128) ||| 0x80) =
            .place (.length c (k + 1) (mult * 128) (v + ((UInt8.ofNat (word % 128) ||| 0x80) &&& 127).toNat *
              mult)) := by
          rw [hp]
          simp only [takeByte, if_neg hfour, if_pos htop]
        generalize v + ((UInt8.ofNat (word % 128) ||| 0x80) &&& 127).toNat * mult = v' at htake
        rw [scan, List.foldl_cons, scanByte_place hs htake, ← scan]
        obtain ⟨q, he, hq⟩ := ih (s := { s with place := .length c (k + 1) (mult * 128) v' }) hs rfl
            (by omega) htail
          (by simpa using hlen)
        exact ⟨q, he, hq⟩
      · rw [if_neg hmore, List.length_cons, List.length_singleton] at hlen
        omega

theorem scan_packet (f : Frame) (hs : s.live = true) (hp : s.place = .start) :
    scan handle s f.bytes = s.deliver handle f.command f.body := by
  have hdigits : varintDigits 5 f.body.length = varintDigits 4 f.body.length :=
    varintDigits_enough (by omega) (by omega) f.short
  have htake : takeByte s.place f.command = .place (.length f.command 0 1 0) := by rw [hp, takeByte]
  have hlength := @scan_digits handle { s with place := .length f.command 0 1 0 } _ _ _ _ _ _ hs rfl
    (show 0 < 4 by omega) (show 4 + 0 ≤ 4 by omega) f.short
  rw [Frame.bytes, packetBytes, hdigits, scan, List.foldl_cons, scanByte_place hs htake, ← scan,
    scan_append, hlength,
    Nat.zero_add, Nat.mul_one]
  unfold filled
  by_cases hbody : f.body.length > 0
  · have hall := @scan_body handle { s with place := .body f.command f.body.length [] } _ _ _ _ hs rfl
      (List.length_pos_iff.mp hbody) (Nat.le_refl _)
    rw [if_neg (Nat.lt_irrefl _)] at hall
    rw [if_pos hbody]
    exact hall
  · have hnil : f.body = [] := List.length_eq_zero_iff.mp (by omega)
    rw [if_neg hbody, hnil]
    rfl

/-- A packet that has not come whole: either nothing of it has come, or it is open. -/
theorem scan_part (f : Frame) {p : Bytes} (hs : s.live = true) (hp : s.place = .start) (hpre : p <+: f.bytes)
    (hlen : p.length < f.bytes.length) : scan handle s p = s ∨ Open f.command s (scan handle s p) := by
  have hdigits : varintDigits 5 f.body.length = varintDigits 4 f.body.length :=
    varintDigits_enough (by omega) (by omega) f.short
  cases p with
  | nil => exact .inl rfl
  | cons b p =>
    right
    rw [Frame.bytes, packetBytes, hdigits] at hpre hlen
    obtain ⟨rfl, htail⟩ := List.cons_prefix_cons.mp hpre
    have htake : takeByte s.place f.command = .place (.length f.command 0 1 0) := by rw [hp, takeByte]
    rw [scan, List.foldl_cons, scanByte_place hs htake, ← scan]
    by_cases hd : p.length < (varintDigits 4 f.body.length).length
    · have hpre' := List.prefix_of_prefix_length_le htail (List.prefix_append ..) (Nat.le_of_lt hd)
      obtain ⟨q, he, hq⟩ := scan_digits_part (s := { s with place := .length f.command 0 1 0 }) hs rfl
        (show 4 + 0 ≤ 4 by omega) hpre' hd
      exact ⟨q, he, hq⟩
    · -- all of the digits have come, and some of the body
      obtain ⟨q, rfl⟩ := List.prefix_of_prefix_length_le (List.prefix_append ..) htail (Nat.le_of_not_lt hd)
      have hq : q <+: f.body := (List.prefix_append_right_inj _).mp htail
      have hqlen : q.length < f.body.length := by
        simp only [List.length_cons, List.length_append] at hlen
        omega
      have hbody : f.body.length > 0 := by omega
      have hlength := @scan_digits handle { s with place := .length f.command 0 1 0 } _ _ _ _ _ _ hs rfl
        (show 0 < 4 by omega) (show 4 + 0 ≤ 4 by omega) f.short
      rw [scan_append, hlength, Nat.zero_add, Nat.mul_one, filled, if_pos hbody]
      by_cases hnil : q = []
      · subst hnil
        exact ⟨_, rfl, .inr ⟨_, _, rfl⟩⟩
      · have hsome := @scan_body handle { s with place := .body f.command f.body.length [] } _ _ _ _ hs rfl
          hnil hqlen.le
        rw [if_pos hqlen] at hsome
        exact ⟨_, hsome, .inr ⟨_, _, rfl⟩⟩

theorem Open.keeps {t : Scan} (h : Open c s t) : t.handed = s.handed ∧ (c ≠ 0 → t.zeroOpen = false) := by
  obtain ⟨p, rfl, ⟨k, mult, v, rfl⟩ | ⟨todo, payload, rfl⟩⟩ := h
  · exact ⟨rfl, fun hc => by simp [Scan.zeroOpen, hc]⟩
  · exact ⟨rfl, fun hc => by simp [Scan.zeroOpen, hc]⟩

theorem scan_decodes (handle : Handle) : Stream.Decodes Frame.bytes Frame.content (scanByte handle) Scan.handed
    (fun s => s.live = true ∧ s.place = .start) (fun s => s.live = false) (fun s => s.zeroOpen = false) where
  frame := by
    intro s f hs
    obtain ⟨hlive, hp⟩ := hs
    have he : f.bytes.foldl (scanByte handle) s = s.deliver handle f.command f.body := scan_packet f hlive hp
    rw [he]
    refine ⟨rfl, ?_⟩
    cases hl : (s.deliver handle f.command f.body).live with
    | true => exact .inl ⟨rfl, rfl⟩
    | false => exact .inr rfl
  part := by
    intro s f p hs hpre hlen
    obtain ⟨hlive, hp⟩ := hs
    show (scan handle s p).handed = _ ∧ (scan handle s p).zeroOpen = false
    rcases scan_part f hlive hp hpre hlen with he | ho
    · rw [he]
      exact ⟨rfl, by simp [Scan.zeroOpen, hp]⟩
    · exact ⟨ho.keeps.1, ho.keeps.2 f.nonzero⟩
  still := fun s b h => scanByte_off h b
  calm := by
    rintro s (⟨-, hp⟩ | hl)
    · simp [Scan.zeroOpen, hp]
    · simp [Scan.zeroOpen, hl]

end Scanning

/-! ## The connection -/

/-- The sender, and the reader, to whose socket `taken` of the bytes have come out. -/
structure Link where
  writer : Writer
  reader : Reader
  sent : List Frame
  taken : Nat

inductive LinkEv where
  /-- `packet__queue`, with the address that the packet was allocated at. -/
  | queue (a : Nat) (f : Frame)
  /-- The sender's threads go on. -/
  | write (e : WriterEv)
  /-- Some of the bytes that are under way come out, in one piece. -/
  | arrive (n : Nat)
  /-- There is nothing to read for the moment. -/
  | pause
  /-- `packet__read` is called. -/
  | read

def Reader.receive (r : Reader) (a : Arrival) : Reader := { r with sock := r.sock ++ [a] }

/-- The bytes that the sender's socket has taken, and the reader's has not got. -/
def Link.inFlight (l : Link) : Bytes := l.writer.accepted.drop l.taken

def Link.step (handle : Handle) (l : Link) : LinkEv → Option Link
  | .queue a f => (l.writer.step (.queue a f.packet)).map fun w => { l with writer := w, sent := l.sent ++ [f] }
  | .write (.queue ..) => none
  | .write e => (l.writer.step e).map fun w => { l with writer := w }
  | .arrive n =>
    let d := l.inFlight.take n
    some { l with taken := l.taken + d.length, reader := l.reader.receive (.data d) }
  | .pause => some { l with reader := l.reader.receive .again }
  | .read => some { l with reader := l.reader.call handle }

/-- A connection begins, with a reader that reads. -/
structure Link.Opened (m : Mosq) (l : Link) : Prop where
  writer : Fresh l.writer
  reader : l.reader = Reader.begin m []
  reads : reading m = true
  nothing : l.sent = [] ∧ l.taken = 0

/-- `packet__read` goes on reading. -/
def Reader.alive (r : Reader) : Bool := r.stop = none ∧ reading r.m

/-! ## Where the reader stands -/

section Reading

variable {handle : Handle} {m : Mosq} {bytes d : Bytes} {r : Reader} {s : Scan} {sock : List Arrival}

theorem scanByte_handed (s : Scan) (b : UInt8) : s.handed <+: (scanByte handle s b).handed := by
  unfold scanByte
  split
  · split
    · exact List.prefix_rfl
    · exact List.prefix_append ..
    · exact List.prefix_rfl
  · exact List.prefix_rfl

theorem scan_handed (s : Scan) (d : Bytes) : s.handed <+: (scan handle s d).handed := by
  induction d generalizing s with
  | nil => exact List.prefix_rfl
  | cons b d ih => exact (scanByte_handed s b).trans (ih (scanByte handle s b))

theorem scanAll_handed (s : Scan) (sock : List Arrival) : s.handed <+: (scanAll handle s sock).handed := by
  induction sock generalizing s with
  | nil => exact List.prefix_rfl
  | cons a sock ih =>
    have ha : s.handed <+: (scanArrival handle s a).handed := by
      cases a with
      | data d => exact scan_handed s d
      | again => exact List.prefix_rfl
      | _ =>
        simp only [scanArrival]
        split <;> exact List.prefix_rfl
    exact ha.trans (ih _)

theorem unsplit_snoc {a : Arrival} (hu : Unsplit handle s sock)
    (ha : pauses a = true → (scanAll handle s sock).zeroOpen = false) : Unsplit handle s (sock ++ [a]) := by
  induction sock generalizing s with
  | nil => exact ⟨ha, trivial⟩
  | cons b sock ih => exact ⟨hu.1, ih hu.2 ha⟩

/-- The reader has been given these bytes: it is on its way through them, or it reads no more. -/
inductive Given (handle : Handle) (m : Mosq) (bytes : Bytes) (r : Reader) : Prop where
  | going (s : Scan) : Tracks r s → s.live = true → s.zeroOpen = false → Unsplit handle s r.sock →
      scanAll handle s r.sock = scan handle (Scan.begin m) bytes → Given handle m bytes r
  | off : r.alive = false → r.handed = (scan handle (Scan.begin m) bytes).handed →
      (scan handle (Scan.begin m) bytes).live = false → Given handle m bytes r

theorem Tracks.alive (h : Tracks r s) : r.alive = s.live := by
  unfold Reader.alive Scan.live
  rw [h.stop, h.m]

/-- A reader that has stopped is not set going by a call. -/
theorem call_off (h : r.alive = false) : (r.call handle).alive = false ∧ (r.call handle).handed = r.handed := by
  by_cases hstop : r.stop = none
  · have hoff : ¬ reading r.m = true := fun hr => of_decide_eq_false h ⟨hstop, hr⟩
    by_cases hsock : r.m.sock = none
    · have hread : packetRead r.m r.buffer r.sock = (r.buffer, r.sock, .failed .noConn) := by
        rw [packetRead, if_pos hsock]
      simp only [Reader.call, hstop, hread]
      exact ⟨by simp [Reader.alive], rfl⟩
    · have hstate : r.m.state = .connectPending := by
        by_contra hne
        exact hoff (decide_eq_true ⟨hsock, hne⟩)
      have hread : packetRead r.m r.buffer r.sock = (r.buffer, r.sock, .blocked) := by
        rw [packetRead, if_neg hsock, if_pos hstate]
      have hcall : r.call handle = r := by
        unfold Reader.call
        rw [if_neg (not_not.mpr hstop), hread]
      rw [hcall]
      exact ⟨h, rfl⟩
  · rw [call_stopped hstop]
    exact ⟨h, rfl⟩

theorem Given.call (h : Given handle m bytes r) (hq : (scan handle (Scan.begin m) bytes).zeroOpen = false) :
    Given handle m bytes (r.call handle) := by
  cases h with
  | off hoff hh hl =>
    obtain ⟨ha, he⟩ : _ ∧ (r.call handle).handed = r.handed := call_off hoff
    exact .off ha (he.trans hh) hl
  | going s ht hs hz hu he =>
    obtain ⟨s', ht', hleads, hz', -⟩ := call_scan ht hs hz
    have hsame : scanAll handle s' (r.call handle).sock = scan handle (Scan.begin m) bytes := hleads.same.trans he
    cases hlive : s'.live with
    | true =>
      refine .going s' ht' hlive ?_ (hleads.unsplit hu) hsame
      rcases hz' hu with hzero | hnil
      · exact hzero
      · -- nothing is left to read
        rw [hnil] at hsame
        exact (congrArg Scan.zeroOpen hsame).trans hq
    | false =>
      rw [scanAll_off hlive] at hsame
      exact .off (ht'.alive.trans hlive) (by rw [ht'.handed, hsame]) (hsame ▸ hlive)

theorem Given.receive (h : Given handle m bytes r) (hq : (scan handle (Scan.begin m) bytes).zeroOpen = false)
    {a : Arrival} (ha : a = .data d ∨ (a = .again ∧ d = [])) : Given handle m (bytes ++ d) (r.receive a) := by
  have hmore (s : Scan) : scanArrival handle s a = scan handle s d := by
    rcases ha with rfl | ⟨rfl, rfl⟩ <;> rfl
  cases h with
  | off hoff hh hl =>
    have he : scan handle (Scan.begin m) (bytes ++ d) = scan handle (Scan.begin m) bytes := by
      rw [scan_append, scan_off hl]
    exact .off hoff (by rw [he]; exact hh) (by rw [he]; exact hl)
  | going s ht hs hz hu he =>
    refine .going s ⟨ht.m, ht.handed, ht.stop, ht.holds⟩ hs hz (unsplit_snoc hu fun _ => by rw [he]; exact hq) ?_
    show scanAll handle s (r.sock ++ [a]) = _
    rw [scanAll_append, he, scan_append]
    exact hmore _

/-- What has been handed on is part of what the bytes say. -/
theorem Given.handed (h : Given handle m bytes r) : r.handed <+: (scan handle (Scan.begin m) bytes).handed := by
  cases h with
  | off _ hh => exact hh ▸ List.prefix_rfl
  | going s ht _ _ _ he =>
    rw [ht.handed, ← he]
    exact scanAll_handed s r.sock

/-- When it has been called often enough, it is all that they say, unless the reader has stopped. -/
theorem Given.settled {n : Nat} (h : Given handle m bytes r)
    (hq : (scan handle (Scan.begin m) bytes).zeroOpen = false)
    (hn : weight r.sock < n) (ha : (r.calls handle n).alive = true) :
    (r.calls handle n).handed = (scan handle (Scan.begin m) bytes).handed ∧
    (scan handle (Scan.begin m) bytes).live = true := by
  induction n generalizing r with
  | zero => omega
  | succ n ih =>
    rw [Reader.calls] at ha ⊢
    have hstopped {r' : Reader} (hoff : r'.alive = false) : (r'.calls handle n).alive = false := by
      clear ih ha hn
      induction n generalizing r' with
      | zero => exact hoff
      | succ n ih => exact ih (call_off hoff).1
    cases h with
    | off hoff => rw [hstopped (call_off hoff).1] at ha; cases ha
    | going s ht hs hz hu he =>
      by_cases hnil : r.sock = []
      · have hlive := of_decide_eq_true hs
        have hb := ht.holds.resolve_right (not_not.mpr hlive.1)
        have hcall : r.call handle = r := by
          unfold Reader.call
          rw [if_neg (not_not.mpr (ht.stop.trans hlive.1)), hnil, packetRead_nil (ht.m ▸ hlive.2) hb]
          dsimp only
          rw [← hnil]
        rw [hnil] at he
        rw [hcall, calls_fixed hcall, ht.handed]
        exact ⟨congrArg Scan.handed he, (congrArg Scan.live he).symm.trans hs⟩
      · obtain ⟨-, -, -, -, hw⟩ := call_scan (r := r) ht hs hz
        have hless : weight (r.call handle).sock < weight r.sock := hw hnil
        exact ih ((Given.going s ht hs hz hu he).call hq) (by omega) ha

end Reading

/-! ## Runs -/

section Runs

variable {handle : Handle} {m : Mosq} {l : Link}

/-- The bytes that have come out are the first of the packets', and the reader has been given them. -/
structure Linked (handle : Handle) (m : Mosq) (l : Link) : Prop where
  flow : Flow l.writer
  queued : l.writer.queued = l.sent.map Frame.packet
  taken : l.taken ≤ l.writer.accepted.length
  reads : reading m = true
  given : Given handle m (l.writer.accepted.take l.taken) l.reader

theorem Linked.bytes (h : Linked handle m l) :
    l.writer.accepted <+: Stream.wire Frame.bytes (untilDisconnect l.sent) := by
  have he := h.flow.inOrder.ended
  rwa [h.queued, throughDisconnect_packets, wire_packets] at he

theorem begin_rests (hr : reading m = true) : (Scan.begin m).live = true ∧ (Scan.begin m).place = .start :=
  ⟨decide_eq_true ⟨rfl, hr⟩, rfl⟩

theorem Linked.quiet (h : Linked handle m l) :
    (scan handle (Scan.begin m) (l.writer.accepted.take l.taken)).zeroOpen = false :=
  (scan_decodes handle).quiet_anywhere (begin_rests h.reads) ((List.take_prefix ..).trans h.bytes)

/-- What the socket has taken is never taken back, and only `packet__queue` queues. -/
theorem step_records {w w' : Writer} {e : WriterEv} (h : w.step e = some w') :
    w.accepted <+: w'.accepted ∧ (w'.queued = w.queued ∨ ∃ a p, e = .queue a p) := by
  have hnext : w.next.accepted = w.accepted ∧ w.next.queued = w.queued := by
    unfold Writer.next
    split <;> exact ⟨rfl, rfl⟩
  cases e with
  | queue a p =>
    refine ⟨?_, .inr ⟨a, p, rfl⟩⟩
    simp only [Writer.step, Writer.packetQueue] at h
    split at h
    · cases h
      split <;> exact List.prefix_rfl
    · cases h
  | arrive =>
    simp only [Writer.step] at h
    split at h
    · cases h
      exact ⟨List.prefix_rfl, .inl rfl⟩
    · cases h
  | enter pending =>
    simp only [Writer.step] at h
    split at h
    · cases h
      simp only [Writer.enter, Writer.loop]
      split <;> split <;> simp [hnext]
    · cases h
  | write r =>
    simp only [Writer.step, Writer.netWrite] at h
    split at h
    · split at h
      · cases h
      · split at h
        · cases h
          exact ⟨List.prefix_rfl, .inl rfl⟩
        · cases r with
          | accepted n =>
            simp only at h
            split at h
            · cases h
              simp only [Writer.taken]
              repeat' split
              all_goals exact ⟨List.prefix_append .., .inl rfl⟩
            · cases h
          | _ =>
            cases h
            exact ⟨List.prefix_rfl, .inl rfl⟩
    · cases h
  | advance =>
    simp only [Writer.step, Writer.advance] at h
    split at h
    · cases h
    · split at h
      · cases h
        simp [Writer.loop, hnext]
      · cases h
        simp [hnext]
      · cases h
  | close =>
    cases h
    exact ⟨List.prefix_rfl, .inl rfl⟩

theorem packetQueue_queued {w : Writer} {a : Nat} {p : OutPacket} (h : (w.packetQueue a p).crashed = false) :
    (w.packetQueue a p).queued = w.queued ++ [p] := by
  unfold Writer.packetQueue at h ⊢
  generalize LinkedQueue.push _ _ _ = x at h ⊢
  cases x with
  | some x => rfl
  | none => cases h

/-- The sender goes on: what has come out has. -/
theorem Linked.write {w : Writer} {e : WriterEv} {sent : List Frame} (h : Linked handle m l)
    (hw : l.writer.step e = some w)
    (hq : w.queued = sent.map Frame.packet) : Linked handle m { l with writer := w, sent := sent } := by
  obtain ⟨t, ht⟩ := (step_records hw).1
  have htake : w.accepted.take l.taken = l.writer.accepted.take l.taken := by
    rw [← ht, List.take_append_of_le_length h.taken]
  refine ⟨step_flow h.flow hw, hq, ?_, h.reads, ?_⟩
  · rw [← ht, List.length_append]
    exact h.taken.trans (Nat.le_add_right ..)
  · show Given handle m (w.accepted.take l.taken) l.reader
    rw [htake]
    exact h.given

theorem step_linked {l' : Link} {e : LinkEv} (h : Linked handle m l) (hs : l.step handle e = some l') :
    Linked handle m l' := by
  cases e with
  | queue a f =>
    obtain ⟨w, hw, rfl⟩ := Option.map_eq_some_iff.mp hs
    refine h.write hw ?_
    have hsound := (step_flow h.flow hw).inOrder.sound
    simp only [Writer.step] at hw
    split at hw
    · cases hw
      rw [packetQueue_queued hsound, h.queued, List.map_append]
      rfl
    · cases hw
  | write e =>
    obtain ⟨w, hw, hne, rfl⟩ : ∃ w, l.writer.step e = some w ∧ (¬ ∃ a p, e = .queue a p) ∧
        { l with writer := w } = l' := by
      cases e with
      | queue => cases hs
      | _ =>
        simp only [Link.step, Option.map_eq_some_iff] at hs
        obtain ⟨w, hw, he⟩ := hs
        exact ⟨w, hw, by simp, he⟩
    exact h.write hw (((step_records hw).2.resolve_right hne).trans h.queued)
  | arrive n =>
    cases hs
    have hmore : l.writer.accepted.take (l.taken + (l.inFlight.take n).length) =
        l.writer.accepted.take l.taken ++ l.inFlight.take n := by
      rw [List.take_add, Link.inFlight, List.length_take, ← List.take_take, List.take_length]
    refine ⟨h.flow, h.queued, ?_, h.reads, ?_⟩
    · have := h.taken
      simp only [Link.inFlight, List.length_take, List.length_drop]
      omega
    · show Given handle m (l.writer.accepted.take (l.taken + (l.inFlight.take n).length)) _
      rw [hmore]
      exact h.given.receive h.quiet (.inl rfl)
  | pause =>
    cases hs
    have hnone := h.given.receive (d := []) h.quiet (.inr ⟨rfl, rfl⟩)
    rw [List.append_nil] at hnone
    exact ⟨h.flow, h.queued, h.taken, h.reads, hnone⟩
  | read =>
    cases hs
    exact ⟨h.flow, h.queued, h.taken, h.reads, h.given.call h.quiet⟩

theorem opened_linked (h : l.Opened m) : Linked handle m l := by
  obtain ⟨hsent, htaken⟩ := h.nothing
  refine ⟨fresh_flow h.writer, ?_, ?_, h.reads, ?_⟩
  · rw [hsent, h.writer.records.1]
    rfl
  · rw [htaken]
    exact Nat.zero_le _
  · rw [htaken, h.reader, List.take_zero]
    exact .going _ (begin_tracks m []) (begin_rests h.reads).1 (begin_zeroOpen m) trivial rfl

/-- The packets that are handed on are the first of those that were queued, up to a DISCONNECT, in their order,
    whole and once. When `packet__read` has been called often enough, and still reads, they are those that have
    come out whole; and if all has come out, they are all. -/
structure Fifo (handle : Handle) (l : Link) : Prop where
  first : l.reader.handed <+: (untilDisconnect l.sent).map Frame.content
  whole : ∀ n > weight l.reader.sock, (l.reader.calls handle n).alive = true →
    (l.reader.calls handle n).handed = (Stream.complete Frame.bytes l.taken (untilDisconnect l.sent)).map
      Frame.content
  all : ∀ n > weight l.reader.sock, (l.reader.calls handle n).alive = true →
    l.taken = (Stream.wire Frame.bytes (untilDisconnect l.sent)).length →
      (l.reader.calls handle n).handed = (untilDisconnect l.sent).map Frame.content

/-- Whatever the threads at the two ends do, and however the bytes come out. -/
theorem link_fifo (h : Machine.Reach (Link.step handle) (Link.Opened m) Machine.anyAct l) : Fifo handle l := by
  have hl : Linked handle m l := h.inv (fun _ => opened_linked) (fun _ _ _ hi _ hs => step_linked hi hs)
  have hpre := (List.take_prefix l.taken _).trans hl.bytes
  have hlen : (l.writer.accepted.take l.taken).length = l.taken := List.length_take_of_le hl.taken
  have hscan := (scan_decodes handle).complete (begin_rests hl.reads) hpre
  rw [hlen] at hscan
  have hfirst : (scan handle (Scan.begin m) (l.writer.accepted.take l.taken)).handed <+:
      (untilDisconnect l.sent).map Frame.content := by
    have hcomplete := Stream.complete_comesFirst Frame.bytes l.taken (untilDisconnect l.sent)
    rcases hscan with he | ⟨-, k, he⟩
    · exact he.trans (List.nil_append _) ▸ hcomplete.map _
    · exact he.trans (List.nil_append _) ▸ ((List.take_prefix ..).trans hcomplete).map _
  have hwhole (n : Nat) (hn : n > weight l.reader.sock) (ha : (l.reader.calls handle n).alive = true) :
      (l.reader.calls handle n).handed =
        (Stream.complete Frame.bytes l.taken (untilDisconnect l.sent)).map Frame.content := by
    obtain ⟨hhanded, hlive⟩ := hl.given.settled hl.quiet hn ha
    rcases hscan with he | ⟨hoff, -⟩
    · exact hhanded.trans (he.trans (List.nil_append _))
    · exact absurd (hlive.symm.trans hoff) (by simp)
  refine ⟨hl.given.handed.trans hfirst, hwhole, fun n hn ha hall => ?_⟩
  rw [hwhole n hn ha, hall, Stream.complete_all]

end Runs

def pingreqFrame : Frame := ⟨0xC0, 0, [], by decide, by decide⟩

def publishFrame : Frame := ⟨0x30, 5, [0x00, 0x01, 0x74], by decide, by decide⟩

/-- Nothing is queued yet, and the other side is there. -/
def freshLink : Link := ⟨freshWriter, Reader.begin connectedClient [], [], 0⟩

/-- Two packets are written in three pieces, and come out in three others. -/
def inThreePieces : List LinkEv := [.queue 9 pingreqFrame, .queue 4 publishFrame, .write .arrive,
  .write (.enter false),
  .write (.write (.accepted 2)), .write .advance, .arrive 1, .read, .write (.write (.accepted 1)), .pause,
    .read, .arrive 2,
  .write (.write (.accepted 4)), .read, .read, .arrive 9]

theorem link_fifo_inThreePieces : ∃ l : Link, Fifo accepts l ∧
    (l.reader.handed, l.taken, (l.reader.calls accepts 6).handed) =
      ([(0xC0, [])], 7, [(0xC0, []), (0x30, [0x00, 0x01, 0x74])]) := by
  have hr : (Machine.run (Link.step accepts) freshLink inThreePieces).map
      (fun l => (l.reader.handed, l.taken, (l.reader.calls accepts 6).handed)) =
        some ([(0xC0, [])], 7, [(0xC0, []), (0x30, [0x00, 0x01, 0x74])]) := by decide
  have ho : Link.Opened connectedClient freshLink :=
    ⟨⟨fun _ => rfl, rfl, rfl, rfl, rfl, rfl, rfl, rfl⟩, rfl, by decide, rfl, rfl⟩
  obtain ⟨l, hl, hd⟩ := Machine.reach_of_map_any (Link.Opened connectedClient) ho hr
  exact ⟨l, link_fifo hl, hd⟩

end Artemisia.Wire
