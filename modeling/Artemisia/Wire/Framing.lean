/-
  Artemisia.Wire.Framing — does what `packet__read` hands on depend on how the stream is cut?

  What the stream says is read byte by byte first, with the place in a packet as a value of its own
  (`Scan`). It does not know about calls. `packet__read` keeps the place in the fields of `in_packet`, where a
  command byte of zero says that there is none yet.

  Proved:
  - `call_scan`:           a call of `packet__read` that does not begin inside a packet with a command byte of
                           zero goes on where the scan stands.
  - `framing_unchunked`:   so what is handed on, and the error at the end, are those of the whole stream, if no
                           call ends inside such a packet.
  - `zero_command_resumed`: a packet that begins with a zero byte is taken up again with another byte for
                            its command.
-/
import Artemisia.Wire.Packet

namespace Artemisia.Wire

open Artemisia.Property Artemisia.Client

/-! ## The stream, byte by byte -/

inductive Place where
  | start
  /-- So many digits of the remaining length have been read; the next one counts `mult`. -/
  | length (command : UInt8) (digits mult value : Nat)
  | body (command : UInt8) (todo : Nat) (payload : Bytes)
  deriving DecidableEq

/-- What a byte makes of it. -/
inductive Taken where
  | place (p : Place)
  | whole (command : UInt8) (body : Bytes)
  | malformed

def takeByte : Place → UInt8 → Taken
  | .start, byte => .place (.length byte 0 1 0)
  | .length command digits mult value, byte =>
    if digits + 1 > 4 then .malformed
    else
      let value := value + (byte &&& 127).toNat * mult
      if byte &&& 128 ≠ 0 then .place (.length command (digits + 1) (mult * 128) value)
      else if value > 0 then .place (.body command value [])
      else .whole command []
  | .body command todo payload, byte =>
    if todo > 1 then .place (.body command (todo - 1) (payload ++ [byte])) else .whole command (payload ++ [byte])

/-- How a connection that ends here is reported. -/
def endRc : Place → Arrival → Rc
  | .body .., .reset => .connLost
  | .body .., _ => .errno
  | _, .failed => .errno
  | _, _ => .connLost

/-- `handle__packet`. -/
abbrev Handle := Mosq → UInt8 → Bytes → Mosq × Rc

/-- How far the stream has been read: the packets that were handed on, and the error, if there was one. -/
structure Scan where
  m : Mosq
  place : Place
  handed : List (UInt8 × Bytes)
  stop : Option Rc

def Scan.begin (m : Mosq) : Scan := ⟨m, .start, [], none⟩

def reading (m : Mosq) : Bool := m.sock ≠ none ∧ m.state ≠ .connectPending

def Scan.live (s : Scan) : Bool := s.stop = none ∧ reading s.m

variable (handle : Handle)

/-- A packet is handed on. -/
def Scan.deliver (s : Scan) (command : UInt8) (body : Bytes) : Scan where
  m := (handle s.m command body).1
  place := .start
  handed := s.handed ++ [(command, body)]
  stop := if (handle s.m command body).2 = .success then none else some (handle s.m command body).2

def scanByte (s : Scan) (byte : UInt8) : Scan :=
  if s.live then
    match takeByte s.place byte with
    | .place p => { s with place := p }
    | .whole command body => s.deliver handle command body
    | .malformed => { s with stop := some .protocol }
  else s

def scan (s : Scan) (bytes : Bytes) : Scan := bytes.foldl (scanByte handle) s

def scanArrival (s : Scan) : Arrival → Scan
  | .data bytes => scan handle s bytes
  | .again => s
  | a => if s.live then { s with stop := some (endRc s.place a) } else s

def scanAll (s : Scan) (sock : List Arrival) : Scan := sock.foldl (scanArrival handle) s

/-- What is handed on, and the error at the end. -/
def Scan.result (s : Scan) : List (UInt8 × Bytes) × Option Rc :=
  (s.handed, if s.stop = none ∧ s.m.sock = none then some .noConn else s.stop)

/-! ## The calls of `packet__read` -/

/-- The network loop, with what is handed on and the first error. -/
structure Reader where
  m : Mosq
  buffer : InBuffer
  sock : List Arrival
  handed : List (UInt8 × Bytes)
  stop : Option Rc

def Reader.begin (m : Mosq) (sock : List Arrival) : Reader := ⟨m, .idle, sock, [], none⟩

def Reader.call (r : Reader) : Reader :=
  if r.stop ≠ none then r
  else match packetRead r.m r.buffer r.sock with
    | (buffer, sock, .blocked) => { r with buffer := buffer, sock := sock }
    | (buffer, sock, .failed rc) => { r with buffer := buffer, sock := sock, stop := some rc }
    | (buffer, sock, .whole command body) =>
      { m := (handle r.m command body).1
        buffer := buffer
        sock := sock
        handed := r.handed ++ [(command, body)]
        stop := if (handle r.m command body).2 = .success then none else some (handle r.m command body).2 }

def Reader.calls : Nat → Reader → Reader
  | 0, r => r
  | n + 1, r => Reader.calls n (r.call handle)

def Reader.result (r : Reader) : List (UInt8 × Bytes) × Option Rc := (r.handed, r.stop)

/-! ## The condition -/

/-- There is nothing to read for the moment. -/
def pauses : Arrival → Bool
  | .again | .data [] => true
  | _ => false

/-- A packet is open whose command byte is zero. -/
def Scan.zeroOpen (s : Scan) : Bool :=
  s.live && match s.place with
    | .start => false
    | .length command .. => command = 0
    | .body command .. => command = 0

/-- The stream never pauses inside a packet with a command byte of zero. -/
def Unsplit (s : Scan) : List Arrival → Prop
  | [] => True
  | a :: rest => (pauses a = true → s.zeroOpen = false) ∧ Unsplit (scanArrival handle s a) rest

instance decUnsplit (s : Scan) : (sock : List Arrival) → Decidable (Unsplit handle s sock)
  | [] => inferInstanceAs (Decidable True)
  | a :: rest =>
    have := decUnsplit (scanArrival handle s a) rest
    inferInstanceAs (Decidable (_ ∧ _))

/-- How many calls take all of it, at most. -/
def weight : List Arrival → Nat
  | [] => 0
  | .data bytes :: rest => bytes.length + 1 + weight rest
  | _ :: rest => 1 + weight rest

/-! ## The scan does not know of the pieces -/

section Scans

variable {handle} {s : Scan} {sock : List Arrival}

theorem scanByte_off (h : s.live = false) (byte : UInt8) : scanByte handle s byte = s := by
  rw [scanByte, h]
  rfl

theorem scan_off (h : s.live = false) (bytes : Bytes) : scan handle s bytes = s := by
  induction bytes with
  | nil => rfl
  | cons byte bytes ih =>
    rw [scan, List.foldl_cons, scanByte_off h]
    exact ih

theorem scanAll_off (h : s.live = false) (sock : List Arrival) : scanAll handle s sock = s := by
  induction sock with
  | nil => rfl
  | cons a sock ih =>
    have ha : scanArrival handle s a = s := by
      cases a with
      | data bytes => exact scan_off h bytes
      | again => rfl
      | _ => simp [scanArrival, h]
    rw [scanAll, List.foldl_cons, ha]
    exact ih

theorem scanByte_place {byte : UInt8} {p : Place} (hs : s.live = true) (h : takeByte s.place byte = .place p) :
    scanByte handle s byte = { s with place := p } := by
  simp only [scanByte, hs, h, if_true]

theorem scanByte_whole {byte command : UInt8} {body : Bytes} (hs : s.live = true)
    (h : takeByte s.place byte = .whole command body) :
    scanByte handle s byte = s.deliver handle command body := by
  simp only [scanByte, hs, h, if_true]

theorem scanByte_malformed {byte : UInt8} (hs : s.live = true) (h : takeByte s.place byte = .malformed) :
    scanByte handle s byte = { s with stop := some .protocol } := by
  simp only [scanByte, hs, h, if_true]

theorem scan_append (s : Scan) (l l' : Bytes) : scan handle s (l ++ l') = scan handle (scan handle s l) l' :=
  List.foldl_append

theorem scanAll_append (s : Scan) (l l' : List Arrival) :
    scanAll handle s (l ++ l') = scanAll handle (scanAll handle s l) l' := List.foldl_append

theorem scanAll_cons (s : Scan) (a : Arrival) (l : List Arrival) :
    scanAll handle s (a :: l) = scanAll handle (scanArrival handle s a) l := rfl

/-- In however many pieces it comes, and with whatever pauses. -/
theorem scanAll_steady (s : Scan) (h : Steady sock) : scanAll handle s sock = scan handle s (arriving sock) := by
  induction sock generalizing s with
  | nil => rfl
  | cons a sock ih =>
    have hrest : Steady sock := fun x hx => h x (List.mem_cons_of_mem _ hx)
    rw [scanAll_cons, ih _ hrest]
    rcases h a (List.mem_cons_self ..) with rfl | ⟨bytes, rfl⟩
    · rfl
    · exact (scan_append s bytes (arriving sock)).symm

end Scans

/-! ## A read of the socket -/

/-- The scan goes on from there as it goes on from here. -/
structure Leads (s : Scan) (sock : List Arrival) (s' : Scan) (sock' : List Arrival) : Prop where
  same : scanAll handle s' sock' = scanAll handle s sock
  unsplit : Unsplit handle s sock → Unsplit handle s' sock'
  less : weight sock' ≤ weight sock

section Reads

variable {handle} {s s1 s2 : Scan} {sock sock1 sock2 : List Arrival}

theorem Leads.refl : Leads handle s sock s sock := ⟨rfl, id, Nat.le_refl _⟩

theorem Leads.trans (h : Leads handle s sock s1 sock1) (h' : Leads handle s1 sock1 s2 sock2) :
    Leads handle s sock s2 sock2 :=
  ⟨h'.same.trans h.same, h'.unsplit ∘ h.unsplit, h'.less.trans h.less⟩

/-- What `net__read` gives, and where it leads. -/
inductive Reads (handle : Handle) (count : Nat) (s : Scan) (sock : List Arrival) : Arrival →
    List Arrival → Prop where
  | data (d : Bytes) (sock' : List Arrival) : d ≠ [] → d.length ≤ count →
      Leads handle s sock (scan handle s d) sock' →
      weight sock' < weight sock → Reads handle count s sock (.data d) sock'
  | again (sock' : List Arrival) : Leads handle s sock s sock' →
      (Unsplit handle s sock → s.zeroOpen = false ∨ sock' = []) → (sock ≠ [] → weight sock' < weight sock) →
      Reads handle count s sock .again sock'
  | ends (a : Arrival) (sock' : List Arrival) : (a = .closed ∨ a = .reset ∨ a = .failed) →
      Leads handle s sock (scanArrival handle s a) sock' → weight sock' < weight sock →
        Reads handle count s sock a sock'

theorem netRead_reads {count : Nat} (hc : 0 < count) (s : Scan) (sock : List Arrival) :
    Reads handle count s sock (netRead count sock).1 (netRead count sock).2 := by
  cases sock with
  | nil => exact .again [] .refl (fun _ => .inr rfl) (fun h => absurd rfl h)
  | cons a rest =>
    have hless : weight rest < weight (a :: rest) := by
      cases a <;> simp only [weight] <;> omega
    have hleads : Leads handle s (a :: rest) (scanArrival handle s a) rest := ⟨rfl, fun h => h.2, hless.le⟩
    cases a with
    | data bytes =>
      by_cases hb : bytes = []
      · subst hb
        exact .again rest hleads (fun h => .inl (h.1 rfl)) (fun _ => hless)
      by_cases hl : bytes.length ≤ count
      · simp only [netRead, if_neg hb, if_pos hl]
        exact .data bytes rest hb hl hleads hless
      · simp only [netRead, if_neg hb, if_neg hl]
        have hcat : scan handle (scan handle s (bytes.take count)) (bytes.drop count) = scan handle s bytes := by
          rw [← scan_append, List.take_append_drop]
        obtain ⟨x, t, hx⟩ : ∃ x t, bytes.drop count = x :: t := by
          refine List.exists_cons_of_ne_nil fun h => hl ?_
          exact List.drop_eq_nil_iff.mp h
        have hlen : (bytes.drop count).length = bytes.length - count := List.length_drop
        have htake : (bytes.take count).length = count := List.length_take_of_le (by omega)
        have hlt : weight (.data (bytes.drop count) :: rest) < weight (.data bytes :: rest) := by
          simp only [weight]
          omega
        refine .data _ _ (fun h => ?_) htake.le ⟨?_, fun h => ⟨fun hp => ?_, ?_⟩, hlt.le⟩ hlt
        · rw [h] at htake
          simp at htake
          omega
        · rw [scanAll_cons, scanAll_cons, scanArrival, scanArrival, hcat]
        · rw [hx] at hp
          cases hp
        · rw [scanArrival, hcat]
          exact h.2
    | again => exact .again rest hleads (fun h => .inl (h.1 rfl)) (fun _ => hless)
    | closed => exact .ends .closed rest (.inl rfl) hleads hless
    | reset => exact .ends .reset rest (.inr (.inl rfl)) hleads hless
    | failed => exact .ends .failed rest (.inr (.inr rfl)) hleads hless

end Reads

/-! ## The pieces of a call -/

/-- What the fields of `in_packet` are at a place. -/
inductive Holds : Place → InBuffer → Prop where
  | start : Holds .start .idle
  | length (command : UInt8) (digits mult value : Nat) : digits ≤ 4 →
      Holds (.length command digits mult value) ⟨command, -digits, mult, value, 0, []⟩
  | body (command : UInt8) (todo : Nat) (payload : Bytes) (count : Int) (mult value : Nat) :
      0 < count → 0 < todo →
      Holds (.body command todo payload) ⟨command, count, mult, value, todo, payload⟩

/-- A call that comes to its end before the packet does. -/
inductive Stops (s : Scan) (sock : List Arrival) (b : InBuffer) (sock' : List Arrival) : ReadStop → Prop where
  | blocked (p : Place) : Holds p b → Leads handle s sock { s with place := p } sock' →
      (Unsplit handle s sock → { s with place := p }.zeroOpen = false ∨ sock' = []) →
      (sock ≠ [] → weight sock' < weight sock) → Stops s sock b sock' .blocked
  | failed (p : Place) (rc : Rc) : Leads handle s sock { s with place := p, stop := some rc } sock' →
      (sock ≠ [] → weight sock' < weight sock) → Stops s sock b sock' (.failed rc)

section Pieces

variable {handle} {s : Scan} {sock sock1 sock' : List Arrival}

theorem weight_pos (h : sock ≠ []) : 0 < weight sock := by
  cases sock with
  | nil => exact absurd rfl h
  | cons a rest => cases a <;> simp only [weight] <;> omega

theorem Stops.after {p : Place} {b : InBuffer} {stop : ReadStop}
    (hl : Leads handle s sock { s with place := p } sock1)
    (h : Stops handle { s with place := p } sock1 b sock' stop) : Stops handle s sock b sock' stop := by
  have hless (h1 : sock1 ≠ [] → weight sock' < weight sock1) (h2 : weight sock' ≤ weight sock1)
      (hne : sock ≠ []) :
      weight sock' < weight sock := by
    by_cases h0 : sock1 = []
    · have := weight_pos hne
      rw [h0, weight] at h2
      omega
    · exact (h1 h0).trans_le hl.less
  cases h with
  | blocked q hq hl' hu hw => exact .blocked q hq (hl.trans hl') (hu ∘ hl.unsplit) (hless hw hl'.less)
  | failed q rc hl' hw => exact .failed q rc (hl.trans hl') (hless hw hl'.less)

/-- A byte that is awaited in the header does not come. -/
theorem stops_header {p : Place} {b : InBuffer} {a : Arrival} (hs : s.live = true) (hp : s.place = p)
    (hb : Holds p b)
    (hbody : ∀ c n l, p ≠ .body c n l) (h : Reads handle 1 s sock a sock') (ha : ∀ d, a ≠ .data d) :
    Stops handle s sock b sock' (headerStop a) := by
  have hsame : { s with place := p } = s := by
    subst hp
    rfl
  cases h with
  | data d => exact absurd rfl (ha d)
  | again _ hl hu hw => exact .blocked p hb (by rw [hsame]; exact hl) (by rw [hsame]; exact hu) hw
  | ends _ _ hor hl hw =>
    have hrc : scanArrival handle s a = { s with place := p, stop := some (endRc p a) } := by
      subst hp
      rcases hor with rfl | rfl | rfl <;> simp [scanArrival, hs]
    have hstop : headerStop a = .failed (endRc p a) := by
      rcases hor with rfl | rfl | rfl <;> cases p <;> first | rfl | exact absurd rfl (hbody _ _ _)
    rw [hrc] at hl
    rw [hstop]
    exact .failed p _ hl (fun _ => hw)

theorem stops_body {c : UInt8} {n : Nat} {l : Bytes} {b : InBuffer} {a : Arrival} {count : Nat}
    (hs : s.live = true)
    (hp : s.place = .body c n l) (hb : Holds (.body c n l) b) (h : Reads handle count s sock a sock')
    (ha : ∀ d, a ≠ .data d) :
    Stops handle s sock b sock' (bodyStop a) := by
  have hsame : { s with place := .body c n l } = s := by
    rw [← hp]
  cases h with
  | data d => exact absurd rfl (ha d)
  | again _ hl hu hw => exact .blocked _ hb (by rw [hsame]; exact hl) (by rw [hsame]; exact hu) hw
  | ends _ _ hor hl hw =>
    have hrc : scanArrival handle s a = { s with place := .body c n l,
                                                 stop := some (endRc (.body c n l) a) } := by
      rw [← hp]
      rcases hor with rfl | rfl | rfl <;> simp [scanArrival, hs]
    have hstop : bodyStop a = .failed (endRc (.body c n l) a) := by
      rcases hor with rfl | rfl | rfl <;> rfl
    rw [hrc] at hl
    rw [hstop]
    exact .failed _ _ hl (fun _ => hw)

/-- One byte of the header. -/
theorem reads_one {a : Arrival} (h : Reads handle 1 s sock a sock') :
    (∃ byte, a = .data [byte] ∧ Leads handle s sock (scanByte handle s byte) sock' ∧ weight sock' < weight sock) ∨
      ∀ d, a ≠ .data d := by
  cases h with
  | data d _ hne hlen hl hw =>
    obtain ⟨x, rfl⟩ : ∃ x, d = [x] := by
      rcases d with _ | ⟨x, _ | ⟨y, d⟩⟩
      · exact absurd rfl hne
      · exact ⟨x, rfl⟩
      · simp at hlen
    exact .inl ⟨x, rfl, hl, hw⟩
  | again => exact .inr fun d => by simp
  | ends _ _ hor =>
    right
    rcases hor with rfl | rfl | rfl <;> simp

/-- The place when the remaining length is known. -/
def filled (handle : Handle) (s : Scan) (command : UInt8) (len : Nat) : Scan :=
  if len > 0 then { s with place := .body command len [] } else s.deliver handle command []

/-- The loop over the length stops, or has all digits. -/
theorem readLengthLoop_scan {fuel digits mult value : Nat} {c : UInt8} (hs : s.live = true)
    (hp : s.place = .length c digits mult value) (hd : digits ≤ 4) (hf : 5 ≤ fuel + digits) :
    let r := readLengthLoop fuel ⟨c, -digits, mult, value, 0, []⟩ sock
    (∃ stop, r.2.2 = some stop ∧ Stops handle s sock r.1 r.2.1 stop) ∨
      (r.2.2 = none ∧ (∃ (n : Int) (mult' len : Nat), 0 < n ∧ r.1 = ⟨c, -n, mult', len, 0, []⟩ ∧
        Leads handle s sock (filled handle s c len) r.2.1) ∧ weight r.2.1 < weight sock) := by
  induction fuel generalizing s sock digits mult value with
  | zero => omega
  | succ fuel ih =>
    have hread : Reads handle 1 s sock _ _ := netRead_reads Nat.one_pos s sock
    unfold readLengthLoop
    generalize netRead 1 sock = r at hread
    obtain ⟨a, sock1⟩ := r
    rcases reads_one hread with ⟨byte, ha, hl, hw⟩ | hnone
    · dsimp only at ha
      subst ha
      dsimp only at hl hw ⊢
      by_cases hmany : digits + 1 > 4
      · have hcount : -(digits : Int) - 1 < -4 := by omega
        have htake : takeByte s.place byte = .malformed := by simp only [hp, takeByte, if_pos hmany]
        rw [scanByte_malformed hs htake] at hl
        rw [if_pos hcount]
        exact .inl ⟨_, rfl, .failed s.place _ hl (fun _ => hw)⟩
      · have hcount : ¬ -(digits : Int) - 1 < -4 := by omega
        have hneg : -(digits : Int) - 1 = -((digits + 1 : Nat) : Int) := by omega
        rw [if_neg hcount]
        by_cases hmore : byte &&& 128 ≠ 0
        · have htake : takeByte s.place byte =
              .place (.length c (digits + 1) (mult * 128) (value + (byte &&& 127).toNat * mult)) := by
            simp only [hp, takeByte, if_neg hmany, if_pos hmore]
          rw [if_pos hmore, hneg]
          rw [scanByte_place hs htake] at hl
          have hnext := @ih { s with place := .length c (digits + 1) (mult * 128) (value +
                                       (byte &&& 127).toNat * mult) }
            sock1 (digits + 1) _ _ hs rfl (by omega) (by omega)
          rcases hnext with ⟨stop, hstop, h⟩ | ⟨hstop, ⟨n, mult', len, hn, hb, h⟩, hw'⟩
          · exact .inl ⟨stop, hstop, h.after hl⟩
          · exact .inr ⟨hstop, ⟨n, mult', len, hn, hb, hl.trans h⟩, hw'.trans hw⟩
        · have hscan : scanByte handle s byte = filled handle s c (value + (byte &&& 127).toNat * mult) := by
            unfold filled
            split
            · rename_i hlen
              exact scanByte_place hs (by simp only [hp, takeByte, if_neg hmany, if_neg hmore, if_pos hlen])
            · rename_i hlen
              exact scanByte_whole hs (by simp only [hp, takeByte, if_neg hmany, if_neg hmore, if_neg hlen])
          rw [if_neg hmore, hneg]
          rw [hscan] at hl
          exact .inr ⟨rfl, ⟨_, _, _, by omega, rfl, hl⟩, hw⟩
    · have hstops := stops_header hs hp (.length c digits mult value hd) (by simp) hread hnone
      cases a with
      | data d => exact absurd rfl (hnone d)
      | _ => exact .inl ⟨_, rfl, hstops⟩

/-- The bytes of the body as they come. -/
theorem scan_body {c : UInt8} {n : Nat} {l d : Bytes} (hs : s.live = true) (hp : s.place = .body c n l)
    (hd : d ≠ [])
    (hlen : d.length ≤ n) : scan handle s d =
      if d.length < n then { s with place := .body c (n - d.length) (l ++ d) }
      else s.deliver handle c (l ++ d) := by
  induction d generalizing s n l with
  | nil => exact absurd rfl hd
  | cons byte d ih =>
    rw [List.length_cons] at hlen
    rw [scan, List.foldl_cons, ← scan]
    cases d with
    | nil =>
      show scanByte handle s byte = _
      by_cases hn : n > 1
      · have htake : takeByte s.place byte = .place (.body c (n - 1) (l ++ [byte])) := by
          simp only [hp, takeByte, if_pos hn]
        rw [scanByte_place hs htake, if_pos (by simpa using hn)]
        rfl
      · have htake : takeByte s.place byte = .whole c (l ++ [byte]) := by simp only [hp, takeByte, if_neg hn]
        rw [scanByte_whole hs htake, if_neg (by simpa using hn)]
    | cons x d =>
      rw [List.length_cons] at hlen
      have hn : n > 1 := by omega
      have htake : takeByte s.place byte = .place (.body c (n - 1) (l ++ [byte])) := by
        simp only [hp, takeByte, if_pos hn]
      rw [scanByte_place hs htake]
      rw [@ih { s with place := .body c (n - 1) (l ++ [byte]) } (n - 1) (l ++ [byte]) hs rfl
        (List.cons_ne_nil x d)
        (by rw [List.length_cons]; omega)]
      have hlt : (x :: d).length < n - 1 ↔ (byte :: x :: d).length < n := by
        simp only [List.length_cons]
        omega
      have hsub : n - 1 - (x :: d).length = n - (byte :: x :: d).length := by
        simp only [List.length_cons]
        omega
      simp only [hlt, hsub, List.append_assoc, List.singleton_append]
      rfl

/-- The loop over the body stops, or has all of it. -/
theorem readBody_scan {fuel n : Nat} {c : UInt8} {l : Bytes} {b : InBuffer} (hs : s.live = true)
    (hp : s.place = .body c n l) (hb : Holds (.body c n l) b) (hf : n ≤ fuel) :
    let r := readBody fuel b sock
    (∃ stop, r.2.2 = some stop ∧ Stops handle s sock r.1 r.2.1 stop) ∨
      (r.2.2 = none ∧ r.1.command = c ∧ Leads handle s sock (s.deliver handle c r.1.payload) r.2.1 ∧
        weight r.2.1 < weight sock) := by
  induction fuel generalizing s sock n l b with
  | zero =>
    cases hb
    omega
  | succ fuel ih =>
    cases hb with
    | body _ _ _ count mult value hcount htodo =>
      have hread : Reads handle _ s sock _ _ := netRead_reads htodo s sock
      unfold readBody
      rw [if_neg htodo.ne']
      dsimp only
      generalize netRead n sock = r at hread
      obtain ⟨a, sock1⟩ := r
      cases a with
      | data d =>
        cases hread with
        | data _ _ hne hlen hl hw =>
          rw [scan_body hs hp hne hlen] at hl
          dsimp only
          split at hl
          · rename_i hlt
            have hnext := @ih { s with place := .body c (n - d.length) (l ++ d) } sock1 _ _
              ⟨c, count, mult, value, n - d.length, l ++ d⟩ hs rfl (.body _ _ _ _ _ _ hcount (by omega))
              (by have := List.length_pos_iff.mpr hne; omega)
            rcases hnext with ⟨stop, hstop, h⟩ | ⟨hstop, hc, h, hw'⟩
            · exact .inl ⟨stop, hstop, h.after hl⟩
            · exact .inr ⟨hstop, hc, hl.trans h, hw'.trans hw⟩
          · rename_i hge
            have hzero : n - d.length = 0 := by omega
            rw [hzero, readBody_done rfl]
            exact .inr ⟨rfl, rfl, hl, hw⟩
        | ends _ _ hor => simp at hor
      | _ => exact .inl ⟨_, rfl, stops_body hs hp (.body _ _ _ _ _ _ hcount htodo) hread (fun d => by simp)⟩

/-- A packet is taken up where it was left, unless its command byte is zero. -/
theorem readCommand_scan {b : InBuffer} (hs : s.live = true) (hb : Holds s.place b) (hz : s.zeroOpen = false) :
    let r := readCommand b sock
    (∃ stop, r.2.2 = some stop ∧ Stops handle s sock r.1 r.2.1 stop) ∨
      (r.2.2 = none ∧ ∃ p, p ≠ .start ∧ Holds p r.1 ∧ Leads handle s sock { s with place := p } r.2.1) := by
  unfold readCommand
  generalize hp : s.place = p at hb
  cases hb with
  | start =>
    rw [if_neg (by simp [InBuffer.idle])]
    have hread : Reads handle 1 s sock _ _ := netRead_reads Nat.one_pos s sock
    generalize netRead 1 sock = r at hread
    obtain ⟨a, sock1⟩ := r
    rcases reads_one hread with ⟨byte, ha, hl, hw⟩ | hnone
    · dsimp only at ha
      subst ha
      have htake : takeByte s.place byte = .place (.length byte 0 1 0) := by rw [hp]; rfl
      rw [scanByte_place hs htake] at hl
      exact .inr ⟨rfl, _, by simp, .length byte 0 1 0 (by omega), hl⟩
    · have hstops := stops_header hs hp .start (by simp) hread hnone
      cases a with
      | data d => exact absurd rfl (hnone d)
      | _ => exact .inl ⟨_, rfl, hstops⟩
  | length c digits mult value hd =>
    have hc : c ≠ 0 := by simpa [Scan.zeroOpen, hs, hp] using hz
    rw [if_pos hc]
    refine .inr ⟨rfl, _, by simp, .length c digits mult value hd, ?_⟩
    rw [← hp]
    exact .refl
  | body c todo payload count mult value hcount htodo =>
    have hc : c ≠ 0 := by simpa [Scan.zeroOpen, hs, hp] using hz
    rw [if_pos hc]
    refine .inr ⟨rfl, _, by simp, .body c todo payload count mult value hcount htodo, ?_⟩
    rw [← hp]
    exact .refl

/-- The header is read, and the body comes next or there is none. -/
theorem readLength_scan {b : InBuffer} (hs : s.live = true) (hb : Holds s.place b) (hp : s.place ≠ .start) :
    let r := readLength b sock
    (∃ stop, r.2.2 = some stop ∧ Stops handle s sock r.1 r.2.1 stop) ∨
      (r.2.2 = none ∧ ∃ c n l, Holds (.body c n l) r.1 ∧
        Leads handle s sock { s with place := .body c n l } r.2.1) ∨
      (r.2.2 = none ∧ ∃ c, r.1.command = c ∧ r.1.toProcess = 0 ∧ r.1.payload = [] ∧
        Leads handle s sock (s.deliver handle c []) r.2.1 ∧ weight r.2.1 < weight sock) := by
  unfold readLength
  generalize hp' : s.place = p at hb
  cases hb with
  | start => exact absurd hp' hp
  | length c digits mult value hd =>
    have hcount : -(digits : Int) ≤ 0 := by omega
    have hloop := @readLengthLoop_scan handle s sock 5 digits mult value c hs hp' hd (by omega)
    rw [if_pos hcount]
    generalize readLengthLoop 5 ⟨c, -digits, mult, value, 0, []⟩ sock = r at hloop
    obtain ⟨b1, sock1, stop1⟩ := r
    rcases hloop with ⟨stop, rfl, h⟩ | ⟨rfl, ⟨n, mult', len, hn, rfl, h⟩, hw⟩
    · exact .inl ⟨stop, rfl, h⟩
    · right
      unfold filled at h
      dsimp only at h hw ⊢
      have hpos : 0 < - -n := by omega
      by_cases hlen : len > 0
      · rw [if_pos hlen] at h
        rw [if_pos hlen]
        exact .inl ⟨rfl, c, len, [], .body c len [] _ mult' len hpos hlen, h⟩
      · rw [if_neg hlen] at h
        rw [if_neg hlen]
        exact .inr ⟨rfl, c, rfl, rfl, rfl, h, hw⟩
  | body c todo payload count mult value hcount htodo =>
    rw [if_neg (show ¬ count ≤ 0 by omega)]
    refine .inr (.inl ⟨rfl, c, todo, payload, .body c todo payload count mult value hcount htodo, ?_⟩)
    rw [← hp']
    exact .refl

/-- A call of `packet__read` stops, or it has a packet to hand on. -/
theorem packetRead_scan {b : InBuffer} (hs : s.live = true) (hb : Holds s.place b) (hz : s.zeroOpen = false) :
    let r := packetRead s.m b sock
    Stops handle s sock r.1 r.2.1 r.2.2 ∨
      (∃ c body, r.2.2 = .whole c body ∧ r.1 = .idle ∧ Leads handle s sock (s.deliver handle c body) r.2.1 ∧
        weight r.2.1 < weight sock) := by
  have hread : s.m.sock ≠ none ∧ s.m.state ≠ .connectPending := by
    have : reading s.m = true := (of_decide_eq_true hs).2
    exact of_decide_eq_true this
  unfold packetRead
  rw [if_neg hread.1, if_neg hread.2]
  have h1 := @readCommand_scan handle s sock b hs hb hz
  generalize readCommand b sock = r1 at h1
  obtain ⟨b1, sock1, stop1⟩ := r1
  rcases h1 with ⟨stop, rfl, h⟩ | ⟨rfl, p, hp, hb1, hl1⟩
  · exact .inl h
  dsimp only at hb1 hl1 ⊢
  have h2 := @readLength_scan handle { s with place := p } sock1 b1 hs hb1 hp
  generalize readLength b1 sock1 = r2 at h2
  obtain ⟨b2, sock2, stop2⟩ := r2
  rcases h2 with ⟨stop, rfl, h⟩ | ⟨rfl, c, n, l, hb2, hl2⟩ | ⟨rfl, c, rfl, hzero, hnil, hl2, hw2⟩
  · exact .inl (h.after hl1)
  · dsimp only at hb2 hl2 ⊢
    have hl := hl1.trans hl2
    have h3 := @readBody_scan handle { s with place := .body c n l } sock2 n n c l b2 hs rfl hb2 (Nat.le_refl n)
    have hn : b2.toProcess = n := by cases hb2; rfl
    rw [hn]
    generalize readBody n b2 sock2 = r3 at h3
    obtain ⟨b3, sock3, stop3⟩ := r3
    rcases h3 with ⟨stop, rfl, h⟩ | ⟨rfl, rfl, h, hw⟩
    · exact .inl (h.after hl)
    · exact .inr ⟨_, _, rfl, rfl, hl.trans h, hw.trans_le hl.less⟩
  · dsimp only at hzero hnil hl2 hw2 ⊢
    rw [readBody_done hzero]
    dsimp only
    rw [hnil]
    exact .inr ⟨_, _, rfl, rfl, hl1.trans hl2, hw2.trans_le hl1.less⟩

end Pieces

/-! ## Calls -/

/-- The fields of `in_packet` are those of the place that the scan has come to. -/
structure Tracks (r : Reader) (s : Scan) : Prop where
  m : r.m = s.m
  handed : r.handed = s.handed
  stop : r.stop = s.stop
  holds : Holds s.place r.buffer ∨ s.stop ≠ none

section Calls

variable {handle} {r : Reader} {s : Scan}

theorem call_scan (ht : Tracks r s) (hs : s.live = true) (hz : s.zeroOpen = false) :
    ∃ s', Tracks (r.call handle) s' ∧ Leads handle s r.sock s' (r.call handle).sock ∧
      (Unsplit handle s r.sock → s'.zeroOpen = false ∨ (r.call handle).sock = []) ∧
      (r.sock ≠ [] → weight (r.call handle).sock < weight r.sock) := by
  have hnone : s.stop = none := (of_decide_eq_true hs).1
  have hb : Holds s.place r.buffer := ht.holds.resolve_right (not_not.mpr hnone)
  have hread := @packetRead_scan handle s r.sock r.buffer hs hb hz
  unfold Reader.call
  rw [if_neg (by rw [ht.stop, hnone]; simp), ht.m]
  generalize packetRead s.m r.buffer r.sock = x at hread
  obtain ⟨b, sock, stop⟩ := x
  rcases hread with h | ⟨c, body, rfl, rfl, hl, hw⟩
  · cases h with
    | blocked p hp hl hu hw => exact ⟨{ s with place := p }, ⟨rfl, ht.handed, ht.stop, .inl hp⟩, hl, hu, hw⟩
    | failed p rc hl hw =>
      exact ⟨{ s with place := p, stop := some rc }, ⟨rfl, ht.handed, rfl, .inr (by simp)⟩, hl,
        fun _ => .inl (by simp [Scan.zeroOpen, Scan.live]), hw⟩
  · refine ⟨s.deliver handle c body, ⟨rfl, ?_, rfl, .inl .start⟩, hl,
      fun _ => .inl (by simp [Scan.zeroOpen, Scan.deliver]), fun _ => hw⟩
    show r.handed ++ _ = s.handed ++ _
    rw [ht.handed]

theorem calls_fixed (h : r.call handle = r) (n : Nat) : r.calls handle n = r := by
  induction n with
  | zero => rfl
  | succ n ih => rw [Reader.calls, h, ih]

theorem result_settled (h : s.stop = none → s.m.sock ≠ none) : s.result = (s.handed, s.stop) := by
  rw [Scan.result, if_neg fun hs => h hs.1 hs.2]

theorem call_stopped (h : r.stop ≠ none) : r.call handle = r := by
  rw [Reader.call, if_pos h]

theorem packetRead_nil {m : Mosq} {p : Place} {b : InBuffer} (hr : reading m = true) (hb : Holds p b) :
    packetRead m b [] = (b, [], .blocked) := by
  obtain ⟨hsock, hstate⟩ := of_decide_eq_true hr
  unfold packetRead
  rw [if_neg hsock, if_neg hstate]
  by_cases hc : b.command = 0
  · simp [readCommand, hc, netRead, headerStop]
  · cases hb with
    | start => exact absurd rfl hc
    | length c digits mult value hd =>
      have hcount : -(digits : Int) ≤ 0 := by omega
      simp [readCommand, readLength, readLengthLoop, hc, hcount, netRead, headerStop]
    | body c todo payload count mult value hcount htodo =>
      have hn : ¬ count ≤ 0 := by omega
      obtain ⟨k, rfl⟩ := Nat.exists_eq_succ_of_ne_zero htodo.ne'
      simp [readCommand, readLength, readBody, hc, hn, netRead, bodyStop]

/-- When nothing is left to read, or nothing is read any more, the calls have the result of the scan. -/
theorem calls_scan {n : Nat} (ht : Tracks r s) (hu : Unsplit handle s r.sock)
    (hz : s.zeroOpen = false ∨ r.sock = [])
    (hn : weight r.sock < n) : (r.calls handle n).result = (scanAll handle s r.sock).result := by
  induction n generalizing r s with
  | zero => omega
  | succ n ih =>
    by_cases hs : s.live = true
    · by_cases hnil : r.sock = []
      · have hlive := of_decide_eq_true hs
        have hb := ht.holds.resolve_right (not_not.mpr hlive.1)
        have hstop : r.stop = none := ht.stop.trans hlive.1
        have hcall : r.call handle = r := by
          unfold Reader.call
          rw [if_neg (not_not.mpr hstop), hnil, packetRead_nil (ht.m ▸ hlive.2) hb]
          dsimp only
          rw [← hnil]
        have hsock : s.m.sock ≠ none := (of_decide_eq_true hlive.2).1
        rw [calls_fixed hcall, hnil, Reader.result, ht.handed, ht.stop]
        exact (result_settled fun _ => hsock).symm
      · obtain ⟨s', ht', hl, hz', hw⟩ := call_scan ht hs (hz.resolve_right hnil)
        rw [Reader.calls, ← hl.same]
        exact ih ht' (hl.unsplit hu) (hz' hu) (by have := hw hnil; omega)
    · rw [scanAll_off (Bool.eq_false_iff.mpr hs)]
      by_cases hstop : s.stop = none
      · by_cases hsock : s.m.sock = none
        · -- the call finds that there is no socket
          have hcall : (r.call handle).stop = some .noConn ∧ (r.call handle).handed = s.handed := by
            unfold Reader.call packetRead
            rw [if_neg (not_not.mpr (ht.stop.trans hstop)), ht.m, if_pos hsock]
            exact ⟨rfl, ht.handed⟩
          have hfixed : (r.call handle).calls handle n = r.call handle :=
            calls_fixed (call_stopped (by rw [hcall.1]; simp)) n
          rw [Reader.calls, hfixed, Reader.result, hcall.1, hcall.2, Scan.result, if_pos ⟨hstop, hsock⟩]
        · have hstate : s.m.state = .connectPending := by
            by_contra hne
            exact hs (decide_eq_true ⟨hstop, decide_eq_true ⟨hsock, hne⟩⟩)
          have hcall : r.call handle = r := by
            unfold Reader.call packetRead
            rw [if_neg (not_not.mpr (ht.stop.trans hstop)), ht.m, if_neg hsock, if_pos hstate, ← ht.m]
          rw [calls_fixed hcall, Reader.result, ht.handed, ht.stop]
          exact (result_settled fun _ => hsock).symm
      · rw [calls_fixed (call_stopped (ht.stop ▸ hstop)), Reader.result, ht.handed, ht.stop]
        exact (result_settled fun h => absurd h hstop).symm

end Calls

/-! ## Streams -/

/-- The connection ends, or it stays open. -/
def Ends (tail : List Arrival) : Prop := ∀ a ∈ tail, a = .closed ∨ a = .reset ∨ a = .failed

section Streams

variable {handle} {m : Mosq} {chunks tail : List Arrival}

theorem unsplit_append {s : Scan} (ht : Ends tail) (hu : Unsplit handle s chunks) :
    Unsplit handle s (chunks ++ tail) := by
  induction chunks generalizing s with
  | nil =>
    clear hu
    induction tail generalizing s with
    | nil => trivial
    | cons a tail ih =>
      refine ⟨fun hp => ?_, ih fun x hx => ht x (List.mem_cons_of_mem _ hx)⟩
      rcases ht a (List.mem_cons_self ..) with rfl | rfl | rfl <;> cases hp
  | cons a chunks ih => exact ⟨hu.1, ih hu.2⟩

theorem begin_tracks (m : Mosq) (sock : List Arrival) : Tracks (Reader.begin m sock) (Scan.begin m) :=
  ⟨rfl, rfl, rfl, .inl .start⟩

theorem begin_zeroOpen (m : Mosq) : (Scan.begin m).zeroOpen = false := by
  simp [Scan.zeroOpen, Scan.begin]

/-- However the stream comes in pieces, and with whatever pauses that are not inside a packet that begins
    with a zero byte, what is handed on and the error at the end are those of the whole stream. -/
theorem framing_unchunked (hs : Steady chunks) (ht : Ends tail) (hu : Unsplit handle (Scan.begin m) chunks)
    {n n' : Nat}
    (hn : weight (chunks ++ tail) < n) (hn' : weight (.data (arriving chunks) :: tail) < n') :
    ((Reader.begin m (chunks ++ tail)).calls handle n).result =
      ((Reader.begin m (.data (arriving chunks) :: tail)).calls handle n').result := by
  have hone : Unsplit handle (Scan.begin m) [.data (arriving chunks)] := ⟨fun _ => begin_zeroOpen m, trivial⟩
  have hwhole : Unsplit handle (Scan.begin m) (.data (arriving chunks) :: tail) := unsplit_append ht hone
  rw [calls_scan (begin_tracks m _) (unsplit_append ht hu) (.inl (begin_zeroOpen m)) hn,
    calls_scan (begin_tracks m _) hwhole (.inl (begin_zeroOpen m)) hn']
  show (scanAll handle _ (chunks ++ tail)).result = (scanAll handle _ (.data (arriving chunks) :: tail)).result
  rw [scanAll_append, scanAll_cons, scanAll_steady _ hs]
  rfl

end Streams

/-- `handle__packet` of a client that takes every packet but one of an unknown kind. -/
def accepts : Handle := fun m command _ => (m, if command &&& 0xF0 = 0 then .protocol else .success)

def connectedClient : Mosq := (Mosq.new none true).socketOpen

/-- A PINGRESP in two pieces, and a PUBLISH in three. -/
def inPieces : List Arrival := [.data [0xD0], .again, .data [0x00, 0x30], .again, .data [0x03, 0x00], .again,
  .data [0x01, 0x74]]

theorem framing_inPieces : Unsplit accepts (Scan.begin connectedClient) inPieces ∧
    ((Reader.begin connectedClient (inPieces ++ [.closed])).calls accepts 20).result =
      ((Reader.begin connectedClient [.data [0xD0, 0x00, 0x30, 0x03, 0x00, 0x01, 0x74], .closed]).calls accepts
      20).result := by
  have hs : Steady inPieces := by
    intro a ha
    simp only [inPieces, List.mem_cons, List.not_mem_nil, or_false] at ha
    rcases ha with rfl | rfl | rfl | rfl | rfl | rfl | rfl <;> simp
  have ht : Ends [.closed] := fun a ha => .inl (List.mem_singleton.mp ha)
  have hu : Unsplit accepts (Scan.begin connectedClient) inPieces := by decide
  exact ⟨hu, framing_unchunked hs ht hu (by decide) (by decide)⟩

/-- Read at once, the zero byte begins a packet of 80 bytes. If it comes alone, what follows it is a PINGRESP. -/
theorem zero_command_resumed : ¬ ∀ (handle : Handle) (m : Mosq) (chunks tail : List Arrival) (n n' : Nat),
    Steady chunks →
    Ends tail → weight (chunks ++ tail) < n → weight (.data (arriving chunks) :: tail) < n' →
    ((Reader.begin m (chunks ++ tail)).calls handle n).result =
      ((Reader.begin m (.data (arriving chunks) :: tail)).calls handle n').result := by
  intro h
  have hs : Steady [.data [0x00], .again, .data [0xD0, 0x00]] := by
    intro a ha
    simp only [List.mem_cons, List.not_mem_nil, or_false] at ha
    rcases ha with rfl | rfl | rfl <;> simp
  have heq := h accepts connectedClient [.data [0x00], .again, .data [0xD0, 0x00]] [] 10 10 hs
      (fun _ ha => by cases ha)
    (by decide) (by decide)
  have hpieces : ((Reader.begin connectedClient [.data [0x00], .again, .data [0xD0, 0x00]]).calls accepts
      10).result =
      ([(0xD0, [])], none) := by decide
  have hwhole : ((Reader.begin connectedClient [.data [0x00, 0xD0, 0x00]]).calls accepts 10).result =
      ([], none) := by decide
  have : ([(0xD0, [])], none) = (([], none) : List (UInt8 × Bytes) × Option Rc) :=
    hpieces.symm.trans (heq.trans hwhole)
  simp at this

end Artemisia.Wire
