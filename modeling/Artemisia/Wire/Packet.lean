/-
  Artemisia.Wire.Packet — packets as bytes (`packet_mosq.c`): the header that `packet__alloc` writes, and
  `packet__read`, which takes a packet off the socket in whatever pieces it comes.

  A packet going out is the bytes written so far, so the cursor is their number. Of one coming in, `pos` is the
  number of bytes read into `payload`. Allocation is taken to succeed.

  Proved:
  - `feed_whole`: a packet that arrives in any pieces is handed on once, with its command and all of its body,
                  and nothing is taken of what follows it.
-/
import Artemisia.Client.Types
import Artemisia.Property.Writers

namespace Artemisia.Wire

open Artemisia.Property Artemisia.Client

/-! ## Going out -/

/-- The buffer of a packet going out: how long it is, and what has been written of it. -/
structure OutBuffer where
  packetLength : Nat
  written : Bytes

/-- The cursor. -/
def OutBuffer.pos (b : OutBuffer) : Nat := b.written.length

/-- `packet__alloc`. -/
def allocBuffer (command : UInt8) (remainingLength : Nat) : Except Rc OutBuffer :=
  let remainingBytes := varintDigits 5 remainingLength
  if remainingBytes.length = 5 then .error .payloadSize
  else .ok ⟨remainingLength + 1 + remainingBytes.length, command :: remainingBytes⟩

def OutBuffer.write (b : OutBuffer) (bytes : Bytes) : OutBuffer := { b with written := b.written ++ bytes }

theorem allocBuffer_of_lt {command : UInt8} {r : Nat} (h : r < 268435456) :
    allocBuffer command r = .ok ⟨r + 1 + (varintDigits 5 r).length, command :: varintDigits 5 r⟩ := by
  have hlen := length_varintDigits h
  have h5 : ¬ (varintDigits 5 r).length = 5 := by
    rw [hlen, varintBytes]
    split_ifs <;> omega
  simp only [allocBuffer, if_neg h5]

/-! ## Coming in -/

/-- What the socket has next: bytes, or the reason why there are none. -/
inductive Arrival where
  | data (bytes : Bytes)
  /-- `EAGAIN`. -/
  | again
  | closed
  /-- `ECONNRESET`. -/
  | reset
  | failed
  deriving DecidableEq, Repr

/-- `net__read`: at most `count` bytes. -/
def netRead (count : Nat) : List Arrival → Arrival × List Arrival
  | [] => (.again, [])
  | .data bytes :: rest =>
    if bytes = [] then (.again, rest)
    else if bytes.length ≤ count then (.data bytes, rest)
    else (.data (bytes.take count), .data (bytes.drop count) :: rest)
  | a :: rest => (a, rest)

/-- `mosq->in_packet`. -/
structure InBuffer where
  command : UInt8
  remainingCount : Int
  remainingMult : Nat
  remainingLength : Nat
  toProcess : Nat
  payload : Bytes
  deriving DecidableEq, Repr

/-- After `packet__cleanup`. -/
def InBuffer.idle : InBuffer := ⟨0, 0, 1, 0, 0, []⟩

/-- How `packet__read` comes to its end. -/
inductive ReadStop where
  /-- It returns success, and goes on at the next call. -/
  | blocked
  | failed (rc : Rc)
  /-- The packet goes to `handle__packet`. -/
  | whole (command : UInt8) (body : Bytes)

/-- `read_length` is not 1, in the fixed header. -/
def headerStop : Arrival → ReadStop
  | .closed | .reset => .failed .connLost
  | .failed => .failed .errno
  | .again | .data _ => .blocked

/-- `read_length` is not positive, in the body: there the end of the connection has no case of its own. -/
def bodyStop : Arrival → ReadStop
  | .reset => .failed .connLost
  | .closed | .failed => .failed .errno
  | .again | .data _ => .blocked

/-- The command byte, if there is none yet. -/
def readCommand (b : InBuffer) (sock : List Arrival) : InBuffer × List Arrival × Option ReadStop :=
  if b.command ≠ 0 then (b, sock, none)
  else match netRead 1 sock with
  | (.data (byte :: _), sock) => ({ b with command := byte }, sock, none)
  | (a, sock) => (b, sock, some (headerStop a))

/-- The loop over the digits of the remaining length, which refuses a fifth one. -/
def readLengthLoop : Nat → InBuffer → List Arrival → InBuffer × List Arrival × Option ReadStop
  | 0, b, sock => (b, sock, some (.failed .protocol))
  | n + 1, b, sock =>
    match netRead 1 sock with
    | (.data (byte :: _), sock) =>
      let b := { b with remainingCount := b.remainingCount - 1 }
      if b.remainingCount < -4 then (b, sock, some (.failed .protocol))
      else
        let b := { b with
          remainingLength := b.remainingLength + (byte &&& 127).toNat * b.remainingMult
          remainingMult := b.remainingMult * 128 }
        if byte &&& 128 ≠ 0 then readLengthLoop n b sock else (b, sock, none)
    | (a, sock) => (b, sock, some (headerStop a))

/-- The remaining length, if it has not been read yet. -/
def readLength (b : InBuffer) (sock : List Arrival) : InBuffer × List Arrival × Option ReadStop :=
  if b.remainingCount ≤ 0 then
    match readLengthLoop 5 b sock with
    | (b, sock, none) =>
      let b := { b with remainingCount := -b.remainingCount }
      (if b.remainingLength > 0 then { b with toProcess := b.remainingLength } else b, sock, none)
    | r => r
  else (b, sock, none)

/-- The loop over the body; each turn takes a byte or more. -/
def readBody : Nat → InBuffer → List Arrival → InBuffer × List Arrival × Option ReadStop
  | 0, b, sock => (b, sock, none)
  | n + 1, b, sock =>
    if b.toProcess = 0 then (b, sock, none)
    else match netRead b.toProcess sock with
    | (.data bytes, sock) =>
      readBody n { b with toProcess := b.toProcess - bytes.length, payload := b.payload ++ bytes } sock
    | (a, sock) => (b, sock, some (bodyStop a))

/-- `packet__read`, up to `handle__packet`. -/
def packetRead (m : Mosq) (b : InBuffer) (sock : List Arrival) : InBuffer × List Arrival × ReadStop :=
  if m.sock = none then (b, sock, .failed .noConn)
  else if m.state = .connectPending then (b, sock, .blocked)
  else match readCommand b sock with
  | (b, sock, some stop) => (b, sock, stop)
  | (b, sock, none) => match readLength b sock with
    | (b, sock, some stop) => (b, sock, stop)
    | (b, sock, none) => match readBody b.toProcess b sock with
      | (b, sock, some stop) => (b, sock, stop)
      | (b, sock, none) => (.idle, sock, .whole b.command b.payload)

/-- The network loop calls `packet__read` again and again, until it has a packet. -/
def feed (m : Mosq) : Nat → InBuffer → List Arrival → Option ((UInt8 × Bytes) × List Arrival)
  | 0, _, _ => none
  | n + 1, b, sock =>
    match packetRead m b sock with
    | (b, sock, .blocked) => feed m n b sock
    | (_, sock, .whole command body) => some ((command, body), sock)
    | (_, _, .failed _) => none

/-! ## Pieces -/

/-- The bytes that arrive, all pieces together. -/
def arriving : List Arrival → Bytes
  | [] => []
  | .data bytes :: rest => bytes ++ arriving rest
  | _ :: rest => arriving rest

/-- The connection holds: there are bytes, or none for the moment. -/
def Steady (sock : List Arrival) : Prop := ∀ a ∈ sock, a = .again ∨ ∃ bytes, a = .data bytes

theorem netRead_steady {count : Nat} {sock : List Arrival} (hc : 0 < count) (hs : Steady sock)
    (hne : arriving sock ≠ []) :
    (∃ d rest, netRead count sock = (.data d, rest) ∧ d ≠ [] ∧ d.length ≤ count ∧
    arriving sock = d ++ arriving rest ∧
        Steady rest ∧ rest.length ≤ sock.length) ∨
      (∃ rest, netRead count sock = (.again, rest) ∧ arriving rest = arriving sock ∧ Steady rest ∧
        rest.length < sock.length) := by
  cases sock with
  | nil => exact absurd rfl hne
  | cons a rest =>
    have hrest : Steady rest := fun x hx => hs x (List.mem_cons_of_mem _ hx)
    rcases hs a (List.mem_cons_self ..) with rfl | ⟨bytes, rfl⟩
    · exact .inr ⟨rest, rfl, rfl, hrest, Nat.lt_succ_self _⟩
    · by_cases hb : bytes = []
      · subst hb
        exact .inr ⟨rest, rfl, rfl, hrest, Nat.lt_succ_self _⟩
      by_cases hl : bytes.length ≤ count
      · refine .inl ⟨bytes, rest, ?_, hb, hl, rfl, hrest, Nat.le_succ _⟩
        simp only [netRead, if_neg hb, if_pos hl]
      · refine .inl ⟨bytes.take count, .data (bytes.drop count) :: rest, ?_, ?_, ?_, ?_, ?_, Nat.le_refl _⟩
        · simp only [netRead, if_neg hb, if_neg hl]
        · intro e
          have := congrArg List.length e
          rw [List.length_take, List.length_nil] at this
          omega
        · rw [List.length_take]
          omega
        · show bytes ++ arriving rest = bytes.take count ++ (bytes.drop count ++ arriving rest)
          rw [← List.append_assoc, List.take_append_drop]
        · intro x hx
          rcases List.mem_cons.mp hx with rfl | hx
          · exact .inr ⟨_, rfl⟩
          · exact hrest x hx

/-- One byte of a steady connection. -/
theorem netRead_one {sock : List Arrival} {c : UInt8} {t : Bytes} (hs : Steady sock)
    (h : arriving sock = c :: t) :
    (∃ rest, netRead 1 sock = (.data [c], rest) ∧ arriving rest = t ∧ Steady rest ∧ rest.length ≤ sock.length) ∨
      (∃ rest, netRead 1 sock = (.again, rest) ∧ arriving rest = c :: t ∧ Steady rest ∧
      rest.length < sock.length) := by
  rcases netRead_steady (Nat.one_pos) hs (by rw [h]; exact List.cons_ne_nil c t) with
    ⟨d, rest, hr, hne, hlen, ha, hs', hl⟩ | ⟨rest, hr, ha, hs', hl⟩
  · obtain ⟨x, rfl⟩ : ∃ x, d = [x] := by
      rcases d with _ | ⟨x, _ | ⟨y, d⟩⟩
      · exact absurd rfl hne
      · exact ⟨x, rfl⟩
      · simp at hlen
    rw [h] at ha
    obtain ⟨rfl, rfl⟩ := List.cons.inj ha
    exact .inl ⟨rest, hr, rfl, hs', hl⟩
  · exact .inr ⟨rest, hr, ha.trans h, hs', hl⟩

/-! ## Where the reader stands -/

section Reading

variable {command : UInt8} {body more : Bytes}

def packetBytes (command : UInt8) (body : Bytes) : Bytes := command :: (varintDigits 5 body.length ++ body)

/-- The bytes take up what `packet__alloc` has made room for. -/
theorem length_packetBytes (command : UInt8) (body : Bytes) :
    (packetBytes command body).length = body.length + 1 + (varintDigits 5 body.length).length := by
  rw [packetBytes, List.length_cons, List.length_append]
  omega

/-- Where the buffer stands in a packet, and the bytes of it that are still to come. -/
inductive Stage (command : UInt8) (body : Bytes) : InBuffer → Bytes → Prop where
  | start : Stage command body .idle (packetBytes command body)
  /-- At most `n` digits of the length are left, of the number `word`. -/
  | length (b : InBuffer) (n word : Nat) (hcommand : b.command = command) (hidle : b.toProcess = 0 ∧
      b.payload = [])
      (hn : 0 < n) (hword : word < 128 ^ n) (hsum : b.remainingLength + word * b.remainingMult = body.length)
      (hcount : b.remainingCount ≤ 0 ∧ (n : Int) ≤ 4 + b.remainingCount) :
      Stage command body b (varintDigits n word ++ body)
  | body (b : InBuffer) (todo : Bytes) (hcommand : b.command = command) (hcount : 0 < b.remainingCount)
      (hbody : body = b.payload ++ todo) (htodo : b.toProcess = todo.length) : Stage command body b todo

/-- The packet is on its way, and after it come other bytes. -/
structure Underway (command : UInt8) (body more : Bytes) (b : InBuffer) (sock : List Arrival) : Prop where
  steady : Steady sock
  stage : ∃ todo, Stage command body b todo ∧ arriving sock = todo ++ more

/-- A piece of `packet__read` that has come to its end for now, or has brought the buffer to a place. -/
def Advances (command : UInt8) (body more : Bytes) (sock : List Arrival) (reached : InBuffer → Prop)
    (r : InBuffer × List Arrival × Option ReadStop) : Prop :=
  Underway command body more r.1 r.2.1 ∧
    ((r.2.2 = some .blocked ∧ r.2.1.length < sock.length) ∨
      (r.2.2 = none ∧ reached r.1 ∧ r.2.1.length ≤ sock.length))

theorem Stage.begun {b : InBuffer} {todo : Bytes} (h : Stage command body b todo) :
    (b = .idle ∧ todo = packetBytes command body) ∨ b.command = command := by
  cases h with
  | start => exact .inl ⟨rfl, rfl⟩
  | length b n word hcommand => exact .inr hcommand
  | body b todo hcommand => exact .inr hcommand

theorem readCommand_advances (hc : command ≠ 0) (hlen : body.length < 268435456) {b : InBuffer}
    {sock : List Arrival}
    (h : Underway command body more b sock) :
    Advances command body more sock (fun b => b.command = command) (readCommand b sock) := by
  obtain ⟨hs, todo, hst, ha⟩ := h
  rcases hst.begun with ⟨rfl, rfl⟩ | hcommand
  · unfold readCommand
    rw [if_neg (by simp [InBuffer.idle])]
    rcases netRead_one hs ha with ⟨rest, hr, ha', hs', hl⟩ | ⟨rest, hr, ha', hs', hl⟩
    · rw [hr]
      have hdigits : varintDigits 5 body.length = varintDigits 4 body.length :=
        varintDigits_enough (by omega) (by omega) hlen
      refine ⟨⟨hs', varintDigits 5 body.length ++ body, ?_, ha'⟩, .inr ⟨rfl, rfl, hl⟩⟩
      rw [hdigits]
      exact .length _ 4 body.length rfl ⟨rfl, rfl⟩ (by omega) hlen
        (show 0 + body.length * 1 = body.length by omega) ⟨Int.le_refl 0, Int.le_refl 4⟩
    · rw [hr]
      exact ⟨⟨hs', _, .start, ha'⟩, .inl ⟨rfl, hl⟩⟩
  · unfold readCommand
    rw [if_pos (by rw [hcommand]; exact hc)]
    exact ⟨⟨hs, todo, hst, ha⟩, .inr ⟨rfl, hcommand, Nat.le_refl _⟩⟩

/-- The loop over the length either waits for a digit or has all of them. -/
theorem readLengthLoop_digits {fuel n word : Nat} {b : InBuffer} {sock : List Arrival} (hs : Steady sock)
    (ha : arriving sock = varintDigits n word ++ (body ++ more)) (hcommand : b.command = command)
    (hidle : b.toProcess = 0 ∧ b.payload = []) (hn : 0 < n) (hfuel : n ≤ fuel) (hword : word < 128 ^ n)
    (hsum : b.remainingLength + word * b.remainingMult = body.length)
    (hcount : b.remainingCount ≤ 0 ∧ (n : Int) ≤ 4 + b.remainingCount) :
    let r := readLengthLoop fuel b sock
    (r.2.2 = some .blocked ∧ r.2.1.length < sock.length ∧ Underway command body more r.1 r.2.1) ∨
      (r.2.2 = none ∧ r.2.1.length ≤ sock.length ∧ Steady r.2.1 ∧ arriving r.2.1 = body ++ more ∧
        r.1.command = command ∧ (r.1.toProcess = 0 ∧ r.1.payload = []) ∧ r.1.remainingLength = body.length ∧
        r.1.remainingCount < 0) := by
  induction fuel generalizing n word b sock with
  | zero => omega
  | succ fuel ih =>
    obtain ⟨n, rfl⟩ : ∃ k, n = k + 1 := ⟨n - 1, by omega⟩
    have hnext : ¬ b.remainingCount - 1 < -4 := by omega
    -- a read that has to wait leaves the length where it was
    have hblocked : ∀ {rest}, Steady rest → arriving rest = varintDigits (n + 1) word ++ (body ++ more) →
        Underway command body more b rest := by
      intro rest hs' ha'
      refine ⟨hs', varintDigits (n + 1) word ++ body, ?_, ?_⟩
      · exact .length b (n + 1) word hcommand hidle hn hword hsum hcount
      · rw [ha', List.append_assoc]
    by_cases hmore : word / 128 > 0
    · obtain ⟨hpos, hlt⟩ := digits_more hword hmore
      have hdigit := moreDigit_toNat word
      have htop : (UInt8.ofNat (word % 128) ||| 0x80) &&& 128 ≠ 0 := by
        intro e
        rw [and128_eq_zero] at e
        omega
      have hdigits : varintDigits (n + 1) word = (UInt8.ofNat (word % 128) ||| 0x80) ::
          varintDigits n (word / 128) := by
        rw [varintDigits, if_pos hmore]
      rw [hdigits] at ha
      rcases netRead_one hs ha with ⟨rest, hr, ha', hs', hl⟩ | ⟨rest, hr, ha', hs', hl⟩
      · have hlow : ((UInt8.ofNat (word % 128) ||| 0x80) &&& 127).toNat = word % 128 := by
          rw [and127, hdigit]
          omega
        have hsum' : b.remainingLength + word % 128 * b.remainingMult + word / 128 * (b.remainingMult * 128) =
            body.length := by
          rw [digit_sum, hsum]
        simp only [readLengthLoop, hr, if_neg hnext, if_pos htop, hlow]
        have := ih (b := { b with
            remainingCount := b.remainingCount - 1
            remainingLength := b.remainingLength + word % 128 * b.remainingMult
            remainingMult := b.remainingMult * 128 }) hs' ha' hcommand hidle hpos (by omega) hlt hsum'
          ⟨show b.remainingCount - 1 ≤ 0 by omega, show (n : Int) ≤ 4 + (b.remainingCount - 1) by omega⟩
        rcases this with ⟨h1, h2, h3⟩ | ⟨h1, h2, h3⟩
        · exact .inl ⟨h1, by omega, h3⟩
        · exact .inr ⟨h1, by omega, h3⟩
      · simp only [readLengthLoop, hr]
        exact .inl ⟨rfl, hl, hblocked hs' (by rw [hdigits]; exact ha')⟩
    · have hsmall : word < 128 := by omega
      have hdigits : varintDigits (n + 1) word = [UInt8.ofNat (word % 128)] := by
        rw [varintDigits, if_neg hmore]
      rw [hdigits] at ha
      have hdigit := lastDigit_toNat hsmall
      have htop : ¬ UInt8.ofNat (word % 128) &&& 128 ≠ 0 := by
        rw [not_not, and128_eq_zero, hdigit]
        exact hsmall
      rcases netRead_one hs ha with ⟨rest, hr, ha', hs', hl⟩ | ⟨rest, hr, ha', hs', hl⟩
      · have hlow : (UInt8.ofNat (word % 128) &&& 127).toNat = word := by
          rw [and127, hdigit]
          omega
        simp only [readLengthLoop, hr, if_neg hnext, if_neg htop, hlow]
        exact .inr ⟨trivial, hl, hs', ha', hcommand, hidle, hsum, show b.remainingCount - 1 < 0 by omega⟩
      · simp only [readLengthLoop, hr]
        exact .inl ⟨rfl, hl, hblocked hs' (by rw [hdigits]; exact ha')⟩

theorem readLength_advances (hc : command ≠ 0) {b : InBuffer} {sock : List Arrival}
    (h : Underway command body more b sock) (hb : b.command = command) :
    Advances command body more sock (fun b => 0 < b.remainingCount) (readLength b sock) := by
  obtain ⟨hs, todo, hst, ha⟩ := h
  cases hst with
  | start => exact absurd hb.symm hc
  | length _ n word hcommand hidle hn hword hsum hcount =>
    rw [List.append_assoc] at ha
    unfold readLength
    rw [if_pos hcount.1]
    have hloop := readLengthLoop_digits hs ha hcommand hidle hn (show n ≤ 5 by omega) hword hsum hcount
    generalize readLengthLoop 5 b sock = r at hloop
    obtain ⟨b', sock', stop⟩ := r
    rcases hloop with ⟨rfl, hl, hu⟩ | ⟨rfl, hl, hs', ha', hcommand', hidle', hlen, hcount'⟩
    · exact ⟨hu, .inl ⟨rfl, hl⟩⟩
    · dsimp only at hl hs' ha' hcommand' hidle' hlen hcount' ⊢
      have hstage : Stage command body (if b'.remainingLength > 0 then
          { b' with remainingCount := -b'.remainingCount, toProcess := b'.remainingLength }
          else { b' with remainingCount := -b'.remainingCount }) body := by
        split
        · exact .body _ body hcommand' (show 0 < -b'.remainingCount by omega)
            (show body = b'.payload ++ body by rw [hidle'.2]; rfl) hlen
        · exact .body _ body hcommand' (show 0 < -b'.remainingCount by omega)
            (show body = b'.payload ++ body by rw [hidle'.2]; rfl) (show b'.toProcess = body.length by omega)
      refine ⟨⟨hs', body, hstage, ha'⟩, .inr ⟨rfl, ?_, hl⟩⟩
      show 0 < (if b'.remainingLength > 0 then
          { b' with remainingCount := -b'.remainingCount, toProcess := b'.remainingLength }
          else { b' with remainingCount := -b'.remainingCount }).remainingCount
      split <;> show 0 < -b'.remainingCount <;> omega
  | body _ _ hcommand hcount hbody htodo =>
    unfold readLength
    rw [if_neg (by omega)]
    exact ⟨⟨hs, todo, .body b todo hcommand hcount hbody htodo, ha⟩, .inr ⟨rfl, hcount, Nat.le_refl _⟩⟩

theorem readBody_done {b : InBuffer} (h : b.toProcess = 0) (fuel : Nat) (sock : List Arrival) :
    readBody fuel b sock = (b, sock, none) := by
  cases fuel with
  | zero => rfl
  | succ fuel => rw [readBody, if_pos h]

/-- The loop over the body either waits for bytes or has all of them. -/
theorem readBody_rest {fuel : Nat} {b : InBuffer} {sock : List Arrival} {todo : Bytes} (hs : Steady sock)
    (ha : arriving sock = todo ++ more) (hcommand : b.command = command) (hcount : 0 < b.remainingCount)
    (hbody : body = b.payload ++ todo) (htodo : b.toProcess = todo.length) (hfuel : todo.length ≤ fuel) :
    let r := readBody fuel b sock
    (r.2.2 = some .blocked ∧ r.2.1.length < sock.length ∧ Underway command body more r.1 r.2.1) ∨
      (r.2.2 = none ∧ Steady r.2.1 ∧ arriving r.2.1 = more ∧ r.1.command = command ∧ r.1.payload = body) := by
  induction fuel generalizing b sock todo with
  | zero =>
    obtain rfl : todo = [] := List.length_eq_zero_iff.mp (by omega)
    exact .inr ⟨rfl, hs, ha, hcommand, by rw [hbody, List.append_nil]; rfl⟩
  | succ fuel ih =>
    by_cases hnil : todo = []
    · subst hnil
      rw [readBody_done htodo]
      exact .inr ⟨rfl, hs, ha, hcommand, by rw [hbody, List.append_nil]⟩
    have hpos : 0 < todo.length := List.length_pos_iff.mpr hnil
    have hne : arriving sock ≠ [] := by
      rw [ha]
      exact fun e => hnil (List.append_eq_nil_iff.mp e).1
    have hmore : ¬ b.toProcess = 0 := by omega
    rcases netRead_steady (show 0 < b.toProcess by omega) hs hne with
      ⟨d, rest, hr, hd, hdl, ha', hs', hl⟩ | ⟨rest, hr, ha', hs', hl⟩
    · -- the bytes are the first of those to come
      obtain ⟨todo', rfl⟩ : ∃ todo', todo = d ++ todo' := by
        rw [ha'] at ha
        refine (List.append_eq_append_iff.mp ha).elim (fun ⟨t, ht, _⟩ => ⟨t, ht⟩) (fun ⟨t, ht, _⟩ => ?_)
        have := congrArg List.length ht
        rw [List.length_append] at this
        obtain rfl : t = [] := List.length_eq_zero_iff.mp (by omega)
        exact ⟨[], by rw [ht, List.append_nil, List.append_nil]⟩
      rw [List.append_assoc, ha', List.append_cancel_left_eq] at ha
      rw [List.length_append] at htodo hfuel
      have hdpos : 0 < d.length := List.length_pos_iff.mpr hd
      have hbody' : body = (b.payload ++ d) ++ todo' := by rw [hbody, List.append_assoc]
      have hloop : readBody (fuel + 1) b sock =
          readBody fuel { b with toProcess := b.toProcess - d.length, payload := b.payload ++ d } rest := by
        conv_lhs => unfold readBody
        rw [if_neg hmore, hr]
      have hrest := ih (b := { b with toProcess := b.toProcess - d.length, payload := b.payload ++ d })
          hs' ha hcommand
        hcount hbody' (show b.toProcess - d.length = todo'.length by omega) (by omega)
      rw [hloop]
      rcases hrest with ⟨h1, h2, h3⟩ | h1
      · exact .inl ⟨h1, by omega, h3⟩
      · exact .inr h1
    · have hloop : readBody (fuel + 1) b sock = (b, rest, some .blocked) := by
        unfold readBody
        rw [if_neg hmore, hr]
        rfl
      rw [hloop]
      exact .inl ⟨rfl, hl, hs', todo, .body b todo hcommand hcount hbody htodo, ha'.trans ha⟩

/-- One call of `packet__read`, while the packet is on its way: it waits, and there is less to come, or it
    hands the packet on. -/
theorem packetRead_underway {m : Mosq} (hsock : m.sock ≠ none) (hstate : m.state ≠ .connectPending)
    (hc : command ≠ 0)
    (hlen : body.length < 268435456) {b : InBuffer} {sock : List Arrival}
    (h : Underway command body more b sock) :
    let r := packetRead m b sock
    (r.2.2 = .blocked ∧ r.2.1.length < sock.length ∧ Underway command body more r.1 r.2.1) ∨
      (r.2.2 = .whole command body ∧ Steady r.2.1 ∧ arriving r.2.1 = more) := by
  unfold packetRead
  rw [if_neg hsock, if_neg hstate]
  have h1 := readCommand_advances hc hlen h
  generalize readCommand b sock = r1 at h1
  obtain ⟨b1, sock1, stop1⟩ := r1
  obtain ⟨hu1, ⟨rfl, hl1⟩ | ⟨rfl, hc1, hl1⟩⟩ := h1
  · exact .inl ⟨rfl, hl1, hu1⟩
  dsimp only at hu1 hc1 hl1 ⊢
  have h2 := readLength_advances hc hu1 hc1
  generalize readLength b1 sock1 = r2 at h2
  obtain ⟨b2, sock2, stop2⟩ := r2
  obtain ⟨hu2, ⟨rfl, hl2⟩ | ⟨rfl, hn2, hl2⟩⟩ := h2
  · exact .inl ⟨rfl, lt_of_lt_of_le hl2 hl1, hu2⟩
  dsimp only at hu2 hn2 hl2 ⊢
  obtain ⟨hs2, todo, hst, ha2⟩ := hu2
  cases hst with
  | start => simp [InBuffer.idle] at hn2
  | length _ n word hcommand hidle hn hword hsum hcount => omega
  | body _ _ hcommand hcount hbody htodo =>
    have h3 := readBody_rest hs2 ha2 hcommand hcount hbody htodo (Nat.le_of_eq htodo.symm)
    generalize readBody b2.toProcess b2 sock2 = r3 at h3
    obtain ⟨b3, sock3, stop3⟩ := r3
    obtain ⟨rfl, hl3, hu3⟩ | ⟨rfl, hs3, ha3, hc3, hp3⟩ := h3
    · exact .inl ⟨rfl, lt_of_lt_of_le hl3 (hl2.trans hl1), hu3⟩
    · dsimp only at hc3 hp3 ⊢
      rw [hc3, hp3]
      exact .inr ⟨rfl, hs3, ha3⟩

theorem feed_underway {m : Mosq} (hsock : m.sock ≠ none) (hstate : m.state ≠ .connectPending) (hc : command ≠ 0)
    (hlen : body.length < 268435456) {fuel : Nat} {b : InBuffer} {sock : List Arrival}
    (h : Underway command body more b sock) (hfuel : sock.length < fuel) :
    ∃ rest, feed m fuel b sock = some ((command, body), rest) ∧ Steady rest ∧ arriving rest = more := by
  induction fuel generalizing b sock with
  | zero => omega
  | succ fuel ih =>
    have hread := packetRead_underway hsock hstate hc hlen h
    unfold feed
    generalize packetRead m b sock = r at hread
    obtain ⟨b', sock', stop⟩ := r
    obtain ⟨rfl, hl, hu⟩ | ⟨rfl, hs, ha⟩ := hread
    · exact ih hu (show sock'.length < fuel by dsimp only at hl; omega)
    · exact ⟨sock', rfl, hs, ha⟩

/-- A packet that arrives in any pieces, with anything after it, is handed on with its whole body. -/
theorem feed_whole {m : Mosq} (hsock : m.sock ≠ none) (hstate : m.state ≠ .connectPending) (hc : command ≠ 0)
    (hlen : body.length < 268435456) {sock : List Arrival} (hs : Steady sock)
    (ha : arriving sock = packetBytes command body ++ more) {fuel : Nat} (hfuel : sock.length < fuel) :
    ∃ rest, feed m fuel .idle sock = some ((command, body), rest) ∧ Steady rest ∧ arriving rest = more :=
  feed_underway hsock hstate hc hlen ⟨hs, _, .start, ha⟩ hfuel

end Reading

end Artemisia.Wire
