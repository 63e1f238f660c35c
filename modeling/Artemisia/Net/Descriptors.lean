/-
  Artemisia.Net.Descriptors — the descriptors of the clients of a process: `net_mosq.c`, and `mosquitto_new`,
  `mosquitto_reinitialise` and `mosquitto_destroy` in `mosquitto.c`. TLS, SOCKS and the broker's parts are not
  compiled.

  A call is one step here. What the system answers is in the action; it gives out no descriptor that is open.
  `mosquitto_reinitialise` sets the descriptors of the client to zero before it looks at the client id, and
  `mosquitto_new` destroys a client whose id is refused. Zero is a descriptor.

  Proved:
  - `owns_tryAddresses`:  of the sockets that `net__try_connect` opens, one is left, or none.
  - `descriptors_iff`:    the clients have all descriptors that the library has open, each once, and no other
                          descriptor is closed, exactly when no client id is refused.
-/
import Artemisia.Client.Types
import Artemisia.Lib.Handles
import Artemisia.Lib.Machine

namespace Artemisia.Net

open Artemisia.Property Handles

/-- The descriptors in a `struct mosquitto`; `none` is `INVALID_SOCKET`. -/
structure Descriptors where
  sock : Option Nat
  sockpairR : Option Nat
  sockpairW : Option Nat
  deriving DecidableEq

def Descriptors.all (m : Descriptors) : List Nat := m.sock.toList ++ (m.sockpairR.toList ++ m.sockpairW.toList)

/-! ## `net_mosq.c` -/

/-- What `socketpair` gives, and whether `net__socket_nonblock` succeeds for either end. -/
inductive Pair where
  | failed
  | made (r w : Nat) (nonblockR nonblockW : Bool)

/-- `net__socketpair`. An end that cannot be set to nonblocking has been closed by `net__socket_nonblock`. -/
def netSocketpair (t : Table Nat) : Pair → Option (Table Nat × Option Nat × Option Nat)
  | .failed => some (t, none, none)
  | .made r w nonblockR nonblockW => do
    let t ← t.opens r
    let t ← t.opens w
    if !nonblockR then some ((t.close r).close w, none, none)
    else if !nonblockW then some ((t.close w).close r, none, none)
    else some (t, some r, some w)

inductive Family where
  | inet | inet6 | other
  deriving DecidableEq

/-- How `connect` ends; it goes on with `EINPROGRESS` or `EWOULDBLOCK`. -/
inductive Connecting where
  | done | goesOn | failed

/-- An address of the host, with what happens to a socket for it. -/
structure Address where
  socket : Option Nat
  family : Family
  /-- There is an address to bind it to. -/
  binds : Bool
  nonblock : Bool
  connect : Connecting

/-- The loop of `net__try_connect`: a socket, and whether its connection is pending. -/
def tryAddresses (bind blocking : Bool) (t : Table Nat) : List Address →
    Option (Table Nat × Except Rc (Nat × Bool))
  | [] => some (t, .error .errno)
  | a :: rest =>
    match a.socket with
    | none => tryAddresses bind blocking t rest
    | some fd => do
      let t ← t.opens fd
      if a.family = .other then tryAddresses bind blocking (t.close fd) rest
      else if bind ∧ !a.binds then tryAddresses bind blocking (t.close fd) rest
      else if !blocking ∧ !a.nonblock then tryAddresses bind blocking (t.close fd) rest
      else
        match a.connect with
        | .failed => tryAddresses bind blocking (t.close fd) rest
        | .done =>
          if blocking ∧ !a.nonblock then tryAddresses bind blocking (t.close fd) rest
            else some (t, .ok (fd, false))
        | .goesOn =>
          if blocking ∧ !a.nonblock then tryAddresses bind blocking (t.close fd) rest
            else some (t, .ok (fd, true))

/-- `getaddrinfo` for the host, and for the address to bind to. -/
inductive Lookup where
  | failed
  | found (addresses : List Address)

def netTryConnect (bind blocking : Bool) (t : Table Nat) : Lookup → Option (Table Nat × Except Rc (Nat × Bool))
  | .failed => some (t, .error .eai)
  | .found addresses => tryAddresses bind blocking t addresses

/-- `net__socket_connect`, with a host and a port. -/
def netSocketConnect (bind blocking : Bool) (t : Table Nat) (m : Descriptors) (l : Lookup) :
    Option (Table Nat × Descriptors × Rc) := do
  match ← netTryConnect bind blocking t l with
  | (t, .error rc) => some (t, { m with sock := none }, rc)
  | (t, .ok (sock, _)) => some (t, { m with sock := some sock }, .success)

def netSocketClose (t : Table Nat) (m : Descriptors) : Table Nat × Descriptors :=
  (t.closeAll m.sock.toList, { m with sock := none })

/-! ## `mosquitto.c` and `connect.c` -/

/-- `mosquitto__destroy`. -/
def destroyDescriptors (t : Table Nat) (m : Descriptors) : Table Nat × Descriptors :=
  (((t.closeAll m.sock.toList).closeAll m.sockpairR.toList).closeAll m.sockpairW.toList, ⟨none, none, none⟩)

/-- What `mosquitto_reinitialise` returns for the client id. -/
def idRc : Option Bytes → Rc
  | none => .success
  | some id => if id = [] then .inval else if validateUtf8 id ≠ .success then .malformedUtf8 else .success

def mosquittoReinitialise (t : Table Nat) (m : Descriptors) (id : Option Bytes) (cleanStart : Bool)
    (pair : Pair) :
    Option (Table Nat × Descriptors × Rc) :=
  if !cleanStart ∧ id = none then some (t, m, .inval)
  else
    let (t, _) := destroyDescriptors t m
    -- after `memset`
    let m : Descriptors := { sock := none, sockpairR := some 0, sockpairW := some 0 }
    if idRc id ≠ .success then some (t, m, idRc id)
    else do
      let (t, r, w) ← netSocketpair t pair
      some (t, { m with sockpairR := r, sockpairW := w }, .success)

/-- `mosquitto_new`: the client, if there is one. -/
def mosquittoNew (t : Table Nat) (memory : Bool) (id : Option Bytes) (cleanStart : Bool) (first second : Pair) :
    Option (Table Nat × Option Descriptors) :=
  if !cleanStart ∧ id = none then some (t, none)
  else if !memory then some (t, none)
  else do
    let (t, r, w) ← netSocketpair t first
    match ← mosquittoReinitialise t ⟨none, r, w⟩ id cleanStart second with
    | (t, m, .success) => some (t, some m)
    | (t, m, _) => some ((destroyDescriptors t m).1, none)

/-- `mosquitto__reconnect` with a host and with properties that are accepted: `sent` says that `send__connect`
    succeeds. -/
def mosquittoReconnect (bind blocking : Bool) (t : Table Nat) (m : Descriptors) (l : Lookup) (sent : Bool) :
    Option (Table Nat × Descriptors) := do
  let (t, m) := netSocketClose t m
  match ← netSocketConnect bind blocking t m l with
  | (t, m, .success) => some (if sent then (t, m) else netSocketClose t m)
  | (t, m, _) => some (t, m)

/-! ## The process -/

structure Process where
  table : Table Nat
  clients : List Descriptors

inductive Call where
  | create (memory : Bool) (id : Option Bytes) (cleanStart : Bool) (first second : Pair)
  | reinitialise (i : Nat) (id : Option Bytes) (cleanStart : Bool) (pair : Pair)
  | reconnect (i : Nat) (bind blocking : Bool) (l : Lookup) (sent : Bool)
  /-- `net__socket_close`, after an error or a DISCONNECT. -/
  | socketClose (i : Nat)
  | destroy (i : Nat)
  /-- Somebody else opens and closes descriptors. -/
  | others (l : List Nat)

def Process.step (p : Process) : Call → Option Process
  | .create memory id cleanStart first second => do
    match ← mosquittoNew p.table memory id cleanStart first second with
    | (t, some m) => some ⟨t, p.clients ++ [m]⟩
    | (t, none) => some { p with table := t }
  | .reinitialise i id cleanStart pair => do
    let m ← p.clients[i]?
    let (t, m, _) ← mosquittoReinitialise p.table m id cleanStart pair
    some ⟨t, p.clients.set i m⟩
  | .reconnect i bind blocking l sent => do
    let m ← p.clients[i]?
    let (t, m) ← mosquittoReconnect bind blocking p.table m l sent
    some ⟨t, p.clients.set i m⟩
  | .socketClose i => do
    let m ← p.clients[i]?
    some ⟨(netSocketClose p.table m).1, p.clients.set i (netSocketClose p.table m).2⟩
  | .destroy i => do
    let m ← p.clients[i]?
    some ⟨(destroyDescriptors p.table m).1, p.clients.eraseIdx i⟩
  | .others l => if p.table.held.all (· ∉ l) then some { p with table := { p.table with others := l } } else none

/-- The descriptors in the clients. -/
def Process.all (p : Process) : List Nat := p.clients.flatMap Descriptors.all

/-- `mosquitto_new` or `mosquitto_reinitialise` gets as far as the client id, and refuses it. -/
def refusesId : Call → Bool
  | .create memory id cleanStart _ _ => memory ∧ (cleanStart ∨ id ≠ none) ∧ idRc id ≠ .success
  | .reinitialise _ id cleanStart _ => (cleanStart ∨ id ≠ none) ∧ idRc id ≠ .success
  | _ => false

/-! ## What the functions do to the descriptors -/

section Functions

variable {t t' : Table Nat} {m m' : Descriptors} {rest : List Nat} {r w : Option Nat}

theorem owns_netSocketpair {pair : Pair} (h : Owns t rest) (hp : netSocketpair t pair = some (t', r, w)) :
    Owns t' (r.toList ++ (w.toList ++ rest)) := by
  cases pair with
  | failed =>
    cases hp
    exact h
  | made fr fw nonblockR nonblockW =>
    simp only [netSocketpair, Option.bind_eq_bind, Option.bind_eq_some_iff] at hp
    obtain ⟨t1, h1, t2, h2, hp⟩ := hp
    have hboth : Owns t2 (fw :: fr :: rest) := (h.opens h1).opens h2
    have hswap : Owns t2 (fr :: fw :: rest) := hboth.perm (List.Perm.swap ..)
    split at hp
    · cases hp
      exact hswap.close.close
    · split at hp
      · cases hp
        exact hboth.close.close
      · cases hp
        exact hswap

def openedSocket : Except Rc (Nat × Bool) → List Nat
  | .ok (sock, _) => [sock]
  | .error _ => []

/-- Of the sockets that `net__try_connect` opens, one is left, or none. -/
theorem owns_tryAddresses {bind blocking : Bool} {addresses : List Address} {x : Except Rc (Nat × Bool)}
    (h : Owns t rest)
    (ht : tryAddresses bind blocking t addresses = some (t', x)) :
    Owns t' (openedSocket x ++ rest) := by
  induction addresses generalizing t with
  | nil =>
    cases ht
    exact h
  | cons a addresses ih =>
    rw [tryAddresses] at ht
    cases hs : a.socket with
    | none =>
      rw [hs] at ht
      exact ih h ht
    | some fd =>
      simp only [hs, Option.bind_eq_bind, Option.bind_eq_some_iff] at ht
      obtain ⟨t1, h1, ht⟩ := ht
      have hopen : Owns t1 (fd :: rest) := h.opens h1
      split at ht
      · exact ih hopen.close ht
      · split at ht
        · exact ih hopen.close ht
        · split at ht
          · exact ih hopen.close ht
          · cases hc : a.connect with
            | failed =>
              rw [hc] at ht
              exact ih hopen.close ht
            | done =>
              simp only [hc] at ht
              split at ht
              · exact ih hopen.close ht
              · cases ht
                exact hopen
            | goesOn =>
              simp only [hc] at ht
              split at ht
              · exact ih hopen.close ht
              · cases ht
                exact hopen

theorem owns_netSocketConnect {bind blocking : Bool} {l : Lookup} {rc : Rc} (hm : m.sock = none)
    (h : Owns t (m.all ++ rest))
    (hc : netSocketConnect bind blocking t m l = some (t', m', rc)) : Owns t' (m'.all ++ rest) := by
  simp only [netSocketConnect, Option.bind_eq_bind, Option.bind_eq_some_iff] at hc
  obtain ⟨⟨t1, x⟩, ht, hc⟩ := hc
  have hnone : m.sock.toList = [] := by
    rw [hm]
    rfl
  have hsock : Owns t1 (openedSocket x ++ (m.all ++ rest)) := by
    cases l with
    | failed =>
      cases ht
      exact h
    | found addresses => exact owns_tryAddresses h ht
  cases x with
  | error e =>
    cases hc
    simpa [Descriptors.all, hnone, openedSocket] using hsock
  | ok y =>
    cases hc
    simpa [Descriptors.all, hnone, openedSocket] using hsock

theorem owns_netSocketClose (h : Owns t (m.all ++ rest)) :
    Owns (netSocketClose t m).1 ((netSocketClose t m).2.all ++ rest) := by
  have hclose : Owns t (m.sock.toList ++ ((m.sockpairR.toList ++ m.sockpairW.toList) ++ rest)) := by
    rw [← List.append_assoc]
    exact h
  exact hclose.closeAll

theorem owns_destroy (h : Owns t (m.all ++ rest)) : Owns (destroyDescriptors t m).1 rest := by
  have hall : Owns t (m.sock.toList ++ (m.sockpairR.toList ++ (m.sockpairW.toList ++ rest))) := by
    simpa [Descriptors.all] using h
  exact hall.closeAll.closeAll.closeAll

theorem owns_mosquittoReconnect {bind blocking sent : Bool} {l : Lookup} (h : Owns t (m.all ++ rest))
    (hr : mosquittoReconnect bind blocking t m l sent = some (t', m')) : Owns t' (m'.all ++ rest) := by
  simp only [mosquittoReconnect, Option.bind_eq_bind, Option.bind_eq_some_iff] at hr
  obtain ⟨⟨t1, m1, rc⟩, hc, hr⟩ := hr
  have hconnect : Owns t1 (m1.all ++ rest) := owns_netSocketConnect rfl (owns_netSocketClose h) hc
  cases rc with
  | success =>
    cases sent with
    | true =>
      cases hr
      exact hconnect
    | false =>
      cases hr
      exact owns_netSocketClose hconnect
  | _ =>
    cases hr
    exact hconnect

/-- `mosquitto_reinitialise` with a client id that is not refused. -/
theorem owns_mosquittoReinitialise {id : Option Bytes} {cleanStart : Bool} {pair : Pair} {rc : Rc}
    (hid : ¬ ((cleanStart = true ∨ id ≠ none) ∧ idRc id ≠ .success)) (h : Owns t (m.all ++ rest))
    (hr : mosquittoReinitialise t m id cleanStart pair = some (t', m', rc)) : Owns t' (m'.all ++ rest) := by
  unfold mosquittoReinitialise at hr
  split at hr
  · cases hr
    exact h
  · rename_i hgoes
    have hok : idRc id = .success := by
      by_contra hne
      refine hid ⟨?_, hne⟩
      by_contra hno
      obtain ⟨hclean, hnone⟩ := not_or.mp hno
      exact hgoes ⟨by simpa using hclean, not_not.mp hnone⟩
    simp only [hok, ne_eq, not_true_eq_false, if_false, Option.bind_eq_bind, Option.bind_eq_some_iff] at hr
    obtain ⟨⟨t1, r, w⟩, hp, hr⟩ := hr
    cases hr
    simpa [Descriptors.all] using owns_netSocketpair (owns_destroy h) hp

/-- Otherwise the client has the descriptor zero, twice. -/
theorem refused_mosquittoReinitialise {id : Option Bytes} {cleanStart : Bool} {pair : Pair} {rc : Rc}
    (hid : (cleanStart = true ∨ id ≠ none) ∧ idRc id ≠ .success)
    (hr : mosquittoReinitialise t m id cleanStart pair = some (t', m', rc)) :
    t' = (destroyDescriptors t m).1 ∧ m' = ⟨none, some 0, some 0⟩ ∧ rc ≠ .success := by
  have hgoes : ¬ ((!cleanStart) = true ∧ id = none) := by
    rintro ⟨hclean, hnone⟩
    rcases hid.1 with h | h
    · rw [h] at hclean
      cases hclean
    · exact h hnone
  simp only [mosquittoReinitialise, if_neg hgoes, if_pos hid.2] at hr
  cases hr
  exact ⟨rfl, rfl, hid.2⟩

theorem owns_mosquittoNew {memory cleanStart : Bool} {id : Option Bytes} {first second : Pair}
    {x : Option Descriptors}
    (hid : ¬ (memory = true ∧ (cleanStart = true ∨ id ≠ none) ∧ idRc id ≠ .success)) (h : Owns t rest)
    (hn : mosquittoNew t memory id cleanStart first second = some (t', x)) :
    Owns t' ((x.map Descriptors.all).getD [] ++ rest) := by
  unfold mosquittoNew at hn
  split at hn
  · cases hn
    exact h
  · split at hn
    · cases hn
      exact h
    · rename_i hmemory
      simp only [Option.bind_eq_bind, Option.bind_eq_some_iff] at hn
      obtain ⟨⟨t1, r, w⟩, hp, ⟨t2, m2, rc⟩, hr, hn⟩ := hn
      have hpair : Owns t1 ((⟨none, r, w⟩ : Descriptors).all ++ rest) := by
        simpa [Descriptors.all] using owns_netSocketpair h hp
      have hinit : Owns t2 (m2.all ++ rest) :=
        owns_mosquittoReinitialise (fun hx => hid ⟨by simpa using hmemory, hx⟩) hpair hr
      cases rc with
      | success =>
        cases hn
        exact hinit
      | _ =>
        cases hn
        exact owns_destroy hinit

/-- The client whose id is refused is destroyed, and the descriptor zero is closed twice. -/
theorem refused_mosquittoNew {memory cleanStart : Bool} {id : Option Bytes} {first second : Pair}
    {x : Option Descriptors}
    (hid : memory = true ∧ (cleanStart = true ∨ id ≠ none) ∧ idRc id ≠ .success) (h : Owns t rest)
    (hn : mosquittoNew t memory id cleanStart first second = some (t', x)) : x = none ∧ t'.foul = true := by
  obtain ⟨hmemory, hid⟩ := hid
  have hgoes : ¬ ((!cleanStart) = true ∧ id = none) := by
    rintro ⟨hclean, hnone⟩
    rcases hid.1 with h | h
    · rw [h] at hclean
      cases hclean
    · exact h hnone
  rw [mosquittoNew, if_neg hgoes, if_neg (by simp [hmemory])] at hn
  simp only [Option.bind_eq_bind, Option.bind_eq_some_iff] at hn
  obtain ⟨⟨t1, r, w⟩, hp, ⟨t2, m2, rc⟩, hr, hn⟩ := hn
  obtain ⟨rfl, rfl, hrc⟩ := refused_mosquittoReinitialise hid hr
  have hpair : Owns t1 ((⟨none, r, w⟩ : Descriptors).all ++ rest) := by
    simpa [Descriptors.all] using owns_netSocketpair h hp
  have hclosed : Owns (destroyDescriptors t1 ⟨none, r, w⟩).1 rest := owns_destroy hpair
  have htwice := foul_twice (a := 0) (hclosed.exact.nodup_iff.mp hclosed.once)
  cases rc with
  | success => exact absurd rfl hrc
  | _ =>
    cases hn
    exact ⟨rfl, htwice⟩

end Functions

/-! ## Runs -/

section Runs

variable {p p' : Process} {c : Call} {m m' : Descriptors} {i : Nat}

theorem all_perm (h : p.clients[i]? = some m) :
    p.all.Perm (m.all ++ (p.clients.eraseIdx i).flatMap Descriptors.all) := by
  obtain ⟨hi, rfl⟩ := List.getElem?_eq_some_iff.mp h
  exact ((List.getElem_cons_eraseIdx_perm hi).symm.flatMap_right _)

theorem set_perm (h : p.clients[i]? = some m) (m' : Descriptors) :
    ((p.clients.set i m').flatMap Descriptors.all).Perm
    (m'.all ++ (p.clients.eraseIdx i).flatMap Descriptors.all) := by
  obtain ⟨hi, -⟩ := List.getElem?_eq_some_iff.mp h
  exact (List.set_perm_cons_eraseIdx hi m').flatMap_right _

/-- A call keeps the order, unless it refuses a client id. -/
theorem step_owns (h : Owns p.table p.all) (hs : p.step c = some p') :
    Owns p'.table p'.all ↔ refusesId c = false := by
  cases c with
  | create memory id cleanStart first second =>
    simp only [Process.step, Option.bind_eq_bind, Option.bind_eq_some_iff] at hs
    obtain ⟨⟨t, x⟩, hn, hs⟩ := hs
    by_cases hid : memory = true ∧ (cleanStart = true ∨ id ≠ none) ∧ idRc id ≠ .success
    · obtain ⟨rfl, hfoul⟩ := refused_mosquittoNew hid h hn
      cases hs
      refine iff_of_false (fun ho => ?_) (by simpa [refusesId] using hid)
      have hclean : t.foul = false := ho.clean
      rw [hfoul] at hclean
      cases hclean
    · refine iff_of_true ?_ (decide_eq_false hid)
      have hnew := owns_mosquittoNew hid h hn
      cases x with
      | none =>
        cases hs
        exact hnew
      | some m =>
        cases hs
        refine hnew.perm ?_
        show ((p.clients ++ [m]).flatMap Descriptors.all).Perm (m.all ++ p.clients.flatMap Descriptors.all)
        rw [List.flatMap_append, List.flatMap_singleton]
        exact List.perm_append_comm
  | reinitialise i id cleanStart pair =>
    simp only [Process.step, Option.bind_eq_bind, Option.bind_eq_some_iff] at hs
    obtain ⟨m, hm, ⟨t, m', rc⟩, hr, hs⟩ := hs
    cases hs
    have howns := h.perm (all_perm hm).symm
    by_cases hid : (cleanStart = true ∨ id ≠ none) ∧ idRc id ≠ .success
    · obtain ⟨rfl, rfl, -⟩ := refused_mosquittoReinitialise hid hr
      refine iff_of_false (fun ho => ?_) (by simpa [refusesId] using hid)
      have hzero := ((set_perm hm ⟨none, some 0, some 0⟩).nodup_iff.mp ho.once)
      simp [Descriptors.all] at hzero
    · refine iff_of_true ?_ (decide_eq_false hid)
      exact (owns_mosquittoReinitialise hid howns hr).perm (set_perm hm m')
  | reconnect i bind blocking l sent =>
    simp only [Process.step, Option.bind_eq_bind, Option.bind_eq_some_iff] at hs
    obtain ⟨m, hm, ⟨t, m'⟩, hr, hs⟩ := hs
    cases hs
    refine iff_of_true ?_ rfl
    exact (owns_mosquittoReconnect (h.perm (all_perm hm).symm) hr).perm (set_perm hm m')
  | socketClose i =>
    simp only [Process.step, Option.bind_eq_bind, Option.bind_eq_some_iff] at hs
    obtain ⟨m, hm, hs⟩ := hs
    cases hs
    refine iff_of_true ?_ rfl
    exact (owns_netSocketClose (h.perm (all_perm hm).symm)).perm (set_perm hm _)
  | destroy i =>
    simp only [Process.step, Option.bind_eq_bind, Option.bind_eq_some_iff] at hs
    obtain ⟨m, hm, hs⟩ := hs
    cases hs
    exact iff_of_true (owns_destroy (h.perm (all_perm hm).symm)) rfl
  | others l =>
    simp only [Process.step] at hs
    split at hs
    · rename_i hfree
      cases hs
      refine iff_of_true ⟨h.exact, h.once, ?_, h.clean⟩ rfl
      intro a ha
      have hall := List.all_eq_true.mp hfree a (h.exact.mem_iff.mp ha)
      exact of_decide_eq_true hall
    · cases hs

/-- The clients have all descriptors that the library has open, each once, and no other descriptor has been
    closed, all along exactly when no client id is refused. -/
theorem descriptors_iff (others : List Nat) (calls : List Call) :
    Machine.Along Process.step (fun p => Owns p.table p.all) ⟨⟨[], others, false⟩, []⟩ calls ↔
      Machine.Meets Process.step (fun _ c => refusesId c = false) ⟨⟨[], others, false⟩, []⟩ calls := by
  refine Machine.along_iff_meets (J := fun _ => True) (fun _ _ _ _ _ => trivial) ?_ calls trivial ?_
  · intro p c p' _ h hs
    exact step_owns h hs
  · exact ⟨.refl _, List.nodup_nil, List.forall_mem_nil _, rfl⟩

end Runs

/-- An empty client id: the standard input is closed. -/
example : (Process.step ⟨⟨[], [0, 1, 2], false⟩, []⟩ (.create true (some []) true (.made 3 4 true true)
    .failed)).map
    (fun p => (p.table.held, p.table.others, p.table.foul)) = some ([], [1, 2], true) := by decide

end Artemisia.Net
