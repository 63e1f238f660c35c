/-
  Artemisia.Client.Release — the messages that wait for an acknowledgement of their PUBLISH, and on which
  connection it went out.

  `message__release_to_inflight` has a message wait before it is sent. The message is carried if the send
  succeeds, or if there is no socket to be stranded on.

  Proved:
  - `kept_releaseLoop`:   a release that can send all that it takes on leaves only messages that are carried.
  - `kept_handlePacket`:  so does a packet, if the release it comes to can.
  - `kept_retryCheck`:    a retry has no message wait.
  - `reset_waits`:        after `message__reconnect_reset` none does.
-/
import Artemisia.Client.Store

namespace Artemisia.Client

open Artemisia.Property

variable (alloc : Alloc) (m : Mosq) (away : Bool)

/-! ## What waits -/

def waiting (e : Message) : Bool := e.state = .waitForPuback || e.state = .waitForPubrec

/-- No message waits while the socket is being replaced; else each that waits was sent on this connection. -/
def Kept (away : Bool) (sock : Option Nat) (l : List Message) : Prop :=
  ∀ e ∈ l, waiting e = true → away = false ∧ ∀ c, sock = some c → e.sentOn = some c

theorem Kept.nil (sock : Option Nat) : Kept away sock [] := fun _ h => (by cases h)

theorem kept_cons {sock : Option Nat} {e : Message} {l : List Message} : Kept away sock (e :: l) ↔
    (waiting e = true → away = false ∧ ∀ c, sock = some c → e.sentOn = some c) ∧ Kept away sock l := by
  simp [Kept]

theorem Kept.sub {sock : Option Nat} {l l' : List Message} (h : Kept away sock l) (hs : ∀ e ∈ l', e ∈ l) :
    Kept away sock l' := fun e he => h e (hs e he)

/-- Messages that do not wait can be put in. -/
theorem Kept.subset {sock : Option Nat} {l l' : List Message} (h : Kept away sock l)
    (hs : ∀ e ∈ l', waiting e = true → e ∈ l) : Kept away sock l' := fun e he hw => h e (hs e he hw) hw

/-! ## Release -/

/-- The messages that a release takes on with this quota. -/
def released (quota : Nat) (l : List Message) : List Message :=
  (l.filter fun e => e.qos > 0 ∧ e.state = .invalid).take quota

/-- A release takes on nothing while the socket is being replaced, and with a socket only what can
    be sent: there is memory for it. What is too large ends the process. -/
def frees (alloc : Alloc) (away : Bool) (m : Mosq) : Bool :=
  (released m.msgsOut.inflightQuota m.msgsOut.inflight).all fun e =>
    !away && (m.sock.isNone || canPublish alloc m e.released)

theorem released_keep {quota : Nat} {cur : Message} {rest : List Message}
    (h : ¬ (cur.qos > 0 ∧ cur.state = .invalid)) :
    released quota (cur :: rest) = released quota rest := by
  unfold released
  rw [List.filter_cons_of_neg (by simpa using h)]

theorem released_take {quota : Nat} {cur : Message} {rest : List Message}
    (h : cur.qos > 0 ∧ cur.state = .invalid) :
    released (quota + 1) (cur :: rest) = cur :: released quota rest := by
  unfold released
  rw [List.filter_cons_of_pos (by simpa using h), List.take_succ_cons]

theorem kept_releaseLoop {l : List Message} (h : Kept away m.sock l)
    (hf : ∀ e ∈ released m.msgsOut.inflightQuota l, away = false ∧
    (m.sock = none ∨ canPublish alloc m e.released = true)) :
    Kept away m.sock (releaseLoop alloc m l).2.1 := by
  induction l generalizing m with
  | nil => exact h
  | cons cur rest ih =>
    obtain ⟨hcur, hrest⟩ := (kept_cons away).mp h
    rcases Nat.eq_zero_or_pos m.msgsOut.inflightQuota with hq | hq
    · rw [releaseLoop_full _ hq]
      exact h
    by_cases hi : cur.qos > 0 ∧ cur.state = .invalid
    · obtain ⟨q, hq'⟩ := Nat.exists_eq_succ_of_ne_zero hq.ne'
      rw [hq', released_take hi] at hf
      obtain ⟨haway, hc⟩ := hf cur (List.mem_cons_self ..)
      cases hp : canPublish alloc m cur.released with
      | true =>
        rw [releaseLoop_send hq hi hp]
        refine (kept_cons away).mpr ⟨fun _ => ⟨haway, fun c hs => hs⟩, ?_⟩
        refine ih (decrementSendQuota (packetQueue m (publishPacket m cur.released))) hrest (fun e he => ?_)
        have hd : (decrementSendQuota (packetQueue m (publishPacket m cur.released))).msgsOut.inflightQuota =
            q := by
          simp [decrementSendQuota, MsgData.decrementQuota, hq']
        rw [hd] at he
        exact hf e (List.mem_cons_of_mem _ he)
      | false =>
        obtain ⟨rc, -, e⟩ := releaseLoop_fail rest hq hi hp
        rw [e]
        -- the send can only have failed for want of a socket
        have hs : m.sock = none := hc.resolve_right (by simp [hp])
        exact (kept_cons away).mpr ⟨fun _ => ⟨haway, fun c h => by simp [hs] at h⟩, hrest⟩
    · rw [released_keep hi] at hf
      rw [releaseLoop_keep hq hi]
      exact (kept_cons away).mpr ⟨hcur, ih m hrest hf⟩

theorem kept_release (h : Kept away m.sock m.msgsOut.inflight) (hf : frees alloc away m = true) :
    Kept away m.sock (messageReleaseToInflight alloc m).1.msgsOut.inflight := by
  refine kept_releaseLoop alloc m away h (fun e he => ?_)
  simpa using List.all_eq_true.mp hf e he

/-! ## Publishing -/

/-- The client when a publish call comes to `message__release_to_inflight`. -/
def publishRelease (m : Mosq) (a : PublishArgs) : Option Mosq :=
  if publishChecks m a = .success ∧ a.qos ≠ 0 ∧ a.copies then
    let r := midGenerate m
    some { r.1 with published := m.published + 1, msgsOut := m.msgsOut.append (messageOf m a r.2) }
  else none

theorem kept_publish (a : PublishArgs) (h : Kept away m.sock m.msgsOut.inflight)
    (hf : (publishRelease m a).all (frees alloc away) = true) :
    Kept away m.sock (mosquittoPublishV5 alloc m a).1.msgsOut.inflight := by
  unfold mosquittoPublishV5
  cases hc : publishChecks m a with
  | success =>
    dsimp only
    split
    · rw [msgsOut_sendPublish]
      exact h
    · rename_i h0
      split
      · rename_i hcopies
        rw [publishRelease, if_pos ⟨hc, h0, hcopies⟩, Option.all_some] at hf
        refine kept_release alloc _ away (h.subset away (fun e he hw => ?_)) hf
        rcases List.mem_append.mp he with he | he
        · exact he
        · rw [List.mem_singleton.mp he] at hw
          simp [waiting, messageOf] at hw
      · exact h
  | _ => exact h

/-! ## Packets -/

/-- The client when a packet comes to `message__release_to_inflight`. -/
def packetRelease (m : Mosq) : InPacket → Option Mosq
  | .pubackcomp type mid tail =>
    if m.state ≠ .active then none
    else match readAck m mid tail with
    | .error _ => none
    | .ok (mid, _) =>
      let m := incrementSendQuota m
      match messageRemove m.msgsOut mid type.qos with
      | .ok (_, msgsOut) => some (completeMessage m msgsOut mid)
      | .error .notFound => some m
      | .error _ => none
  | .pubrec mid tail =>
    if m.state ≠ .active then none
    else match readAck m mid tail with
    | .error _ => none
    | .ok (mid, reasonCode) =>
      if reasonCode < 0x80 ∨ m.protocol ≠ .mqtt5 then none
      else match messageRemove m.msgsOut mid 2 with
      | .ok (_, msgsOut) => some (incrementSendQuota (completeMessage m msgsOut mid))
      | .error _ => some (incrementSendQuota m)
  | _ => none

theorem kept_incrementSendQuota {sock : Option Nat} (h : Kept away sock m.msgsOut.inflight) :
    Kept away sock (incrementSendQuota m).msgsOut.inflight := by
  simp only [incrementSendQuota, MsgData.incrementQuota]
  split <;> exact h

theorem kept_remove {d d' : MsgData} {mid : UInt16} {qos : Nat} {e : Message} {sock : Option Nat}
    (h : Kept away sock d.inflight) (he : messageRemove d mid qos = .ok (e, d')) :
    Kept away sock d'.inflight := by
  unfold messageRemove at he
  split at he
  · cases he
  · split at he
    · cases he
    · cases he
      exact h.sub away (fun x hx => List.mem_of_mem_eraseP hx)

theorem kept_setFirstState {sock : Option Nat} {mid : UInt16} {l : List Message} (h : Kept away sock l) :
    Kept away sock (setFirstState mid .waitForPubcomp l) := by
  induction l with
  | nil => exact h
  | cons msg rest ih =>
    obtain ⟨hmsg, hrest⟩ := (kept_cons away).mp h
    unfold setFirstState
    split
    · exact (kept_cons away).mpr ⟨fun hw => by simp [waiting] at hw, hrest⟩
    · exact (kept_cons away).mpr ⟨hmsg, ih hrest⟩

theorem kept_receiveMessage (mid : UInt16) (h : Kept away m.sock m.msgsOut.inflight) :
    Kept away m.sock (receiveMessage alloc m mid).1.msgsOut.inflight := by
  unfold receiveMessage messageOutUpdate
  cases m.msgsOut.inflight.find? (·.mid = mid) with
  | none => simpa using h
  | some e =>
    dsimp only
    split
    · rename_i he
      split at he
      · cases he
      · cases he
        simpa using kept_setFirstState away h
    · rename_i he
      split at he <;> cases he
    · exact h

theorem kept_handlePubackcomp (type : Ack) (mid : Except Rc UInt16) (tail : Except Rc UInt8)
    (h : Kept away m.sock m.msgsOut.inflight)
    (hf : (packetRelease m (.pubackcomp type mid tail)).all (frees alloc away) = true) :
    Kept away m.sock (handlePubackcomp alloc m type mid tail).1.msgsOut.inflight := by
  have hq := kept_incrementSendQuota m away h
  unfold handlePubackcomp
  simp only [packetRelease] at hf
  split
  · exact h
  · rename_i hs
    rw [if_neg hs] at hf
    cases hr : readAck m mid tail with
    | error rc => exact hq
    | ok r =>
      simp only [hr] at hf
      dsimp only
      unfold acknowledge
      cases he : messageRemove (incrementSendQuota m).msgsOut r.1 type.qos with
      | ok x =>
        simp only [he, Option.all_some] at hf
        exact kept_release alloc (completeMessage (incrementSendQuota m) x.2 r.1) away (kept_remove away hq he) hf
      | error rc =>
        cases rc with
        | notFound =>
          simp only [he, Option.all_some] at hf
          exact kept_release alloc (incrementSendQuota m) away hq hf
        | _ => exact hq

theorem kept_handlePubrec (mid : Except Rc UInt16) (tail : Except Rc UInt8)
    (h : Kept away m.sock m.msgsOut.inflight)
    (hf : (packetRelease m (.pubrec mid tail)).all (frees alloc away) = true) :
    Kept away m.sock (handlePubrec alloc m mid tail).1.msgsOut.inflight := by
  unfold handlePubrec
  simp only [packetRelease] at hf
  split
  · exact h
  · rename_i hs
    rw [if_neg hs] at hf
    cases hr : readAck m mid tail with
    | error rc => exact h
    | ok r =>
      simp only [hr] at hf
      dsimp only
      split
      · exact kept_receiveMessage alloc m away r.1 h
      · rename_i hc
        rw [if_neg hc] at hf
        unfold refuseMessage
        cases he : messageRemove m.msgsOut r.1 2 with
        | ok x =>
          simp only [he, Option.all_some] at hf
          exact kept_release alloc (incrementSendQuota (completeMessage m x.2 r.1)) away
            (kept_incrementSendQuota _ away (kept_remove away h he)) hf
        | error rc =>
          simp only [he, Option.all_some] at hf
          exact kept_release alloc (incrementSendQuota m) away (kept_incrementSendQuota m away h) hf

theorem kept_handlePacket (p : InPacket) (h : Kept away m.sock m.msgsOut.inflight)
    (hf : (packetRelease m p).all (frees alloc away) = true) :
    Kept away m.sock (handlePacket alloc m p).1.msgsOut.inflight := by
  cases p with
  | pubackcomp type mid tail => exact kept_handlePubackcomp alloc m away type mid tail h hf
  | pubrec mid tail => exact kept_handlePubrec alloc m away mid tail h hf
  | connack flags reason l => simpa [handlePacket, msgsOut_handleConnack] using h
  | disconnect reason tail =>
    simp only [handlePacket, handleDisconnect]
    repeat' split
    all_goals simpa using h
  | _ =>
    simp only [handlePacket]
    repeat' split
    all_goals simpa using h

/-! ## Retry and reset -/

theorem kept_retryLoop {sock : Option Nat} {l : List Message} (h : Kept away sock l) :
    Kept away sock (retryLoop alloc m l).2 := by
  induction l generalizing m with
  | nil => exact h
  | cons msg rest ih =>
    obtain ⟨hmsg, hrest⟩ := (kept_cons away).mp h
    unfold retryLoop
    split
    · rename_i hs
      exact (kept_cons away).mpr ⟨fun hw => (by split at hw <;> simp [waiting, hs] at hw), ih _ hrest⟩
    · rename_i hs
      exact (kept_cons away).mpr ⟨fun hw => (by split at hw <;> simp [waiting, hs] at hw), ih _ hrest⟩
    · exact (kept_cons away).mpr ⟨hmsg, ih _ hrest⟩
    · exact (kept_cons away).mpr ⟨hmsg, ih _ hrest⟩
    · exact (kept_cons away).mpr ⟨hmsg, ih _ hrest⟩
    · exact (kept_cons away).mpr ⟨hmsg, ih _ hrest⟩

theorem kept_retryCheck {sock : Option Nat} (h : Kept away sock m.msgsOut.inflight) :
    Kept away sock (messageRetryCheck alloc m).msgsOut.inflight := kept_retryLoop alloc m away h

theorem kept_connackSwitch (reason : UInt8) {sock : Option Nat} (h : Kept away sock m.msgsOut.inflight) :
    Kept away sock (connackSwitch alloc m reason).1.msgsOut.inflight := by
  unfold connackSwitch
  split
  · dsimp only
    split
    · exact kept_retryCheck alloc _ away h
    · exact kept_retryCheck alloc _ away h
  · split <;> exact h

theorem waits_reset {e : Message} (h : OutOk e) : waiting { e with state := resetOutState e } = false := by
  rcases h with ⟨hq, hs⟩ | ⟨hq, hs⟩
  · simp [waiting, resetOutState, hq]
  · rcases hs with hs | hs | hs | hs | hs <;> simp [waiting, resetOutState, hq, hs]

theorem waits_resetOutLoop {quota : Nat} {l : List Message} (h : StoreOk l) :
    ∀ e ∈ (resetOutLoop quota l).2, waiting e = false := by
  induction l generalizing quota with
  | nil => exact fun e he => (by cases he)
  | cons msg rest ih =>
    obtain ⟨hmsg, hrest⟩ := storeOk_cons.mp h
    cases quota with
    | zero => exact List.forall_mem_cons.mpr ⟨rfl, ih hrest⟩
    | succ quota => exact List.forall_mem_cons.mpr ⟨waits_reset hmsg, ih hrest⟩

theorem reset_waits (h : StoreOk m.msgsOut.inflight) (sock : Option Nat) :
    Kept away sock (messageReconnectReset m).msgsOut.inflight := fun e he hw => by
  rw [waits_resetOutLoop h e he] at hw
  cases hw

end Artemisia.Client
