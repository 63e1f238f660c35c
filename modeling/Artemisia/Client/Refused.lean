/-
  Artemisia.Client.Refused — a publish that is refused for its size.

  `mosquitto_publish_v5` compares the size with the server's limit before it changes anything, but without
  the length of the properties' own length. `send__real_publish` compares it again, with that length, when the
  message is in the store already; it then reports the message to a log without a client, and the process ends. So
  may another message do that the release comes to first.

  Proved:
  - `releaseLoop_aborted`: when a release ends the process.
  - `publishLength_new`:   what the second comparison has that the first has not.
  - `publish_aborts_iff`:  when a publish of QoS 1 or 2 does.
  - `refused_untouched`:   one that returns `MOSQ_ERR_OVERSIZE_PACKET` has changed nothing.
-/
import Artemisia.Client.Counted
import Artemisia.Client.Release

namespace Artemisia.Client

open Artemisia.Property

/-! ## Which comparison refuses -/

/-- `send__publish` refuses the message for its size. -/
def tooLarge (m : Mosq) (e : Message) : Bool := m.sock.isSome ∧ checkOversize m (publishLength m e).1 ≠ .success

/-- The first that cannot be sent, of the messages that a release takes on, is too large. -/
def stopsAtTooLarge (alloc : Alloc) (m : Mosq) (l : List Message) : Bool :=
  ((released m.msgsOut.inflightQuota l).find? fun e => !canPublish alloc m e.released).any fun e =>
    tooLarge m e.released

section Loop

variable {alloc : Alloc} {m : Mosq}

/-- A send ends the process only where it would report the size. -/
theorem sendPublish_aborted {e : Message} : (sendPublish alloc m e).2 = .aborted ↔ tooLarge m e = true := by
  rw [tooLarge, decide_eq_true_eq, Option.isSome_iff_ne_none]
  unfold sendPublish
  by_cases hs : m.sock = none
  · rw [if_pos hs]
    simp [hs]
  rw [if_neg hs]
  unfold sendRealPublish
  by_cases ho : checkOversize m (publishLength m e).1 ≠ .success
  · rw [if_pos ho]
    exact iff_of_true rfl ⟨hs, ho⟩
  rw [if_neg ho]
  refine iff_of_false ?_ (fun h => ho h.2)
  unfold sendPacket packetAlloc
  split_ifs <;> simp

/-- No send returns the error of the first comparison. -/
theorem sendPublish_sized (e : Message) : (sendPublish alloc m e).2 ≠ .oversizePacket := by
  unfold sendPublish sendRealPublish sendPacket packetAlloc
  split_ifs <;> simp

/-- A release returns what the send that failed has returned. -/
theorem releaseLoop_stop {cur : Message} (rest : List Message) (hq : 0 < m.msgsOut.inflightQuota)
    (h : cur.qos > 0 ∧ cur.state = .invalid) (hc : canPublish alloc m cur.released = false) :
    (releaseLoop alloc m (cur :: rest)).2.2 = (sendPublish alloc m cur.released).2 := by
  obtain ⟨rc, hrc, e⟩ := sendPublish_fail hc
  simp only [releaseLoop, hq, h, e, if_true, and_self]

/-- A release ends the process at the first message that it cannot send, if that one is too large. -/
theorem releaseLoop_aborted (l : List Message) :
    (releaseLoop alloc m l).2.2 = .aborted ↔ stopsAtTooLarge alloc m l = true := by
  unfold stopsAtTooLarge
  induction l generalizing m with
  | nil => simp [releaseLoop, released]
  | cons cur rest ih =>
    rcases Nat.eq_zero_or_pos m.msgsOut.inflightQuota with hq | hq
    · rw [releaseLoop_full _ hq, released, hq, List.take_zero]
      simp
    by_cases hi : cur.qos > 0 ∧ cur.state = .invalid
    · obtain ⟨q, hq'⟩ := Nat.exists_eq_succ_of_ne_zero hq.ne'
      rw [hq', released_take hi]
      cases hc : canPublish alloc m cur.released with
      | true =>
        have hd : (decrementSendQuota (packetQueue m (publishPacket m cur.released))).msgsOut.inflightQuota =
            q := by
          simp [decrementSendQuota, MsgData.decrementQuota, hq']
        have hrest := ih (m := decrementSendQuota (packetQueue m (publishPacket m cur.released)))
        rw [hd] at hrest
        rw [releaseLoop_send hq hi hc, List.find?_cons_of_neg (by simp [hc]), hrest]
        -- sending one message does not change what can be sent
        rfl
      | false =>
        rw [releaseLoop_stop rest hq hi hc, List.find?_cons_of_pos (by simp [hc]), Option.any_some]
        exact sendPublish_aborted
    · rw [released_keep hi, releaseLoop_keep hq hi]
      exact ih

theorem releaseLoop_sized (l : List Message) : (releaseLoop alloc m l).2.2 ≠ .oversizePacket := by
  induction l generalizing m with
  | nil => simp [releaseLoop]
  | cons cur rest ih =>
    rcases Nat.eq_zero_or_pos m.msgsOut.inflightQuota with hq | hq
    · rw [releaseLoop_full _ hq]
      simp
    by_cases hi : cur.qos > 0 ∧ cur.state = .invalid
    · cases hc : canPublish alloc m cur.released with
      | true =>
        rw [releaseLoop_send hq hi hc]
        exact ih
      | false =>
        rw [releaseLoop_stop rest hq hi hc]
        exact sendPublish_sized _
    · rw [releaseLoop_keep hq hi]
      exact ih

end Loop

/-! ## Publishing -/

section Publish

variable (alloc : Alloc) (m : Mosq) (a : PublishArgs)

/-- The length that `mosquitto_publish_v5` compares leaves out how long the length of the properties is. -/
theorem publishLength_new (h5 : m.protocol = .mqtt5) (hq : 0 < a.qos) (hlen : getLengthAll a.outgoing < 268435456)
    (mid : UInt16) : (publishLength m (messageOf m a mid).released).1 =
      1 + 2 + (a.topicBytes.getD []).length + a.payload.length + getLengthAll a.outgoing + 1 +
        varintBytes (getLengthAll a.outgoing) := by
  have hv : ¬ varintBytes (getLengthAll a.outgoing) > 4 := by
    simp only [varintBytes]
    split_ifs <;> omega
  have hpos : a.qos.toNat > 0 := by omega
  simp only [publishLength, messageOf, Message.released, h5, hv, hpos, if_true, if_false]
  omega

variable {alloc m a}

theorem publish_refused (hc : publishChecks m a ≠ .success) :
    mosquittoPublishV5 alloc m a = (m, publishChecks m a) := by
  unfold mosquittoPublishV5
  split
  · rename_i hs
    exact absurd hs hc
  · rfl

/-- No check ends the process. -/
theorem publishChecks_returns : publishChecks m a ≠ .aborted := by
  have hall : checkAll .publish a.outgoing ≠ .aborted := by
    rcases checkAll_rc .publish a.outgoing with h | h | h <;> simp [h]
  unfold publishChecks
  dsimp only
  repeat' split
  all_goals simp_all

variable (alloc m a)

/-- A publish of QoS 1 or 2 that its checks let through ends the process when a property cannot be copied,
    and when the first message waiting to be sent that cannot be is too large. -/
theorem publish_aborts_iff (hq : 0 < a.qos) : (mosquittoPublishV5 alloc m a).2 = .aborted ↔
    publishChecks m a = .success ∧ (a.copies = true →
      stopsAtTooLarge alloc m (m.msgsOut.inflight ++ [messageOf m a (midGenerate m).2]) = true) := by
  by_cases hc : publishChecks m a = .success
  · have h0 : a.qos ≠ 0 := by omega
    rw [and_iff_right hc]
    cases hcopies : a.copies with
    | false => simp [mosquittoPublishV5, hc, h0, hcopies]
    | true =>
      simp only [mosquittoPublishV5, hc, h0, hcopies, if_false, if_true, forall_const]
      exact releaseLoop_aborted (m.msgsOut.inflight ++ [messageOf m a (midGenerate m).2])
  · rw [publish_refused hc]
    exact iff_of_false publishChecks_returns (fun h => hc h.1)

/-- It does not where the properties can be copied and there is no socket, or no limit. -/
theorem publish_returns (hq : 0 < a.qos) (hcopies : a.copies = true)
    (h : m.sock = none ∨ m.maximumPacketSize = 0) :
    (mosquittoPublishV5 alloc m a).2 ≠ .aborted := by
  rw [ne_eq, publish_aborts_iff alloc m a hq]
  rintro ⟨-, hstop⟩
  have hfits (e : Message) : tooLarge m e = false := by
    rcases h with h | h
    · simp [tooLarge, h]
    · simp [tooLarge, checkOversize, h]
  have hno := hstop hcopies
  simp [stopsAtTooLarge, hfits] at hno

/-- A publish that returns `MOSQ_ERR_OVERSIZE_PACKET` leaves no trace. -/
theorem refused_untouched (h : (mosquittoPublishV5 alloc m a).2 = .oversizePacket) :
    (mosquittoPublishV5 alloc m a).1 = m := by
  by_cases hc : publishChecks m a = .success
  · -- once the checks have let it through, nothing returns the error
    exfalso
    simp only [mosquittoPublishV5, hc] at h
    split at h
    · exact sendPublish_sized _ h
    split at h
    · exact releaseLoop_sized _ h
    · cases h
  · rw [publish_refused hc]

end Publish

/-- A client on a connection to a server that takes packets of so many bytes. -/
def takingUpTo (n : Nat) : Mosq :=
  { Mosq.new (some []) true with sock := some 0, protocol := .mqtt5, state := .active, maximumPacketSize := n }

/-- A QoS 1 message without payload on a topic of one letter. -/
def letter : PublishArgs := ⟨some (CString.of [116]), [], 1, false, [], true⟩

/-- The first comparison counts six bytes. -/
theorem refused_untouched_letter :
    (mosquittoPublishV5 (fun _ => true) (takingUpTo 5) letter).2 = .oversizePacket ∧
    (mosquittoPublishV5 (fun _ => true) (takingUpTo 5) letter).1 = takingUpTo 5 := by
  have hrc : (mosquittoPublishV5 (fun _ => true) (takingUpTo 5) letter).2 = .oversizePacket := by decide
  exact ⟨hrc, refused_untouched _ _ _ hrc⟩

/-- The second one counts seven. -/
example : (mosquittoPublishV5 (fun _ => true) (takingUpTo 6) letter).2 = .aborted := by decide

end Artemisia.Client
