/-
  Artemisia.Swift.SameConnect — do the CONNECTs after a `connect()` all say the same?

  `mosquitto_reconnect` has no properties to give, and sends the keepalive that the client has by then: a
  CONNACK may have replaced it. While `connect()` is on its way the loop thread may also reconnect with what was
  set before.

  Proved:
  - `repeats_step`:     a step that meets `Repeats` sends the CONNECT again, or changes nothing that it says.
  - `same_connect`:     so over a run from `connect()` to the next one, all CONNECTs are the same.
  - `properties_lost`:  the CONNECT of an automatic reconnect does not have the properties of the first.
-/
import Artemisia.Swift.Version
import Artemisia.Threads.Calls

namespace Artemisia.Swift

open Artemisia.Property Artemisia.Client Artemisia.Threads

/-! ## The CONNECTs of a run -/

def connects (o : Obj) : List ConnectData := o.sys.m.outflow.connects

/-- The CONNECTs since then all say the same. -/
def SameSince (o1 o : Obj) : Prop := ∃ l, connects o = l ++ connects o1 ∧ ∀ a ∈ l, ∀ b ∈ l, a = b

/-- The properties of a CONNACK, if `handle__connack` takes anything from them. -/
def takenFrom (m : Mosq) : InPacket → Option (List MosquittoProperty)
  | .connack (.ok _) (.ok _) properties =>
    match (if m.protocol = .mqtt5 then properties else .ok []) with
    | .error _ => none
    | .ok properties =>
      if (readPropertyString properties PropId.assignedClientIdentifier.code false).isSome ∧ m.id.isSome then none
      else some properties
  | _ => none

def assignsId (m : Mosq) (p : InPacket) : Bool :=
  (takenFrom m p).any fun l => (readPropertyString l PropId.assignedClientIdentifier.code false).isSome

/-- The CONNACK brings a keepalive other than the one in force. -/
def movesKeepalive (m : Mosq) (p : InPacket) : Bool :=
  (takenFrom m p).any fun l => (readPropertyInt16 l PropId.serverKeepAlive.code false).any (·.toNat ≠ m.keepalive)

/-- Until the next `connect()` the configuration is not changed, and the server assigns no client id. -/
def Unchanged (o : Obj) : Call → Bool
  | .setWill _ | .clearWill | .connect _ => false
  | .loop (.packet p _ _) => !assignsId o.sys.m p
  | _ => true

/-- The properties say no more than a Receive Maximum, which the client takes over. -/
def plain : List MosquittoProperty → Bool
  | [] => true
  | [p] => p.identifier = .receiveMaximum
  | _ => false

/-- A Receive Maximum among the properties is the one in force. -/
def adopted (m : Mosq) (l : List MosquittoProperty) : Bool :=
  (readPropertyInt16 l PropId.receiveMaximum.code false).all (· = UInt16.ofNat m.msgsIn.inflightMaximum)

/-- `mosquitto_connect_bind_v5` refuses its arguments. -/
def refuses (c : ConnectConfig) : Bool := checkAll .connect c.properties ≠ .success ∨ c.port ≤ 0 ∨ c.keepAlive < 5

/-- What `connect()` has still to set is in force already. -/
def inTime (m : Mosq) : QueuePc → Bool
  | .loopStart c | .connectBind c =>
    refuses c ∨ (m.keepalive = c.keepAlive.toNat % 65536 ∧ (m.id.isSome ∨ m.protocol = .mqtt5) ∧
      (m.protocol = .mqtt5 → adopted m c.properties))
  | .setNew l | .rec_ _ l => m.protocol = .mqtt5 → adopted m l
  | .idle | .discSend .. => true

/-- No CONNACK brings another keepalive, and the loop thread sends no CONNECT before what `connect()` sets is in
    force. -/
def Repeats (o : Obj) : Call → Bool
  | .loop (.packet p _ _) => !movesKeepalive o.sys.m p
  | .loop (.tick _) => o.sys.loop = .rec_ .sendConnect → inTime o.sys.m o.sys.queue
  | _ => true

/-! ## What a CONNECT is made of -/

structure Terms where
  protocol : Protocol
  cleanStart : Bool
  id : Option Bytes
  username : Option Bytes
  password : Option Bytes
  keepalive : Nat
  will : Option Will
  receiveMaximum : UInt16

def terms (m : Mosq) : Terms :=
  ⟨m.protocol, m.cleanStart, m.id, m.username, m.password, m.keepalive, m.will,
    UInt16.ofNat m.msgsIn.inflightMaximum⟩

section Frames

variable {m m' : Mosq}

theorem terms_settings (h : m'.settings = m.settings) : terms m' = terms m := by
  have h1 := congrArg Settings.protocol h
  have h2 := congrArg Settings.cleanStart h
  have h3 := congrArg Settings.id h
  have h4 := congrArg Settings.username h
  have h5 := congrArg Settings.password h
  have h6 := congrArg Settings.keepalive h
  have h7 := congrArg Settings.will h
  have h8 := congrArg Settings.inMaximum h
  dsimp only [Mosq.settings] at h1 h2 h3 h4 h5 h6 h7 h8
  rw [terms, h1, h2, h3, h4, h5, h6, h7, h8]
  rfl

theorem connectDataOf_terms (h : terms m' = terms m) (l : List MosquittoProperty) :
    connectDataOf m' l = connectDataOf m l := by
  have hdata (m : Mosq) : connectDataOf m l = ⟨(terms m).protocol, (terms m).cleanStart, (terms m).id,
      (terms m).username, (terms m).password, (terms m).keepalive, (terms m).will,
      if (terms m).protocol ≠ .mqtt5 then []
      else if readPropertyInt16 l PropId.receiveMaximum.code false = none then
        l ++ [⟨.receiveMaximum, (terms m).receiveMaximum⟩]
      else l⟩ := rfl
  rw [hdata, hdata, h]

theorem adopted_terms (h : terms m' = terms m) (l : List MosquittoProperty) : adopted m' l = adopted m l := by
  have hr : UInt16.ofNat m'.msgsIn.inflightMaximum = UInt16.ofNat m.msgsIn.inflightMaximum :=
    congrArg Terms.receiveMaximum h
  rw [adopted, hr]
  rfl

theorem inTime_terms (h : terms m' = terms m) (pc : QueuePc) : inTime m' pc = inTime m pc := by
  have hk : m'.keepalive = m.keepalive := congrArg Terms.keepalive h
  have hi : m'.id = m.id := congrArg Terms.id h
  have hp : m'.protocol = m.protocol := congrArg Terms.protocol h
  cases pc with
  | loopStart c => simp only [inTime, hk, hi, hp, adopted_terms h]
  | connectBind c => simp only [inTime, hk, hi, hp, adopted_terms h]
  | setNew l => simp only [inTime, hp, adopted_terms h]
  | rec_ pc l => simp only [inTime, hp, adopted_terms h]
  | _ => rfl

theorem terms_sendPublish (alloc : Alloc) (msg : Message) : terms (sendPublish alloc m msg).1 = terms m := by
  cases hc : canPublish alloc m msg with
  | true =>
    rw [sendPublish_ok hc]
    rfl
  | false =>
    obtain ⟨rc, -, e⟩ := sendPublish_fail hc
    rw [e]

/-- A CONNACK that assigns no client id and brings no other keepalive leaves the terms. -/
theorem terms_handleConnack {flags reason : Except Rc UInt8} {l : Except Rc (List MosquittoProperty)}
    (ha : assignsId m (.connack flags reason l) = false)
    (hk : movesKeepalive m (.connack flags reason l) = false) :
    terms (handleConnack m flags reason l).1 = terms m := by
  unfold handleConnack
  cases flags with
  | error rc => rfl
  | ok f =>
    cases reason with
    | error rc => rfl
    | ok r =>
      cases hl : (if m.protocol = .mqtt5 then l else .ok [] : Except Rc (List MosquittoProperty)) with
      | error rc =>
        dsimp only
        split
        · rfl
        · rfl
      | ok l' =>
        simp only [assignsId, movesKeepalive, takenFrom, hl] at ha hk
        dsimp only
        split
        · rfl
        · rename_i h1 h2
          simp [h1, h2] at ha
        · rename_i h1
          simp only [h1, Option.isSome_none, Bool.false_eq_true, false_and, if_false, Option.any_some] at hk
          have hkeep : ((readPropertyInt16 l' PropId.serverKeepAlive.code false).map UInt16.toNat).getD
              m.keepalive =
              m.keepalive := by
            cases hv : readPropertyInt16 l' PropId.serverKeepAlive.code false with
            | none => rfl
            | some v => simpa [hv] using hk
          show Terms.mk m.protocol m.cleanStart m.id m.username m.password
            (((readPropertyInt16 l' PropId.serverKeepAlive.code false).map UInt16.toNat).getD m.keepalive)
              m.will _ = _
          rw [hkeep]
          rfl

theorem adoptReceiveMaximum_nil : adoptReceiveMaximum m [] = m := by
  unfold adoptReceiveMaximum
  split
  · rename_i h
    cases h
  · rfl

/-- A CONNECT whose properties are plain is repeated without them. -/
theorem plain_repeats {l : List MosquittoProperty} (h : plain l = true) (h3 : m.protocol ≠ .mqtt5 → l = []) :
    connectDataOf (adoptReceiveMaximum m l) [] = connectDataOf m l := by
  match l with
  | [] =>
    rw [adoptReceiveMaximum_nil]
  | [p] =>
    obtain ⟨i, v⟩ := p
    obtain rfl : i = .receiveMaximum := by simpa [plain] using h
    have h5 : m.protocol = .mqtt5 := by
      by_contra hne
      cases h3 hne
    have hv : readPropertyInt16 [⟨.receiveMaximum, v⟩] PropId.receiveMaximum.code false = some v := rfl
    have ha : adoptReceiveMaximum m [⟨.receiveMaximum, v⟩] =
        { m with msgsIn := { m.msgsIn with inflightMaximum := v.toNat, inflightQuota := v.toNat } } := by
      simp only [adoptReceiveMaximum, h5, hv]
    rw [ha]
    have hnone : readPropertyInt16 [] PropId.receiveMaximum.code false = none := rfl
    have hback : UInt16.ofNat (UInt16.toNat v) = v := UInt16.ofNat_toNat
    simp [connectDataOf, connectProperties, h5, hv, hnone, hback]
  | _ :: _ :: _ => cases h

/-- What is in force is not adopted again. -/
theorem terms_adopted {l : List MosquittoProperty} (h : m.protocol = .mqtt5 → adopted m l = true) :
    terms (adoptReceiveMaximum m l) = terms m := by
  unfold adoptReceiveMaximum
  split
  · rename_i v h5 hv
    have hmax : v = UInt16.ofNat m.msgsIn.inflightMaximum := by simpa [adopted, hv] using h h5
    show Terms.mk m.protocol m.cleanStart m.id m.username m.password m.keepalive m.will (UInt16.ofNat v.toNat) = _
    rw [UInt16.ofNat_toNat, hmax]
    rfl
  · rfl

end Frames

/-- A step leaves the terms, unless it is `connect()`, the end of `mosquitto__connect_init`, a piece of
    `mosquitto__reconnect`, or a CONNACK that sets one of them. -/
theorem changes_terms {s : Sys} {k : Threads.Call} {m : Mosq} (h : Changes s k m)
    (h1 : ∀ c, k ≠ .act (.connect c))
    (h2 : ∀ p again alloc, k = .act (.loop (.packet p again alloc)) → assignsId s.m p = false ∧
    movesKeepalive s.m p = false)
    (h3 : ∀ env c, k = .act (.queue env) → s.queue ≠ .connectBind c) (h4 : ∀ a, k = .act a → recAt s a = none) :
    terms m = terms s.m := by
  cases h with
  | sends _ _ hs h => exact terms_settings h.settings
  | connect c => exact absurd rfl (h1 c)
  | publish alloc a ha =>
    rcases publish_cases alloc s.m a ha with ⟨-, h⟩ | ⟨-, -, h⟩ | ⟨-, -, h⟩
    · rw [h]
    · rw [h, terms_sendPublish]
      rfl
    · exact (terms_settings h.settings).trans rfl
  | asks c p hne hp => rfl
  | bind env c hq => exact absurd hq (h3 env c rfl)
  | reconnect a env pc l m next ha h =>
    rw [h4 a rfl] at ha
    cases ha
  | connack flags reason l again alloc =>
    obtain ⟨ha, hk⟩ := h2 _ again alloc rfl
    exact terms_handleConnack ha hk
  | disconnected reason tail again alloc => rfl
  | written taken e again =>
    obtain ⟨k, h⟩ := takes_packetWrite s.m e.rc taken
    exact terms_settings h.settings

/-! ## One step -/

/-- Each CONNECT since then says what the next one of the loop thread will say; and once there is one, what
    `connect()` has still to set is in force. -/
structure Repeating (base : List ConnectData) (s : Sys) : Prop where
  store : StoreOk s.m.msgsOut.inflight
  plain : plain (pending s.queue) = true
  carries : s.m.protocol ≠ .mqtt5 → pending s.queue = []
  same : ∃ l, s.m.outflow.connects = l ++ base ∧ (∀ d ∈ l, d = connectDataOf s.m []) ∧
    (l ≠ [] → inTime s.m s.queue = true)

section Steps

variable {base : List ConnectData} {s s' : Sys} {a : Act}

/-- A piece of `mosquitto__reconnect` queues its CONNECT and takes over the Receive Maximum, or queues none. -/
theorem terms_recMoves {env : RecEnv} {l : List MosquittoProperty} {m m' : Mosq} {pc : RecPc} {next : RecPc ⊕ Rc}
    (h : RecMoves env l m pc m' next) :
    (m'.outflow.connects = connectDataOf m l :: m.outflow.connects ∧ terms m' = terms (adoptReceiveMaximum m l) ∧
      pc = .sendConnect ∧ next = .inr .success) ∨
    (m'.outflow.connects = m.outflow.connects ∧
    (terms m' = terms m ∨ terms m' = terms (adoptReceiveMaximum m l))) := by
  have hout := congrArg Outflow.connects (outflow_sendConnect env.alloc m l)
  have hc := sendConnect_cases env.alloc m l
  cases h with
  | sent hs =>
    rcases hc with ⟨-, e⟩ | ⟨rc, hrc, e | e⟩
    · refine .inl ⟨?_, ?_, rfl, rfl⟩
      · rw [hout, connectHands, if_pos hs]
        rfl
      · rw [e]
        rfl
    · rw [e] at hs
      exact absurd hs hrc
    · rw [e] at hs
      exact absurd hs hrc
  | unsent rc hs =>
    refine .inr ⟨?_, ?_⟩
    · rw [hout, connectHands, if_neg hs]
      rfl
    · rcases hc with ⟨-, e⟩ | ⟨rc, hrc, e | e⟩
      · rw [e] at hs
        exact absurd rfl hs
      · rw [e]
        exact .inl rfl
      · rw [e]
        exact .inr rfl
  | _ => exact .inr ⟨rfl, .inl rfl⟩

/-- The guard on a step of the two threads. -/
def Keeps (s : Sys) : Act → Bool
  | .connect _ => false
  | .loop (.packet p _ _) => !assignsId s.m p && !movesKeepalive s.m p
  | .loop (.tick _) => s.loop = .rec_ .sendConnect → inTime s.m s.queue
  | _ => true

/-- What `connect()` does before it is in `mosquitto__reconnect`. -/
theorem bind_same (env : RecEnv) {c : ConnectConfig} (ht : inTime s.m (.connectBind c) = true) :
    terms (connectBind env s.m c).1 = terms s.m ∧
      inTime s.m (if (connectBind env s.m c).2 = .success then .setNew c.properties else .idle) = true := by
  by_cases hr : refuses c = true
  · have hm : (connectBind env s.m c).1 = s.m ∧ (connectBind env s.m c).2 ≠ .success := by
      simp only [refuses, decide_eq_true_eq] at hr
      unfold connectBind connectInit
      split
      · rename_i hne
        exact ⟨rfl, hne⟩
      · rename_i he
        rcases hr with hne | hport | hkeep
        · exact absurd hne he
        · rw [if_pos hport]
          exact ⟨rfl, by simp⟩
        · split
          · exact ⟨rfl, by simp⟩
          · exact ⟨rfl, by simp⟩
    rw [hm.1, if_neg hm.2]
    exact ⟨rfl, rfl⟩
  · simp only [inTime, hr, false_or, decide_eq_true_eq, Bool.false_eq_true] at ht
    obtain ⟨hk, hid, had⟩ := ht
    simp only [refuses, decide_eq_true_eq, not_or, not_not] at hr
    obtain ⟨hall, hport, hkeep⟩ := hr
    have hname : ¬ (s.m.id = none ∧ s.m.protocol ≠ .mqtt5) := by
      intro hn
      rcases hid with hid | hid
      · rw [hn.1] at hid
        cases hid
      · exact hn.2 hid
    simp only [connectBind, connectInit, hall, not_true_eq_false, ne_eq, if_false, hport, hkeep, if_true]
    refine ⟨?_, ?_⟩
    · rw [if_neg hname, ← hk]
      rfl
    · exact decide_eq_true had

/-- A piece of `mosquitto__reconnect`, in either thread. -/
theorem rec_same {env : RecEnv} {p : List MosquittoProperty} {pc : RecPc} {next : RecPc ⊕ Rc} {m : Mosq}
    {q : QueuePc}
    (h : RecMoves env p s.m pc m next) (hp : plain p = true) (h3 : s.m.protocol ≠ .mqtt5 → p = [])
    (hi : ∃ l, s.m.outflow.connects = l ++ base ∧ (∀ d ∈ l, d = connectDataOf s.m []) ∧
      (l ≠ [] → (s.m.protocol = .mqtt5 → adopted s.m p = true) ∧ inTime s.m q = true))
    (hsent : pc = .sendConnect → next = .inr .success → terms m = terms (adoptReceiveMaximum s.m p) →
    inTime m q = true) :
    ∃ l, m.outflow.connects = l ++ base ∧ (∀ d ∈ l, d = connectDataOf m []) ∧ (l ≠ [] → inTime m q = true) := by
  obtain ⟨l, hl, hsame, htime⟩ := hi
  rcases terms_recMoves h with ⟨hc, ht, hpc, hnext⟩ | ⟨hc, ht⟩
  · have hnew : connectDataOf m [] = connectDataOf s.m p :=
      (connectDataOf_terms ht []).trans (plain_repeats hp h3)
    refine ⟨connectDataOf s.m p :: l, by rw [hc, hl]; rfl, fun d hd => ?_, fun _ => hsent hpc hnext ht⟩
    rcases List.mem_cons.mp hd with rfl | hd
    · exact hnew.symm
    · -- the Receive Maximum was in force before, so the two say the same
      have hold : connectDataOf (adoptReceiveMaximum s.m p) [] = connectDataOf s.m [] :=
        connectDataOf_terms (terms_adopted (htime (List.ne_nil_of_mem hd)).1) []
      rw [hsame d hd, hnew, ← hold]
      exact plain_repeats hp h3
  · have hkept (hne : l ≠ []) : terms m = terms s.m := by
      rcases ht with ht | ht
      · exact ht
      · exact ht.trans (terms_adopted (htime hne).1)
    refine ⟨l, by rw [hc, hl], fun d hd => ?_, fun hne => ?_⟩
    · rw [connectDataOf_terms (hkept (List.ne_nil_of_mem hd))]
      exact hsame d hd
    · rw [inTime_terms (hkept hne)]
      exact (htime hne).2

theorem act_repeats (hi : Repeating base s) (hg : Keeps s a = true) (h : Moves s a s') :
    ∃ l, s'.m.outflow.connects = l ++ base ∧ (∀ d ∈ l, d = connectDataOf s'.m []) ∧
      (l ≠ [] → inTime s'.m s'.queue = true) := by
  obtain ⟨l, hl, hsame, htime⟩ := hi.same
  have hout : s'.m.outflow.connects = connectsNow s a ++ s.m.outflow.connects :=
    congrArg Outflow.connects (step_outflow h)
  have hne : ∀ c, Threads.Call.act a ≠ .act (.connect c) := by
    intro c hc
    cases hc
    cases hg
  have hch := act_changes hi.store h
  -- nothing is queued, and what a CONNECT says stays
  have quiet (hn : connectsNow s a = []) (h3 : ∀ env c, a = .queue env → s.queue ≠ .connectBind c)
      (h4 : recAt s a = none)
      (hq : inTime s.m s.queue = true → inTime s.m s'.queue = true) :
      ∃ l, s'.m.outflow.connects = l ++ base ∧ (∀ d ∈ l, d = connectDataOf s'.m []) ∧
        (l ≠ [] → inTime s'.m s'.queue = true) := by
    have ht : terms s'.m = terms s.m := by
      refine changes_terms hch hne (fun p again alloc hp => ?_) (fun env c hc => h3 env c (by cases hc; rfl))
        (fun b hb => by cases hb; exact h4)
      cases hp
      simpa [Keeps] using hg
    refine ⟨l, by rw [hout, hn]; exact hl, fun d hd => ?_, fun hne => ?_⟩
    · rw [connectDataOf_terms ht]
      exact hsame d hd
    · rw [inTime_terms ht]
      exact hq (htime hne)
  cases h with
  | connect c hq => cases hg
  | publish alloc a hq ha => exact quiet rfl (by simp) rfl id
  | refused r l hq hc => exact quiet rfl (by simp) rfl id
  | disconnect r l hq hc => exact quiet rfl (by simp) rfl (fun _ => rfl)
  | create env c hq ht =>
    refine quiet (by simp [connectsNow, hq]) (by simp [hq]) (by simp [recAt, hq]) (fun h => ?_)
    rw [hq] at h
    exact h
  | created env c hq ht =>
    refine quiet (by simp [connectsNow, hq]) (by simp [hq]) (by simp [recAt, hq]) (fun h => ?_)
    rw [hq] at h
    exact h
  | bind env c hq =>
    refine ⟨l, ?_, fun d hd => ?_, fun hne => ?_⟩
    · rw [hout]
      simpa [connectsNow, hq] using hl
    · obtain ⟨ht, -⟩ := bind_same env (hq ▸ htime (List.ne_nil_of_mem hd))
      exact (hsame d hd).trans (connectDataOf_terms ht []).symm
    · obtain ⟨ht, hnext⟩ := bind_same env (hq ▸ htime hne)
      exact (inTime_terms ht _).trans hnext
  | setNew env l hq =>
    refine quiet (by simp [connectsNow, hq]) (by simp [hq]) (by simp [recAt, hq]) (fun h => ?_)
    rw [hq] at h
    exact h
  | queueRec env pc pc' p m hq e =>
    have hp := hi.plain
    have h3 := hi.carries
    rw [hq] at hp h3 htime
    refine rec_same e hp h3 ⟨l, hl, hsame, fun hne => ⟨?_, htime hne⟩⟩ (fun _ hn => by cases hn)
    exact of_decide_eq_true (htime hne)
  | queueRecEnd env pc p m rc hq e =>
    have hp := hi.plain
    have h3 := hi.carries
    rw [hq] at hp h3 htime
    exact rec_same e hp h3 ⟨l, hl, hsame, fun hne => ⟨of_decide_eq_true (htime hne), rfl⟩⟩ (fun _ _ _ => rfl)
  | discSend env r l hq =>
    exact quiet (by simp [connectsNow, hq]) (by simp [hq]) (by simp [recAt, hq]) (fun _ => rfl)
  | packet i n p again alloc hl hs hp t ht =>
    refine quiet rfl (by simp) rfl ?_
    rw [(readMoves_frame ht).1]
    exact id
  | loopRec env pc pc' m hpc e =>
    exact rec_same e rfl (fun _ => rfl) ⟨l, hl, hsame, fun hne => ⟨fun _ => rfl, htime hne⟩⟩
      (fun _ hn => by cases hn)
  | loopRecEnd env pc m rc hpc e =>
    refine rec_same e rfl (fun _ => rfl) ⟨l, hl, hsame, fun hne => ⟨fun _ => rfl, htime hne⟩⟩
      (fun hsend _ ht => ?_)
    rw [adoptReceiveMaximum_nil] at ht
    exact (inTime_terms ht _).trans (of_decide_eq_true hg (hsend ▸ hpc))
  | waitNew | connack | discCall | rcClose | rcCall | kaCall | check1 | check2 =>
    rename_i hl
    exact quiet (by simp [connectsNow, hl]) (by simp) (by simp [recAt, hl]) id
  | _ => exact quiet rfl (by simp) rfl id

/-- A call other than these is one of the two threads'. -/
def callOf (o : Obj) : Call → Option Threads.Call
  | .assign _ | .setWill _ | .clearWill => none
  | .publish alloc a => some (.act (.publish alloc (publishArgs o.protocolVersion a)))
  | .subscribe alloc a => some (.subscribe alloc (a.args o.protocolVersion))
  | .unsubscribe alloc a => some (.unsubscribe alloc (a.args o.protocolVersion))
  | .disconnect reasonCode properties =>
    some (.act (.disconnect (if o.protocolVersion = .mqtt5 then reasonCode else 0)
      (built o.protocolVersion properties)))
  | .connect c => some (.act (.connect { c with protocolVersion := o.protocolVersion }))
  | .queue env => some (.act (.queue env))
  | .loop e => some (.act (.loop e))

variable {o o' : Obj} {c : Call}

theorem step_callOf {k : Threads.Call} (h : o.step c = some o') (hk : callOf o c = some k) :
    callStep o.sys k = some o'.sys := by
  have act {o : Obj} {a : Act} (h : o.act a = some o') : callStep o.sys (.act a) = some o'.sys := by
    obtain ⟨s, hs, rfl⟩ := Option.map_eq_some_iff.mp h
    exact hs
  cases c with
  | assign | setWill | clearWill => cases hk
  | subscribe alloc a =>
    cases hk
    obtain ⟨hq, rfl⟩ := call_cases h
    simp [callStep, hq]
  | unsubscribe alloc a =>
    cases hk
    obtain ⟨hq, rfl⟩ := call_cases h
    simp [callStep, hq]
  | connect c =>
    cases hk
    obtain ⟨s, hs, rfl⟩ := Option.map_eq_some_iff.mp h
    exact hs
  | _ =>
    cases hk
    exact act h

theorem willSet_store (m : Mosq) (a : WillArgs) : (mosquittoWillSetV5 m a).1.msgsOut = m.msgsOut := by
  unfold mosquittoWillSetV5 willSet
  repeat' split
  all_goals rfl

theorem step_storeOk (hi : StoreOk o.sys.m.msgsOut.inflight) (h : o.step c = some o') :
    StoreOk o'.sys.m.msgsOut.inflight := by
  cases hk : callOf o c with
  | some k => exact call_store hi (step_callOf h hk)
  | none =>
    cases c with
    | assign version =>
      cases h
      exact hi
    | setWill a =>
      obtain ⟨hq, rfl⟩ := call_cases h
      show StoreOk (mosquittoWillSetV5 o.sys.m (willArgs o.protocolVersion a)).1.msgsOut.inflight
      rw [willSet_store]
      exact hi
    | clearWill =>
      obtain ⟨hq, rfl⟩ := call_cases h
      exact hi
    | _ => cases hk

theorem repeats_step (hi : Repeating base o.sys) (hu : Unchanged o c = true) (hr : Repeats o c = true)
    (h : o.step c = some o') : Repeating base o'.sys := by
  have hstore := step_storeOk hi.store h
  -- a call that is one step changes nothing that a CONNECT says
  have hcall {m : Mosq} (hm : o'.sys = o.sys.upd m) (hq : o.sys.queue = .idle) (ht : terms m = terms o.sys.m)
      (ho : m.outflow = o.sys.m.outflow) : Repeating base o'.sys := by
    obtain ⟨l, hl, hsame, htime⟩ := hi.same
    refine ⟨hstore, ?_, ?_, l, ?_, fun d hd => ?_, fun _ => ?_⟩
    · rw [hm]
      exact hi.plain
    · rw [hm]
      intro _
      show pending o.sys.queue = []
      rw [hq]
      rfl
    · rw [hm]
      show m.outflow.connects = _
      rw [ho, hl]
    · rw [hm]
      exact (hsame d hd).trans (connectDataOf_terms ht []).symm
    · rw [hm]
      show inTime m o.sys.queue = true
      rw [hq]
      rfl
  have hact {a : Act} (ha : Keeps o.sys a = true) (h : o.act a = some o') : Repeating base o'.sys := by
    obtain ⟨s, hm, rfl⟩ := act_cases h
    have hne : ∀ c, a ≠ .connect c := by
      intro c hc
      rw [hc] at ha
      cases ha
    refine ⟨hstore, ?_, fun h3 => ?_, act_repeats hi ha hm⟩
    · rcases step_pending hm hne with hp | hp
      · rw [hp]
        rfl
      · rw [hp]
        exact hi.plain
    · rcases step_pending hm hne with hp | hp
      · exact hp
      · rw [hp]
        exact hi.carries (step_protocol hm hne ▸ h3)
  cases c with
  | assign version =>
    cases h
    exact hi
  | setWill | clearWill | connect => cases hu
  | subscribe alloc a =>
    obtain ⟨hq, rfl⟩ := call_cases h
    have hc := asks_subscribe alloc o.sys.m (a.args o.protocolVersion)
    obtain ⟨-, ho⟩ := subscribe_frame alloc o.sys.m (a.args o.protocolVersion)
    refine hcall rfl hq ?_ ho
    rcases hc with e | ⟨p, -, e⟩
    · rw [e]
    · rw [e]
      rfl
  | unsubscribe alloc a =>
    obtain ⟨hq, rfl⟩ := call_cases h
    have hc := asks_unsubscribe alloc o.sys.m (a.args o.protocolVersion)
    obtain ⟨-, ho⟩ := unsubscribe_frame alloc o.sys.m (a.args o.protocolVersion)
    refine hcall rfl hq ?_ ho
    rcases hc with e | ⟨p, -, e⟩
    · rw [e]
    · rw [e]
      rfl
  | publish alloc a => exact hact rfl h
  | disconnect r l => exact hact rfl h
  | queue env => exact hact rfl h
  | loop e =>
    refine hact ?_ h
    cases e with
    | packet p again alloc =>
      have ha : (!assignsId o.sys.m p) = true := hu
      have hk : (!movesKeepalive o.sys.m p) = true := hr
      simp [Keeps, ha, hk]
    | tick env => exact hr
    | _ => rfl

end Steps

/-! ## Runs -/

/-- `connect()` is called. -/
theorem start_repeating {c : ConnectConfig} {o o1 : Obj} (hi : StoreOk o.sys.m.msgsOut.inflight)
    (hp : plain (built o.protocolVersion c.properties) = true) (h : o.step (.connect c) = some o1) :
    Repeating (connects o1) o1.sys := by
  have hstore := step_storeOk hi h
  obtain ⟨s, hm, rfl⟩ := act_cases h
  cases hm with
  | connect c' hq =>
    have hpending : pending (startConnect o.sys { c with protocolVersion := o.protocolVersion }).queue =
        built o.protocolVersion c.properties := by
      by_cases h5 : o.protocolVersion = .mqtt5
      · simp [startConnect, h5, pending, built]
      · simp [startConnect, h5, pending, built]
    refine ⟨hstore, ?_, fun h3 => ?_, [], rfl, by simp, by simp⟩
    · dsimp only
      rw [hpending]
      exact hp
    · dsimp only at h3 ⊢
      rw [startConnect_protocol] at h3
      rw [hpending]
      exact if_neg h3

/-- From `connect()` with no properties but a Receive Maximum to the next one, as long as no CONNACK
    brings another keepalive and the loop thread does not come in before `connect()` has set what it sets, the
    CONNECTs are all the same. -/
theorem same_connect {o0 o1 o : Obj} {c : ConnectConfig} (h0 : Machine.Reach Obj.step IsNew Machine.anyAct o0)
    (hp : plain (built o0.protocolVersion c.properties) = true) (hc : o0.step (.connect c) = some o1)
    (h : Machine.Reach Obj.step (· = o1) (fun o k => Unchanged o k = true ∧ Repeats o k = true) o) :
    SameSince o1 o := by
  have hstore : StoreOk o0.sys.m.msgsOut.inflight := by
    refine h0.inv (I := fun o => StoreOk o.sys.m.msgsOut.inflight) (fun o ho => ?_) (fun o k o' hi _ hs =>
      step_storeOk hi hs)
    obtain ⟨id, cleanSession, version, rfl⟩ := ho
    exact StoreOk.nil
  have hi : Repeating (connects o1) o.sys :=
    h.inv (I := fun o => Repeating (connects o1) o.sys)
      (fun o ho => by rw [ho]; exact start_repeating hstore hp hc)
      (fun o k o' hi hg hs => repeats_step hi hg.1 hg.2 hs)
  obtain ⟨l, hl, hsame, -⟩ := hi.same
  exact ⟨l, hl, fun a ha b hb => (hsame a ha).trans (hsame b hb).symm⟩

/-- A step of the two threads as a call of the object's. -/
def stepOf : Act → Call
  | .connect c => .connect c
  | .publish alloc a => .publish alloc a
  | .disconnect reason properties => .disconnect reason properties
  | .queue env => .queue env
  | .loop e => .loop e

/-- Once `connect()` is called the connection is made, lost and made again. -/
def madeTwice : List Call := ((established []).tail ++ reopens 5).map stepOf

def connectWith (properties : List MosquittoProperty) : Call :=
  .connect { ConnectConfig.plain with properties := properties }

/-- The connection is made twice: whether the run meets a guard, the CONNECTs before it, and the
    properties of those there are then. -/
def madeFrom (ok : Obj → Call → Bool) (o1 : Obj) :
    Option (Bool × List ConnectData × List (List MosquittoProperty)) :=
  (Machine.run Obj.step o1 madeTwice).map fun o =>
    (decide (Machine.Meets Obj.step (fun o k => ok o k = true) o1 madeTwice), connects o1,
      (connects o).map ConnectData.properties)

theorem madeFrom_some {ok : Obj → Call → Bool} {properties : List MosquittoProperty}
    {x : List ConnectData × List (List MosquittoProperty)}
    (h : ((Obj.init none true .mqtt5).step (connectWith properties)).bind (madeFrom ok) = some (true, x)) :
    ∃ o1 o, (Obj.init none true .mqtt5).step (connectWith properties) = some o1 ∧
      Machine.Reach Obj.step (· = o1) (fun o k => ok o k = true) o ∧ connects o1 = x.1 ∧
      (connects o).map ConnectData.properties = x.2 := by
  rw [Option.bind_eq_some_iff] at h
  obtain ⟨o1, h1, h⟩ := h
  obtain ⟨o, ho, h⟩ := Option.map_eq_some_iff.mp h
  simp only [Prod.mk.injEq, decide_eq_true_eq] at h
  obtain ⟨hm, hx⟩ := h
  cases hx
  exact ⟨o1, o, h1, Machine.reach_of_run (.init rfl) hm ho, rfl, rfl⟩

/-- A Receive Maximum is in both CONNECTs. -/
theorem same_connect_twice :
    ∃ o1 o, (Obj.init none true .mqtt5).step (connectWith [⟨.receiveMaximum, (5 : UInt16)⟩]) = some o1 ∧
    (connects o).map ConnectData.properties =
      [[⟨.receiveMaximum, (5 : UInt16)⟩], [⟨.receiveMaximum, (5 : UInt16)⟩]] ∧ SameSince o1 o := by
  have hr : ((Obj.init none true .mqtt5).step (connectWith [⟨.receiveMaximum, (5 : UInt16)⟩])).bind
      (madeFrom fun o k => Unchanged o k && Repeats o k) =
        some (true, [], [[⟨.receiveMaximum, (5 : UInt16)⟩], [⟨.receiveMaximum, (5 : UInt16)⟩]]) := by decide
  obtain ⟨o1, o, h1, h, -, ho⟩ := madeFrom_some hr
  refine ⟨o1, o, h1, ho, same_connect (.init ⟨none, true, .mqtt5, rfl⟩) (by decide) h1 ?_⟩
  simpa using h

/-- A session is to be kept for 100 seconds: the CONNECT of the automatic reconnect does not say so. -/
theorem properties_lost : ∃ o0 o1 o c, Machine.Reach Obj.step IsNew Machine.anyAct o0 ∧
    o0.step (.connect c) = some o1 ∧
    Machine.Reach Obj.step (· = o1) (fun o k => Unchanged o k = true) o ∧ ¬ SameSince o1 o := by
  have hr : ((Obj.init none true .mqtt5).step (connectWith [⟨.sessionExpiryInterval, (100 : UInt32)⟩])).bind
      (madeFrom Unchanged) = some (true, [], [[⟨.receiveMaximum, (20 : UInt16)⟩],
        [⟨.sessionExpiryInterval, (100 : UInt32)⟩, ⟨.receiveMaximum, (20 : UInt16)⟩]]) := by
    decide
  obtain ⟨o1, o, h1, h, hnone, ho⟩ := madeFrom_some hr
  refine ⟨_, o1, o, _, .init ⟨none, true, .mqtt5, rfl⟩, h1, h, ?_⟩
  intro hs
  obtain ⟨l, hl, hall⟩ := hs
  rw [hnone, List.append_nil] at hl
  have hsame : ∀ p ∈ l.map ConnectData.properties, ∀ q ∈ l.map ConnectData.properties, p = q := by
    intro p hp q hq
    obtain ⟨a, ha, rfl⟩ := List.mem_map.mp hp
    obtain ⟨b, hb, rfl⟩ := List.mem_map.mp hq
    rw [hall a ha b hb]
  rw [← hl, ho] at hsame
  exact absurd (hsame _ (List.mem_cons_self ..) _ (List.mem_cons_of_mem _ (List.mem_cons_self ..))) (by decide)

end Artemisia.Swift
