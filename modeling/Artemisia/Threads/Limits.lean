/-
  Artemisia.Threads.Limits — do the limits in force come from the current connection?

  `handle__connack` writes the limits that the CONNACK carries and leaves the others as they are, and nothing else
  ever sets Maximum QoS and Maximum Packet Size. The Receive Maximum replaces the send maximum that was
  configured, also if it is the greater one, until `connect()` sets it again.

  Proved:
  - `newest_step`:     the limits in force are the newest that any CONNACK has carried.
  - `negotiated_iff`:  over a run they are those of each CONNACK that is handled exactly when `Renews` holds
                       throughout.
  - `limits_remain`:   a Maximum QoS stays in force when the next CONNACK does not carry one.
-/
import Artemisia.Threads.Calls
import Artemisia.Threads.Stranded

namespace Artemisia.Threads

open Artemisia.Property Artemisia.Client

/-! ## What a CONNACK carries -/

/-- The limits of a CONNACK, each if it is there. -/
structure Announced where
  maximumQos : Option Nat
  maximumPacketSize : Option Nat
  receiveMaximum : Option Nat
  deriving DecidableEq

def announcedIn (properties : List MosquittoProperty) : Announced where
  maximumQos := (readPropertyByte properties PropId.maximumQos.code false).map UInt8.toNat
  maximumPacketSize := (readPropertyInt32 properties PropId.maximumPacketSize.code false).map UInt32.toNat
  receiveMaximum := (readPropertyInt16 properties PropId.receiveMaximum.code false).map UInt16.toNat

/-- The reason code and the limits of a CONNACK, if `handle__connack` comes as far as to take them. -/
def announces (m : Mosq) : InPacket → Option (UInt8 × Announced)
  | .connack (.ok _) (.ok reason) properties =>
    match (if m.protocol = .mqtt5 then properties else .ok []) with
    | .error _ => none
    | .ok properties =>
      if (readPropertyString properties PropId.assignedClientIdentifier.code false).isSome ∧ m.id.isSome then none
      else some (reason, announcedIn properties)
  | _ => none

structure Limits where
  maximumQos : Nat
  /-- 0 for no limit. -/
  maximumPacketSize : Nat
  inflightMaximum : Nat
  deriving DecidableEq

def inForce (m : Mosq) : Limits := ⟨m.maximumQos, m.maximumPacketSize, m.msgsOut.inflightMaximum⟩

/-- The limits that a CONNACK sets, with the defaults for what it does not carry. -/
def Announced.limits (k : Announced) (sendMax : Nat) : Limits where
  maximumQos := k.maximumQos.getD 2
  maximumPacketSize := k.maximumPacketSize.getD 0
  inflightMaximum := min sendMax (k.receiveMaximum.getD 65535)

/-! ## A run with its CONNACKs -/

/-- What is recorded: the newest of each limit that a CONNACK has carried, of the Receive Maximum since the send
    maximum was last configured; the CONNACK that is being handled, if it is one of version 5 with reason
    code 0; and for each that has been handled the limits in force then, with those it sets. -/
structure Connacks where
  newest : Announced
  now : Option Announced
  seen : List (Limits × Limits)

def Connacks.none : Connacks := ⟨⟨.none, .none, .none⟩, .none, []⟩

/-- The limits of a CONNACK go over those before. -/
def Announced.over (k before : Announced) : Announced where
  maximumQos := k.maximumQos <|> before.maximumQos
  maximumPacketSize := k.maximumPacketSize <|> before.maximumPacketSize
  receiveMaximum := k.receiveMaximum <|> before.receiveMaximum

def configures (c : ConnectConfig) : Bool := c.protocolVersion = .mqtt5 && (intOptionMaximum c.sendMaximum).isSome

def noteConnacks (s : Sys) (c : Call) (s' : Sys) (r : Connacks) : Connacks :=
  match c with
  | .act (.connect c) => if configures c then { r with newest := { r.newest with receiveMaximum := .none } }
      else r
  | .act (.loop (.packet p _ _)) => match announces s.m p with
    | some (reason, k) =>
      { r with newest := k.over r.newest, now := if reason = 0 ∧ s.m.protocol = .mqtt5 then some k else .none }
    | .none => r
  | .act (.loop (.tick _)) => match s.loop, r.now with
    | .connack 0 _ _, some k => { r with seen := (inForce s'.m, k.limits s'.sendMax) :: r.seen }
    | _, _ => r
  | _ => r

abbrev connackStep : Sys × Connacks → Call → Option (Sys × Connacks) := Machine.recorded callStep noteConnacks

/-- Right after each CONNACK with reason code 0 the limits were those it sets. -/
def Negotiated (x : Sys × Connacks) : Prop := ∀ p ∈ x.2.seen, p.1 = p.2

/-- A CONNACK carries Maximum QoS and Maximum Packet Size, unless none before carried one other than the
    default; and the newest Receive Maximum since the send maximum was configured, or that itself if there is
    none, is the lesser of it and the one of this CONNACK. -/
def Renews (x : Sys × Connacks) : Call → Prop
  | .act (.loop (.tick _)) => match x.1.loop, x.2.now with
    | .connack 0 _ _, some k =>
      (k.maximumQos = .none → x.2.newest.maximumQos.getD 2 = 2) ∧
        (k.maximumPacketSize = .none → x.2.newest.maximumPacketSize.getD 0 = 0) ∧
        x.2.newest.receiveMaximum.getD x.1.sendMax = min x.1.sendMax (k.receiveMaximum.getD 65535)
    | _, _ => True
  | _ => True

/-! ## One step -/

/-- The limits in force are the newest that have been carried. -/
structure Newest (x : Sys × Connacks) : Prop where
  store : StoreOk x.1.m.msgsOut.inflight
  limits : inForce x.1.m = ⟨x.2.newest.maximumQos.getD 2, x.2.newest.maximumPacketSize.getD 0,
    x.2.newest.receiveMaximum.getD x.1.sendMax⟩
  /-- Those of the CONNACK that is being handled are among them. -/
  now : ∀ k ∈ x.2.now, (k.maximumQos.isSome → x.2.newest.maximumQos = k.maximumQos) ∧
    (k.maximumPacketSize.isSome → x.2.newest.maximumPacketSize = k.maximumPacketSize)

theorem inForce_settings {m m' : Mosq} (h : m'.settings = m.settings) : inForce m' = inForce m := by
  show (⟨m'.settings.maximumQos, m'.settings.maximumPacketSize, m'.settings.outMaximum⟩ : Limits) = _
  rw [h]
  rfl

theorem inForce_setupMosquitto (m : Mosq) (c : ConnectConfig) : inForce (setupMosquitto m c) =
    if c.protocolVersion = .mqtt5 then
      { inForce m with inflightMaximum := (intOptionMaximum c.sendMaximum).getD m.msgsOut.inflightMaximum }
    else inForce m := by
  obtain ⟨username, password, e⟩ := setupMosquitto_eq m c
  rw [e]
  unfold inForce
  dsimp only
  split <;> rfl

theorem inForce_sendPublish (alloc : Alloc) (m : Mosq) (msg : Message) :
    inForce (sendPublish alloc m msg).1 = inForce m := by
  cases hc : canPublish alloc m msg with
  | true =>
    rw [sendPublish_ok hc]
    rfl
  | false =>
    obtain ⟨rc, -, e⟩ := sendPublish_fail hc
    rw [e]

theorem inForce_recMoves {env : RecEnv} {l : List MosquittoProperty} {m m' : Mosq} {pc : RecPc}
    {next : RecPc ⊕ Rc}
    (h : RecMoves env l m pc m' next) : inForce m' = inForce m := by
  have hsent : inForce (sendConnect env.alloc m l).1 = inForce m := by
    have ha : inForce (adoptReceiveMaximum m l) = inForce m := by
      obtain ⟨maximum, quota, e⟩ := adoptReceiveMaximum_eq m l
      rw [e]
      rfl
    rcases sendConnect_cases env.alloc m l with ⟨-, h⟩ | ⟨rc, -, h | h⟩
    · rw [h]
      exact ha
    · rw [h]
    · rw [h]
      exact ha
  cases h with
  | sent hs => exact hsent
  | unsent rc hs => exact hsent
  | _ => rfl

theorem inForce_handleConnack (m : Mosq) (flags reason : Except Rc UInt8)
    (l : Except Rc (List MosquittoProperty)) :
    inForce (handleConnack m flags reason l).1 = match announces m (.connack flags reason l) with
      | some (_, k) => ⟨k.maximumQos.getD m.maximumQos, k.maximumPacketSize.getD m.maximumPacketSize,
          k.receiveMaximum.getD m.msgsOut.inflightMaximum⟩
      | none => inForce m := by
  unfold handleConnack
  cases flags with
  | error rc => rfl
  | ok f =>
    cases reason with
    | error rc => rfl
    | ok r =>
      cases hl : (if m.protocol = .mqtt5 then l else .ok [] : Except Rc (List MosquittoProperty)) with
      | error rc =>
        simp only [announces, hl]
        split
        · rfl
        · rfl
      | ok l' =>
        simp only [announces, hl]
        split
        · rename_i h1 h2
          rw [if_pos (by rw [h1, h2]; exact ⟨rfl, rfl⟩)]
        · rename_i h1 h2
          rw [if_neg (by rw [h2]; exact fun h => Bool.false_ne_true h.2)]
          rfl
        · rename_i h1
          rw [if_neg (by rw [h1]; exact fun h => Bool.false_ne_true h.1)]
          rfl

theorem inForce_handlePacket (alloc : Alloc) (m : Mosq) (p : InPacket) :
    inForce (handlePacket alloc m p).1 = match announces m p with
      | some (_, k) => ⟨k.maximumQos.getD m.maximumQos, k.maximumPacketSize.getD m.maximumPacketSize,
          k.receiveMaximum.getD m.msgsOut.inflightMaximum⟩
      | none => inForce m := by
  cases p with
  | connack flags reason l => exact inForce_handleConnack m flags reason l
  | disconnect reason tail =>
    show inForce (handleDisconnect m reason tail).1 = inForce m
    unfold handleDisconnect
    repeat' split
    all_goals rfl
  | _ => exact inForce_settings (sends_handlePacket alloc m rfl).settings

/-- A step other than `connect()` and a packet that is handled leaves the limits as they are. -/
theorem changes_limits {s : Sys} {c : Call} {m : Mosq} (h : Changes s c m) (h1 : ∀ k, c ≠ .act (.connect k))
    (h2 : ∀ p again alloc, c ≠ .act (.loop (.packet p again alloc))) : inForce m = inForce s.m := by
  cases h with
  | sends _ _ hs h => exact inForce_settings h.settings
  | connect k => exact absurd rfl (h1 k)
  | publish alloc a ha =>
    rcases publish_cases alloc s.m a ha with ⟨-, h⟩ | ⟨-, -, h⟩ | ⟨-, -, h⟩
    · rw [h]
    · rw [h, inForce_sendPublish]
      rfl
    · exact (inForce_settings h.settings).trans rfl
  | asks c p hne hp => rfl
  | bind env c hq =>
    rcases connectBind_cases s.m env c with ⟨e, -⟩ | ⟨id, e⟩
    · rw [e]
    · rw [e]
      rfl
  | reconnect a env pc l m next ha h => exact inForce_recMoves h
  | connack flags reason l again alloc => exact absurd rfl (h2 _ again alloc)
  | disconnected reason tail again alloc => exact absurd rfl (h2 _ again alloc)
  | written taken e again =>
    obtain ⟨k, h⟩ := takes_packetWrite s.m e.rc taken
    exact inForce_settings h.settings

theorem step_sendMax {s s' : Sys} {a : Act} (h : Moves s a s') (ha : ∀ c, a ≠ .connect c) :
    s'.sendMax = s.sendMax := by
  cases h with
  | connect c hq => exact absurd rfl (ha c)
  | packet i n p again alloc hl hs hp t ht => exact (readMoves_frame ht).2.2
  | _ => rfl

theorem call_sendMax {s s' : Sys} {c : Call} (h : callStep s c = some s') (hc : ∀ k, c ≠ .act (.connect k)) :
    s'.sendMax = s.sendMax := by
  rcases call_cases h with ⟨a, rfl, hm⟩ | ⟨-, -, -, hs⟩
  · exact step_sendMax hm (fun k hk => hc k (congrArg Call.act hk))
  · rw [hs]
    rfl

section Steps

variable {s s' : Sys} {r : Connacks}

/-- A step that is neither `connect()` nor a packet leaves what has been carried. -/
theorem noteConnacks_newest {c : Call} (h1 : ∀ k, c ≠ .act (.connect k))
    (h2 : ∀ p again alloc, c ≠ .act (.loop (.packet p again alloc))) :
    (noteConnacks s c s' r).newest = r.newest ∧ (noteConnacks s c s' r).now = r.now := by
  unfold noteConnacks
  split
  · rename_i k
    exact absurd rfl (h1 k)
  · rename_i p again alloc
    exact absurd rfl (h2 p again alloc)
  · split
    · exact ⟨rfl, rfl⟩
    · exact ⟨rfl, rfl⟩
  · exact ⟨rfl, rfl⟩

theorem newest_connect {k : ConnectConfig} (hi : Newest (s, r)) (h : callStep s (.act (.connect k)) = some s') :
    Newest (s', noteConnacks s (.act (.connect k)) s' r) := by
  have hstore := call_store hi.store h
  obtain ⟨hq, hs⟩ : s.queue = .idle ∧ s' = startConnect s k := by
    simp only [callStep, step] at h
    split at h
    · rename_i hq
      exact ⟨hq, (Option.some.inj h).symm⟩
    · cases h
  subst hs
  have hl := hi.limits
  have hforce := inForce_setupMosquitto s.m (if k.protocolVersion = .mqtt5 then k
      else { k with properties := [] })
  have hnote : noteConnacks s (.act (.connect k)) (startConnect s k) r =
      if configures k then { r with newest := { r.newest with receiveMaximum := .none } } else r := rfl
  have hmax : (startConnect s k).sendMax =
      if k.protocolVersion = .mqtt5 then (intOptionMaximum k.sendMaximum).getD s.sendMax else s.sendMax := by
    by_cases h5 : k.protocolVersion = .mqtt5 <;> simp [startConnect, h5]
  dsimp only at hl
  simp only [inForce, Limits.mk.injEq] at hl
  by_cases h5 : k.protocolVersion = .mqtt5
  · rw [if_pos h5, if_pos h5] at hforce
    rw [if_pos h5] at hmax
    cases hc : intOptionMaximum k.sendMaximum with
    | none =>
      have hconf : configures k = false := by simp [configures, hc]
      rw [hnote, hconf]
      refine ⟨hstore, ?_, hi.now⟩
      show inForce (setupMosquitto s.m _) = _
      rw [if_pos h5, hforce, hmax, hc]
      simp [inForce, hl]
    | some v =>
      have hconf : configures k = true := by simp [configures, hc, h5]
      rw [hnote, hconf]
      refine ⟨hstore, ?_, hi.now⟩
      show inForce (setupMosquitto s.m _) = _
      rw [if_pos h5, hforce, hmax, hc]
      simp [inForce, hl]
  · have hconf : configures k = false := by simp [configures, h5]
    rw [if_neg h5, if_neg h5] at hforce
    rw [if_neg h5] at hmax
    rw [hnote, hconf]
    refine ⟨hstore, ?_, hi.now⟩
    show inForce (setupMosquitto s.m _) = _
    rw [if_neg h5, hforce, hmax]
    simp [inForce, hl]

theorem newest_packet {p : InPacket} {again : Bool} {alloc : Alloc} (hi : Newest (s, r))
    (h : callStep s (.act (.loop (.packet p again alloc))) = some s') :
    Newest (s', noteConnacks s (.act (.loop (.packet p again alloc))) s' r) := by
  have hstore := call_store hi.store h
  have hsend : s'.sendMax = s.sendMax := call_sendMax h (by simp)
  have hm : s'.m = (handlePacket alloc s.m p).1 := by
    have hst : step s (.loop (.packet p again alloc)) = some s' := h
    cases step_moves hst with
    | packet i n p again alloc hl hs hp t ht => exact outflow_readMoves ht
  have hforce := inForce_handlePacket alloc s.m p
  have hl := hi.limits
  dsimp only at hl
  simp only [inForce, Limits.mk.injEq] at hl
  cases ha : announces s.m p with
  | none =>
    have hnote : noteConnacks s (.act (.loop (.packet p again alloc))) s' r = r := by simp only [noteConnacks, ha]
    rw [ha] at hforce
    rw [hnote]
    refine ⟨hstore, ?_, hi.now⟩
    rw [hm, hforce, hsend]
    exact hi.limits
  | some x =>
    have hnote : noteConnacks s (.act (.loop (.packet p again alloc))) s' r =
        { r with newest := x.2.over r.newest, now := if x.1 = 0 ∧ s.m.protocol = .mqtt5 then some x.2
                   else .none } := by
      simp only [noteConnacks, ha]
    rw [ha] at hforce
    rw [hnote]
    refine ⟨hstore, ?_, ?_⟩
    · rw [hm, hforce, hsend]
      obtain ⟨reason, q, z, v⟩ := x
      cases q <;> cases z <;> cases v <;> simp [Announced.over, hl]
    · intro k hk
      dsimp only at hk
      split at hk
      · cases hk
        exact ⟨fun hq => by simp [Announced.over, Option.or_of_isSome hq],
          fun hz => by simp [Announced.over, Option.or_of_isSome hz]⟩
      · cases hk

theorem newest_step {x y : Sys × Connacks} {c : Call} (hi : Newest x) (h : connackStep x c = some y) :
    Newest y := by
  obtain ⟨s, r⟩ := x
  obtain ⟨s', r'⟩ := y
  obtain ⟨hs, hr⟩ := Machine.recorded_some.mp h
  dsimp only at hs hr
  subst hr
  by_cases h1 : ∃ k, c = .act (.connect k)
  · obtain ⟨k, rfl⟩ := h1
    exact newest_connect hi hs
  by_cases h2 : ∃ p again alloc, c = .act (.loop (.packet p again alloc))
  · obtain ⟨p, again, alloc, rfl⟩ := h2
    exact newest_packet hi hs
  have h1' : ∀ k, c ≠ .act (.connect k) := fun k hk => h1 ⟨k, hk⟩
  have h2' : ∀ p again alloc, c ≠ .act (.loop (.packet p again alloc)) := fun p again alloc hp =>
      h2 ⟨p, again, alloc, hp⟩
  obtain ⟨hnew, hnow⟩ := @noteConnacks_newest s s' r c h1' h2'
  refine ⟨call_store hi.store hs, ?_, ?_⟩
  · rw [changes_limits (call_changes hi.store hs) h1' h2', hnew, call_sendMax hs h1']
    exact hi.limits
  · rw [hnew, hnow]
    exact hi.now

/-- What the newest value makes of a limit is what the CONNACK says, unless it does not carry it. -/
theorem newest_iff {newest k : Option Nat} {d : Nat} (h : k.isSome → newest = k) :
    newest.getD d = k.getD d ↔ (k = none → newest.getD d = d) := by
  cases k with
  | none => simp
  | some v => simp [h rfl]

theorem seen_iff {k : Announced} (hi : Newest (s, r)) (hk : r.now = some k) :
    inForce s.m = k.limits s.sendMax ↔ (k.maximumQos = none → r.newest.maximumQos.getD 2 = 2) ∧
      (k.maximumPacketSize = none → r.newest.maximumPacketSize.getD 0 = 0) ∧
      r.newest.receiveMaximum.getD s.sendMax = min s.sendMax (k.receiveMaximum.getD 65535) := by
  obtain ⟨hq, hz⟩ := hi.now k hk
  have hl := hi.limits
  dsimp only at hl
  rw [hl, ← newest_iff hq, ← newest_iff hz]
  simp only [Announced.limits, Limits.mk.injEq]

theorem negotiated_step {x y : Sys × Connacks} {c : Call} (hi : Newest x) (hp : Negotiated x)
    (h : connackStep x c = some y) :
    Negotiated y ↔ Renews x c := by
  obtain ⟨s, r⟩ := x
  obtain ⟨s', r'⟩ := y
  obtain ⟨hs, hr⟩ := Machine.recorded_some.mp h
  dsimp only at hs hr
  subst hr
  have hsame (hseen : (noteConnacks s c s' r).seen = r.seen) : Negotiated (s', noteConnacks s c s' r) := by
    intro p hmem
    rw [show (s', noteConnacks s c s' r).2.seen = r.seen from hseen] at hmem
    exact hp p hmem
  cases c with
  | act a =>
    cases a with
    | connect k =>
      refine ⟨fun _ => trivial, fun _ => hsame ?_⟩
      simp only [noteConnacks]
      split <;> rfl
    | loop e =>
      cases e with
      | packet p again alloc =>
        refine ⟨fun _ => trivial, fun _ => hsame ?_⟩
        simp only [noteConnacks]
        split <;> rfl
      | tick env =>
        simp only [Renews]
        split
        · -- the end of `handle__connack`, with reason code 0
          rename_i max turn k hl hk
          have hnote : (noteConnacks s (.act (.loop (.tick env))) s' r).seen =
              (inForce s'.m, k.limits s'.sendMax) :: r.seen := by
            simp only [noteConnacks, hl, hk]
          have hforce : inForce s'.m = inForce s.m :=
            changes_limits (call_changes hi.store hs) (by simp) (by simp)
          have hmax : s'.sendMax = s.sendMax := call_sendMax hs (by simp)
          rw [← seen_iff hi hk]
          unfold Negotiated
          dsimp only
          rw [hnote, List.forall_mem_cons, hforce, hmax]
          exact ⟨fun hy => hy.1, fun heq => ⟨heq, hp⟩⟩
        · rename_i hnone
          refine ⟨fun _ => trivial, fun _ => hsame ?_⟩
          simp only [noteConnacks]
      | _ => exact ⟨fun _ => trivial, fun _ => hsame rfl⟩
    | _ => exact ⟨fun _ => trivial, fun _ => hsame rfl⟩
  | _ => exact ⟨fun _ => trivial, fun _ => hsame rfl⟩

end Steps

/-! ## Runs -/

/-- Over a run the limits are right after every CONNACK those it sets exactly when each CONNACK renews what
    those before have left. -/
theorem negotiated_iff (id : Option Bytes) (cleanStart : Bool) (cs : List Call) :
    Machine.Along connackStep Negotiated (Sys.init id cleanStart, Connacks.none) cs ↔
      Machine.Meets connackStep Renews (Sys.init id cleanStart, Connacks.none) cs :=
  Machine.along_iff_meets (J := Newest) (fun _ _ _ hi h => newest_step hi h)
    (fun _ _ _ hi hp h => negotiated_step hi hp h) cs ⟨StoreOk.nil, rfl, fun _ hk => (by cases hk)⟩
    (fun _ hp => (by cases hp))

/-- The first connection allows QoS 1 only; it is lost, and the CONNACK of the second carries nothing. -/
def allowedLess : List Call :=
  (established [⟨.maximumQos, (1 : UInt8)⟩] ++ loses ++ [tick, tick, tick] ++ reconnects).map .act

/-- QoS 2 is still refused. -/
theorem limits_remain : ¬ ∀ cs, Machine.Along connackStep Negotiated (Sys.init none true, Connacks.none) cs := by
  intro h
  have hr : (Machine.run connackStep (Sys.init none true, Connacks.none) allowedLess).map
      (fun x => (inForce x.1.m, x.2.seen.head?)) = some (⟨1, 0, 20⟩, some (⟨1, 0, 20⟩, ⟨2, 0, 20⟩)) := by decide
  obtain ⟨x, hx, hd⟩ := Option.map_eq_some_iff.mp hr
  simp only [Prod.mk.injEq] at hd
  have := (h allowedLess).last hx _ (List.mem_of_mem_head? hd.2)
  cases this

end Artemisia.Threads
