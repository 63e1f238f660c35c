/-
  Artemisia.Swift.Version — the protocol version, which the Swift object and the client each hold
  (`Mosquitto.swift`, `Mosquitto+Publish.swift`, `Mosquitto+Subscribe.swift`).

  The Swift object is made for version 5, the client for 3.1.1; `connect()` hands the version over. The calls of
  the object decide by its own copy whether properties are built, those of the client whether they are refused.
  A call reads `protocolVersion` when the serial queue runs it, so an assignment is a step of its own.

  `connectedWith` and `lastWill` only record: they are never read by a step.

  Proved:
  - `step_inv`:        what `Ok` keeps: the will of the client is the one last given, as far as its
                       version carries.
  - `versions_agree`:  in a run that meets `Ok` the copies agree, nothing is refused, and each CONNECT has
                       the will.
  - `default_disagrees`: the version the object is made with does not meet it.
-/
import Artemisia.Client.Will
import Artemisia.Threads.Outflow

namespace Artemisia.Swift

open Artemisia.Property Artemisia.Client Artemisia.Threads

/-! ## The object -/

/-- The object over its client, with the version of the last `connect()` and the last will that was given, under
    the version it was given at. -/
structure Obj where
  sys : Sys
  protocolVersion : Protocol
  connectedWith : Option Protocol
  lastWill : Option (Will × Protocol)

def Obj.init (id : Option Bytes) (cleanSession : Bool) (version : Protocol) : Obj :=
  ⟨Sys.init id cleanSession, version, none, none⟩

def IsNew (o : Obj) : Prop := ∃ id cleanSession version, o = Obj.init id cleanSession version

def built (version : Protocol) (properties : List MosquittoProperty) : List MosquittoProperty :=
  if version = .mqtt5 then properties else []

structure SubscribeCall where
  topic : CString
  qos : Int
  subOptions : UInt32
  properties : List MosquittoProperty

/-- `mosquitto_subscribe_v5`. -/
def SubscribeCall.args (a : SubscribeCall) (version : Protocol) : SubscribeArgs where
  topics := [a.topic]
  qos := a.qos
  options := if version = .mqtt5 then a.subOptions else 0
  properties := built version a.properties
  clientGenerated := true

structure UnsubscribeCall where
  topic : CString
  userProperties : List MosquittoProperty

/-- `mosquitto_unsubscribe_v5`. -/
def UnsubscribeCall.args (a : UnsubscribeCall) (version : Protocol) : UnsubscribeArgs where
  topics := [a.topic]
  properties := built version a.userProperties
  clientGenerated := true

inductive Call where
  /-- `protocolVersion` is assigned. -/
  | assign (version : Protocol)
  | setWill (a : WillArgs)
  | clearWill
  | publish (alloc : Alloc) (a : PublishArgs)
  | subscribe (alloc : Alloc) (a : SubscribeCall)
  | unsubscribe (alloc : Alloc) (a : UnsubscribeCall)
  | disconnect (reasonCode : UInt8) (properties : List MosquittoProperty)
  | connect (c : ConnectConfig)
  /-- The application's queue goes on with its call. -/
  | queue (env : RecEnv)
  | loop (e : LoopEv)

def willArgs (version : Protocol) (a : WillArgs) : WillArgs := { a with properties := built version a.properties }

def publishArgs (version : Protocol) (a : PublishArgs) : PublishArgs :=
  { a with properties := built version a.properties }

/-- The arguments of `setWill` are valid. -/
def valid (version : Protocol) (a : WillArgs) : Bool :=
  a.plainValid ∧ checkAll .will (built version a.properties) = .success

/-! ## Steps -/

/-- The queue runs a call that is one step. -/
def Obj.call (o : Obj) (m : Mosq) : Option Obj :=
  match o.sys.queue with
  | .idle => some { o with sys := o.sys.upd m }
  | _ => none

def Obj.act (o : Obj) (a : Act) : Option Obj := (Threads.step o.sys a).map fun s => { o with sys := s }

def Obj.step (o : Obj) : Call → Option Obj
  | .assign version => some { o with protocolVersion := version }
  | .setWill a =>
    Obj.call { o with lastWill := if valid o.protocolVersion a then some (a.will, o.protocolVersion)
                        else o.lastWill }
      (mosquittoWillSetV5 o.sys.m (willArgs o.protocolVersion a)).1
  | .clearWill => Obj.call { o with lastWill := none } (willClear o.sys.m)
  | .publish alloc a => o.act (.publish alloc (publishArgs o.protocolVersion a))
  | .subscribe alloc a => o.call (mosquittoSubscribeMultiple alloc o.sys.m (a.args o.protocolVersion)).1
  | .unsubscribe alloc a => o.call (mosquittoUnsubscribeMultiple alloc o.sys.m (a.args o.protocolVersion)).1
  | .disconnect reasonCode properties =>
    o.act (.disconnect (if o.protocolVersion = .mqtt5 then reasonCode else 0)
      (built o.protocolVersion properties))
  | .connect c =>
    Obj.act { o with connectedWith := some o.protocolVersion }
      (.connect { c with protocolVersion := o.protocolVersion })
  | .queue env => o.act (.queue env)
  | .loop e => o.act (.loop e)

/-! ## What is asked of a run -/

/-- The version that the client was handed, or was made for. -/
def Obj.inForce (o : Obj) : Protocol := o.connectedWith.getD .mqtt311

/-- The calls that look at the version come while it is 5 exactly if that in force is; and `connect()` does
    not bring in version 5 after a will that was given, with properties, before that. -/
def Ok (o : Obj) : Call → Bool
  | .setWill _ | .publish .. | .subscribe .. | .unsubscribe .. | .disconnect .. =>
    decide (o.protocolVersion = .mqtt5 ↔ o.inForce = .mqtt5)
  | .connect _ =>
    o.protocolVersion ≠ .mqtt5 ∨ o.lastWill.all (fun x => x.2 = .mqtt5 ∨ x.1.properties = [])
  | _ => true

/-- The two copies agree where the call looks at them: `connect()` after it has handed the version over. -/
def Agrees (o o' : Obj) : Call → Prop
  | .setWill _ | .publish .. | .subscribe .. | .unsubscribe .. | .disconnect .. =>
    o.protocolVersion = .mqtt5 ↔ o.sys.m.protocol = .mqtt5
  | .connect _ => o.protocolVersion = .mqtt5 ↔ o'.sys.m.protocol = .mqtt5
  | _ => True

/-- What the client answers, where it looks at properties. -/
def answer (o : Obj) : Call → Option Rc
  | .setWill a => some (mosquittoWillSetV5 o.sys.m (willArgs o.protocolVersion a)).2
  | .publish alloc a => some (mosquittoPublishV5 alloc o.sys.m (publishArgs o.protocolVersion a)).2
  | .subscribe alloc a => some (mosquittoSubscribeMultiple alloc o.sys.m (a.args o.protocolVersion)).2
  | .unsubscribe alloc a => some (mosquittoUnsubscribeMultiple alloc o.sys.m (a.args o.protocolVersion)).2
  | .disconnect _ properties => some (disconnectChecks o.sys.m (built o.protocolVersion properties))
  | .queue env => match o.sys.queue with
    | .connectBind c => some (connectBind env o.sys.m c).2
    | .rec_ .start properties => (reconnectStep env properties o.sys.m .start).2.getRight?
    | .discSend reason properties => some (disconnectSend env.alloc o.sys.m reason properties).2
    | _ => none
  | _ => none

/-- The will as a packet of this version says it: there are properties in version 5 only. -/
def within (version : Protocol) (w : Will) : Will := { w with properties := built version w.properties }

/-- The properties that `connect()` goes on with. -/
def pending : QueuePc → List MosquittoProperty
  | .loopStart c | .connectBind c => c.properties
  | .setNew properties | .rec_ _ properties => properties
  | .idle | .discSend .. => []

structure Inv (o : Obj) : Prop where
  protocol : o.sys.m.protocol = o.inForce
  will : o.sys.m.will = o.lastWill.map fun x => within x.2 x.1
  /-- A will whose properties were dropped is none of a client of version 5. -/
  whole : o.inForce = .mqtt5 → ∀ x ∈ o.lastWill, x.2 = .mqtt5 ∨ x.1.properties = []
  carries : Carries o.sys.m (pending o.sys.queue)

/-! ## What a step leaves alone -/

theorem built_carries {m : Mosq} {version : Protocol} (h : version = .mqtt5 → m.protocol = .mqtt5)
    (properties : List MosquittoProperty) : Carries m (built version properties) :=
  fun hm => if_neg fun hv => hm (h hv)

/-- Only `connect()` changes the protocol version of the client. -/
theorem step_protocol {s s' : Sys} {a : Act} (h : Moves s a s') (ha : ∀ c, a ≠ .connect c) :
    s'.m.protocol = s.m.protocol := by
  cases h with
  | connect c hq => exact absurd rfl (ha c)
  | publish alloc a hq ha => exact protocol_of_conn (conn_mosquittoPublishV5 alloc s.m a)
  | bind env c hq => exact protocol_of_conn (conn_connectBind env s.m c)
  | queueRec env pc pc' l m hq e => exact (conn_recMoves_protocol e).2
  | queueRecEnd env pc l m rc hq e => exact (conn_recMoves_protocol e).2
  | discSend env r l hq => exact protocol_of_conn (conn_disconnectSend env.alloc s.m r l)
  | packet i n p again alloc hl hs hp t ht =>
    cases ht with
    | done m rc e hc => exact protocol_of_conn hc
    | connack m r max e hc => exact protocol_of_conn hc
    | unsupported m e hc => exact protocol_of_conn hc
    | disconnect e => rfl
  | connack r max turn env hl =>
    obtain ⟨c, hc⟩ := connackSwitch_state env.alloc s.m r
    exact congrArg Conn.protocol hc
  | write i n taken e again m rc hl he => exact protocol_of_conn (conn_written he)
  | writeDisconnect i n taken e again m hl he => exact congrArg Conn.protocol (conn_writtenDisconnect he)
  | ping alloc hl hs ht => exact protocol_of_conn (conn_sendPingreq alloc s.m)
  | loopRec env pc pc' m hl e => exact (conn_recMoves_protocol e).2
  | loopRecEnd env pc m rc hl e => exact (conn_recMoves_protocol e).2
  | _ => rfl

/-- `connect()` goes on with the properties it has, or ends. -/
theorem step_pending {s s' : Sys} {a : Act} (h : Moves s a s') (ha : ∀ c, a ≠ .connect c) :
    pending s'.queue = [] ∨ pending s'.queue = pending s.queue := by
  cases h with
  | connect c hq => exact absurd rfl (ha c)
  | disconnect r l hq hc => exact .inl rfl
  | create env c hq ht => exact .inr (by rw [hq]; rfl)
  | created env c hq ht => exact .inr (by rw [hq]; rfl)
  | bind env c hq =>
    dsimp only
    split
    · exact .inr (by rw [hq]; rfl)
    · exact .inl rfl
  | setNew env l hq => exact .inr (by rw [hq]; rfl)
  | queueRec env pc pc' l m hq e => exact .inr (by rw [hq]; rfl)
  | queueRecEnd env pc l m rc hq e => exact .inl rfl
  | discSend env r l hq => exact .inl rfl
  | packet i n p again alloc hl hs hp t ht => exact .inr (by rw [(readMoves_frame ht).1])
  | _ => exact .inr rfl

/-- A CONNECT that is queued says what the client holds. -/
theorem mem_connectsNow {s : Sys} {a : Act} {d : ConnectData} (h : d ∈ connectsNow s a) :
    d.protocol = s.m.protocol ∧ d.will = s.m.will := by
  have hands {alloc : Alloc} {l : List MosquittoProperty} (h : d ∈ connectHands alloc s.m l) :
      d.protocol = s.m.protocol ∧ d.will = s.m.will := by
    unfold connectHands at h
    split at h
    · rw [List.mem_singleton.mp h]
      exact ⟨rfl, rfl⟩
    · cases h
  unfold connectsNow at h
  split at h
  · split at h
    · exact hands h
    · cases h
  · split at h
    · exact hands h
    · cases h
  · cases h

theorem subscribe_frame (alloc : Alloc) (m : Mosq) (a : SubscribeArgs) :
    (mosquittoSubscribeMultiple alloc m a).1.protocol = m.protocol ∧
      (mosquittoSubscribeMultiple alloc m a).1.outflow = m.outflow := by
  rcases subscribe_cases alloc m a with ⟨-, -, h⟩ | ⟨rc, -, h⟩
  · rw [h]
    exact ⟨rfl, outflow_packetQueue _ rfl⟩
  · rw [h]
    exact ⟨rfl, rfl⟩

theorem unsubscribe_frame (alloc : Alloc) (m : Mosq) (a : UnsubscribeArgs) :
    (mosquittoUnsubscribeMultiple alloc m a).1.protocol = m.protocol ∧
      (mosquittoUnsubscribeMultiple alloc m a).1.outflow = m.outflow := by
  rcases unsubscribe_cases alloc m a with ⟨-, -, h⟩ | ⟨rc, -, h⟩
  · rw [h]
    exact ⟨rfl, outflow_packetQueue _ rfl⟩
  · rw [h]
    exact ⟨rfl, rfl⟩

/-! ## One step -/

section Steps

variable {o o' : Obj}

theorem call_cases {m : Mosq} (h : o.call m = some o') :
    o.sys.queue = .idle ∧ o' = { o with sys := o.sys.upd m } := by
  unfold Obj.call at h
  split at h
  · rename_i hq
    exact ⟨hq, (Option.some.inj h).symm⟩
  · cases h

theorem act_cases {a : Act} (h : o.act a = some o') : ∃ s, Moves o.sys a s ∧ o' = { o with sys := s } := by
  obtain ⟨s, hs, rfl⟩ := Option.map_eq_some_iff.mp h
  exact ⟨s, step_moves hs, rfl⟩

/-- A step of the two threads that is not the start of `connect()`. -/
theorem inv_act {a : Act} (hi : Inv o) (ha : ∀ c, a ≠ .connect c) (h : o.act a = some o') : Inv o' := by
  obtain ⟨s, hm, rfl⟩ := act_cases h
  have hp : s.m.protocol = o.sys.m.protocol := step_protocol hm ha
  have hw : s.m.will = o.sys.m.will := congrArg Outflow.will (step_outflow hm)
  refine ⟨hp.trans hi.protocol, hw.trans hi.will, hi.whole, fun h3 => ?_⟩
  rcases step_pending hm ha with hq | hq
  · exact hq
  · exact hq.trans (hi.carries (hp ▸ h3))

theorem valid_iff {version : Protocol} {a : WillArgs} : valid version a = true ↔
    (willArgs version a).plainValid = true ∧ checkAll .will (willArgs version a).properties = .success :=
  decide_eq_true_iff

/-- A call of one step, which leaves the version alone. -/
theorem inv_call {m : Mosq} {w : Option (Will × Protocol)} (hi : Inv o) (hp : m.protocol = o.sys.m.protocol)
    (hw : m.will = w.map fun x => within x.2 x.1)
    (hwhole : o.inForce = .mqtt5 → ∀ x ∈ w, x.2 = .mqtt5 ∨ x.1.properties = [])
    (h : Obj.call { o with lastWill := w } m = some o') : Inv o' := by
  obtain ⟨hq, rfl⟩ := call_cases h
  refine ⟨hp.trans hi.protocol, hw, hwhole, fun _ => ?_⟩
  show pending o.sys.queue = []
  rw [show o.sys.queue = .idle from hq]
  rfl

theorem startConnect_protocol (s : Sys) (c : ConnectConfig) :
    (startConnect s c).m.protocol = c.protocolVersion := by
  have h := fun c' => congrArg Conn.protocol (conn_setupMosquitto s.m c')
  unfold startConnect
  split
  · exact h c
  · exact h { c with properties := [] }

theorem step_inv {c : Call} (hi : Inv o) (hok : Ok o c = true) (h : o.step c = some o') : Inv o' := by
  cases c with
  | assign version =>
    cases h
    exact ⟨hi.protocol, hi.will, hi.whole, hi.carries⟩
  | setWill a =>
    have hv : o.protocolVersion = .mqtt5 ↔ o.inForce = .mqtt5 := of_decide_eq_true hok
    obtain ⟨rc, -, e⟩ := mosquittoWillSetV5_eq (a := willArgs o.protocolVersion a)
      (built_carries (fun h5 => hi.protocol.trans (hv.mp h5)) a.properties)
    have hstep := h
    simp only [Obj.step, e] at hstep
    by_cases hval : valid o.protocolVersion a = true
    · -- the will is taken, with the properties that were built
      have hc : (willArgs o.protocolVersion a).plainValid = true ∧
          checkAll .will (willArgs o.protocolVersion a).properties = .success := valid_iff.mp hval
      rw [if_pos hval, if_pos hc] at hstep
      refine inv_call hi ?_ ?_ (fun h5 x hx => .inl ?_) hstep
      · rfl
      · rfl
      · rw [← Option.mem_some.mp hx]
        exact hv.mpr h5
    · have hc : ¬ ((willArgs o.protocolVersion a).plainValid = true ∧
          checkAll .will (willArgs o.protocolVersion a).properties =
            .success) := fun hc => hval (valid_iff.mpr hc)
      rw [if_neg hval, if_neg hc] at hstep
      exact inv_call hi rfl hi.will hi.whole hstep
  | clearWill => exact inv_call (w := none) hi (m := willClear o.sys.m) rfl rfl (fun _ x hx => by cases hx) h
  | publish alloc a => exact inv_act hi (by simp) h
  | subscribe alloc a =>
    obtain ⟨hp, ho⟩ := subscribe_frame alloc o.sys.m (a.args o.protocolVersion)
    exact inv_call hi hp ((congrArg Outflow.will ho).trans hi.will) hi.whole h
  | unsubscribe alloc a =>
    obtain ⟨hp, ho⟩ := unsubscribe_frame alloc o.sys.m (a.args o.protocolVersion)
    exact inv_call hi hp ((congrArg Outflow.will ho).trans hi.will) hi.whole h
  | disconnect r l => exact inv_act hi (by simp) h
  | connect c =>
    obtain ⟨s, hm, rfl⟩ := act_cases h
    have hw : s.m.will = o.sys.m.will := congrArg Outflow.will (step_outflow hm)
    cases hm with
    | connect c' hq =>
      have hp := startConnect_protocol o.sys { c with protocolVersion := o.protocolVersion }
      refine ⟨hp, hw.trans hi.will, fun h5 x hx => ?_, fun h3 => ?_⟩
      · simp only [Ok, decide_eq_true_eq] at hok
        rcases hok with hne | hall
        · exact absurd h5 hne
        · rw [Option.mem_def.mp hx] at hall
          simpa using hall
      · have hne : o.protocolVersion ≠ .mqtt5 := fun h5 => h3 (hp.trans h5)
        simp [startConnect, hne, pending]
  | queue env => exact inv_act hi (by simp) h
  | loop e => exact inv_act hi (by simp) h

/-! ## What a step says -/

theorem inv_agrees {c : Call} (hi : Inv o) (hok : Ok o c = true) (h : o.step c = some o') : Agrees o o' c := by
  have looks {b : Bool} (hb : b = decide (o.protocolVersion = .mqtt5 ↔ o.inForce = .mqtt5)) (hok : b = true) :
      o.protocolVersion = .mqtt5 ↔ o.sys.m.protocol = .mqtt5 := by
    rw [hi.protocol]
    exact of_decide_eq_true (hb ▸ hok)
  cases c with
  | setWill | publish | subscribe | unsubscribe | disconnect => exact looks rfl hok
  | connect c =>
    obtain ⟨s, hm, rfl⟩ := act_cases h
    cases hm with
    | connect c' hq =>
      show o.protocolVersion = .mqtt5 ↔ (startConnect o.sys _).m.protocol = .mqtt5
      rw [startConnect_protocol]
  | _ => trivial

theorem inv_answer {c : Call} (hi : Inv o) (hok : Ok o c = true) : answer o c ≠ some .notSupported := by
  have passes {b : Bool} (hb : b = decide (o.protocolVersion = .mqtt5 ↔ o.inForce = .mqtt5)) (hok : b = true)
      (l : List MosquittoProperty) : Carries o.sys.m (built o.protocolVersion l) :=
    built_carries (fun h5 => hi.protocol.trans ((of_decide_eq_true (hb ▸ hok)).mp h5)) l
  cases c with
  | setWill a =>
    obtain ⟨rc, hrc, e⟩ := mosquittoWillSetV5_eq (a := willArgs o.protocolVersion a) (passes rfl hok a.properties)
    simpa [answer, e] using hrc
  | publish alloc a =>
    have : (mosquittoPublishV5 alloc o.sys.m (publishArgs o.protocolVersion a)).2 ≠ .notSupported :=
      publish_supported (passes rfl hok a.properties)
    simpa [answer] using this
  | subscribe alloc a =>
    have : (mosquittoSubscribeMultiple alloc o.sys.m (a.args o.protocolVersion)).2 ≠ .notSupported :=
      subscribe_supported (passes rfl hok a.properties)
    simpa [answer] using this
  | unsubscribe alloc a =>
    have : (mosquittoUnsubscribeMultiple alloc o.sys.m (a.args o.protocolVersion)).2 ≠ .notSupported :=
      unsubscribe_supported (passes rfl hok a.userProperties)
    simpa [answer] using this
  | disconnect r l =>
    have := disconnectChecks_supported (passes rfl hok l)
    simpa [answer] using this
  | queue env =>
    have hc := hi.carries
    simp only [answer]
    split
    · simpa using connectBind_supported env _
    · rename_i l hq
      rw [hq] at hc
      have := reconnectStart_supported env (show Carries o.sys.m l from hc)
      intro h
      exact this (Sum.getRight?_eq_some_iff.mp h)
    · simpa using disconnectSend_supported _
    · simp
  | _ => simp [answer]

theorem within_within {version v : Protocol} {w : Will} (h : version = .mqtt5 → v = .mqtt5 ∨ w.properties = []) :
    within version (within v w) = within version w := by
  by_cases hv : version = .mqtt5
  · rcases h hv with h | h
    · simp [within, built, h]
    · simp [within, built, h]
  · simp [within, built, hv]

/-- A CONNECT says the will last given. -/
theorem inv_connect {d : ConnectData} (hi : Inv o) (hd : d.protocol = o.sys.m.protocol ∧ d.will = o.sys.m.will) :
    d.will.map (within d.protocol) = o.lastWill.map fun x => within d.protocol x.1 := by
  rw [hd.1, hd.2, hi.will, hi.protocol, Option.map_map]
  refine Option.map_congr fun x hx => within_within fun h5 => hi.whole h5 x hx

theorem step_connects {c : Call} (h : o.step c = some o') :
    ∃ ds, o'.sys.m.outflow.connects = ds ++ o.sys.m.outflow.connects ∧
      ∀ d ∈ ds, d.protocol = o.sys.m.protocol ∧ d.will = o.sys.m.will := by
  have acts {x : Obj} {a : Act} (hs : x.sys = o.sys) (h : x.act a = some o') :
      ∃ ds, o'.sys.m.outflow.connects = ds ++ o.sys.m.outflow.connects ∧
        ∀ d ∈ ds, d.protocol = o.sys.m.protocol ∧ d.will = o.sys.m.will := by
    obtain ⟨s, hm, rfl⟩ := act_cases h
    rw [hs] at hm
    exact ⟨connectsNow o.sys a, congrArg Outflow.connects (step_outflow hm), fun d hd => mem_connectsNow hd⟩
  have calls {x : Obj} {m : Mosq} (hm : m.outflow.connects = o.sys.m.outflow.connects) (h : x.call m = some o') :
      ∃ ds, o'.sys.m.outflow.connects = ds ++ o.sys.m.outflow.connects ∧
        ∀ d ∈ ds, d.protocol = o.sys.m.protocol ∧ d.will = o.sys.m.will := by
    obtain ⟨-, rfl⟩ := call_cases h
    exact ⟨[], hm, fun d hd => by cases hd⟩
  cases c with
  | assign version =>
    cases h
    exact ⟨[], rfl, fun d hd => by cases hd⟩
  | setWill a =>
    refine calls ?_ h
    unfold mosquittoWillSetV5 willSet
    repeat' split
    all_goals rfl
  | clearWill => exact calls (m := willClear o.sys.m) rfl h
  | subscribe alloc a => exact calls (congrArg Outflow.connects (subscribe_frame alloc o.sys.m _).2) h
  | unsubscribe alloc a => exact calls (congrArg Outflow.connects (unsubscribe_frame alloc o.sys.m _).2) h
  | connect c => exact acts (x := { o with connectedWith := some o.protocolVersion }) rfl h
  | _ => exact acts rfl h

end Steps

/-! ## Runs -/

theorem init_inv {o : Obj} (h : IsNew o) : Inv o := by
  obtain ⟨id, cleanSession, version, rfl⟩ := h
  exact ⟨rfl, rfl, fun _ x hx => absurd hx (by simp [Obj.init]), fun _ => rfl⟩

/-- In a run that meets the condition the two copies agree at every call, none is refused for its
    properties, and each CONNECT that is queued says the will last given, with its properties. -/
theorem versions_agree {o o' : Obj} {c : Call} (hr : Machine.Reach Obj.step IsNew (fun o c => Ok o c = true) o)
    (hok : Ok o c = true) (h : o.step c = some o') :
    Agrees o o' c ∧ answer o c ≠ some .notSupported ∧
      ∃ ds, o'.sys.m.outflow.connects = ds ++ o.sys.m.outflow.connects ∧
        ∀ d ∈ ds, d.will.map (within d.protocol) = o.lastWill.map fun x => within d.protocol x.1 := by
  have hi : Inv o := hr.inv (fun _ => init_inv) (fun _ _ _ hi hok hs => step_inv hi hok hs)
  obtain ⟨ds, hds, hsay⟩ := step_connects h
  exact ⟨inv_agrees hi hok h, inv_answer hi hok, ds, hds, fun d hd => inv_connect hi (hsay d hd)⟩

/-- A will that is sent ten seconds after the client has gone. -/
def delayedWill : WillArgs where
  topic := some (.of [116])
  payload := [98]
  qos := 1
  retain := false
  properties := [⟨.willDelayInterval, (10 : UInt32)⟩]

/-- `connect()`, up to `send__connect`. -/
def connecting : List Call := .connect .plain :: List.replicate 8 (.queue .good)

/-- A will is set after `connect()`, which is then called again. -/
def willThenConnect : List Call := connecting ++ [.queue .good, .setWill delayedWill] ++ connecting

theorem versions_agree_reconnect :
    ∃ o o', Machine.run Obj.step (Obj.init none true .mqtt5) willThenConnect = some o ∧
    o.step (.queue .good) = some o' ∧ o.lastWill = some (delayedWill.will, .mqtt5) ∧
    Agrees o o' (.queue .good) ∧ answer o (.queue .good) ≠ some .notSupported ∧
      ∃ ds, o'.sys.m.outflow.connects = ds ++ o.sys.m.outflow.connects ∧
        ∀ d ∈ ds, d.will.map (within d.protocol) = o.lastWill.map fun x => within d.protocol x.1 := by
  have hm : decide (Machine.Meets Obj.step (fun o c => Ok o c = true) (Obj.init none true .mqtt5)
      willThenConnect) = true := by
    decide
  have hr : (Machine.run Obj.step (Obj.init none true .mqtt5) willThenConnect).map
      (fun o => (o.lastWill, (o.step (.queue .good)).isSome)) = some (some (delayedWill.will, .mqtt5),
        true) := by decide
  obtain ⟨o, hs, hreach, hf⟩ := Machine.reach_of_map IsNew ⟨none, true, .mqtt5, rfl⟩ (of_decide_eq_true hm) hr
  rw [Prod.mk.injEq] at hf
  obtain ⟨o', ho'⟩ := Option.isSome_iff_exists.mp hf.2
  exact ⟨o, o', hs, ho', hf.1, versions_agree hreach rfl ho'⟩

/-- The object is made for version 5, the client is not: a will is refused for its properties, and the
    CONNECT that follows has none. -/
theorem default_disagrees : (¬ ∀ o o' c, Machine.Reach Obj.step IsNew Machine.anyAct o → o.step c = some o' →
      Agrees o o' c ∧ answer o c ≠ some .notSupported) ∧
    (Machine.run Obj.step (Obj.init none true .mqtt5) (.setWill delayedWill :: connecting ++ [.queue .good])).map
      (fun o => o.sys.m.outflow.connects.map ConnectData.will) = some [none] ∧
    valid .mqtt5 delayedWill = true := by
  refine ⟨fun h => ?_, by decide, by decide⟩
  have hs : (Obj.init none true .mqtt5).step (.setWill delayedWill) ≠ none := by decide
  obtain ⟨o', ho'⟩ := Option.ne_none_iff_exists'.mp hs
  exact (h _ o' _ (.init ⟨none, true, .mqtt5, rfl⟩) ho').2 (by decide)

end Artemisia.Swift
