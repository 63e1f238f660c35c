/-
  Artemisia.Client.Config — what a client is configured with: `mosquitto_new` (`mosquitto.c`), the
  options that end up in a CONNECT (`options.c`) and the arguments of `mosquitto_connect_bind_v5` (`connect.c`).

  A configuration is what the calls that were accepted have been given; the client holds its own copy of it.

  Proved:
  - `configured_eq`:      the client holds what it was configured with.
  - `connectBindV5_data`: up to the keepalive, that is what `send__connect` finds when it is called.
-/
import Artemisia.Client.Will
import Artemisia.Property.Section
import Artemisia.Threads.Moves

namespace Artemisia.Client

open Artemisia.Property

/-! ## The setters -/

/-- What a client is configured with before it connects. -/
structure Config where
  id : Option CString
  cleanStart : Bool
  protocol : Protocol
  receiveMaximum : Nat
  username : Option CString
  password : Option CString
  will : Option Will

def newChecks (id : Option CString) (cleanStart : Bool) : Rc :=
  match id with
  | none => if cleanStart = false then .inval else .success
  | some id => if id.bytes = [] then .inval else if validateUtf8 id.bytes ≠ .success then .malformedUtf8
      else .success

inductive Setter where
  /-- `MOSQ_OPT_PROTOCOL_VERSION`. -/
  | protocolVersion (version : Protocol)
  /-- `MOSQ_OPT_RECEIVE_MAXIMUM`. -/
  | receiveMaximum (value : Int)
  /-- `mosquitto_username_pw_set`. -/
  | usernamePw (username password : Option CString)
  /-- `mosquitto_will_set_v5`. -/
  | will (a : WillArgs)
  /-- `mosquitto_will_clear`. -/
  | clearWill

def usernamePwRc (m : Mosq) (username password : Option CString) : Rc :=
  if m.protocol ≠ .mqtt5 ∧ password.isSome ∧ username = none then .inval
  else if username.any (fun u => validateUtf8 u.bytes ≠ .success) then .malformedUtf8
  else .success

def Setter.run (m : Mosq) : Setter → Mosq × Rc
  | .protocolVersion version => ({ m with protocol := version }, .success)
  | .receiveMaximum value =>
    ({ m with msgsIn := m.msgsIn.setMaximum value }, if intOptionMaximum value = none then .inval else .success)
  | .usernamePw username password => (usernamePwSet m username password, usernamePwRc m username password)
  | .will a => mosquittoWillSetV5 m a
  | .clearWill => (willClear m, .success)

def Setter.apply (c : Config) : Setter → Config
  | .protocolVersion version => { c with protocol := version }
  | .receiveMaximum value => { c with receiveMaximum := (intOptionMaximum value).getD c.receiveMaximum }
  | .usernamePw username password => { c with username := username, password := password }
  | .will a => { c with will := some a.will }
  | .clearWill => { c with will := none }

/-- The properties are ones that an application can have. -/
def Setter.Possible : Setter → Prop
  | .will a => ∃ generated, Obtained a.properties generated
  | _ => True

/-- The clients that accepted calls lead to, with their configuration. -/
inductive Configured : Config → Mosq → Prop where
  | new (id : Option CString) (cleanStart : Bool) : newChecks id cleanStart = .success →
      Configured ⟨id, cleanStart, .mqtt311, 20, none, none, none⟩ (Mosq.new (id.map CString.bytes) cleanStart)
  | set (c : Config) (m : Mosq) (s : Setter) : Configured c m → s.Possible → (s.run m).2 = .success →
      Configured (s.apply c) (s.run m).1

/-! ## Connecting -/

/-- `mosquitto__reconnect` as far as `send__connect`, where it gets that far. -/
def untilSend (env : RecEnv) (properties : List MosquittoProperty) : Nat → RecPc → Mosq → Option Mosq
  | 0, _, _ => none
  | n + 1, pc, m =>
    if pc = .sendConnect then some m
    else match reconnectStep env properties m pc with
      | (m, .inl pc) => untilSend env properties n pc m
      | (_, .inr _) => none

/-- `mosquitto_connect_bind_v5` as far as `send__connect`. It checks the whole list, and
    `mosquitto__reconnect` goes on with its outgoing properties. -/
def connectBindV5 (env : RecEnv) (m : Mosq) (call : ConnectConfig) (clientGenerated : Bool) : Option Mosq :=
  match connectBind env m call with
  | (m, .success) => untilSend env (outgoingProperties call.properties clientGenerated) 6 .start (m.setState .new)
  | _ => none

/-- The client id that `mosquitto__connect_init` makes up, before version 5, if there is none. -/
def idFor (env : RecEnv) (c : Config) : Option Bytes :=
  if c.id = none ∧ c.protocol ≠ .mqtt5 then some ([109, 111, 115, 113, 45] ++ env.randomId.take 18)
  else c.id.map CString.bytes

/-- The CONNECT properties of version 5: those given, with the Receive Maximum if they do not have it. -/
def propertiesFor (c : Config) (properties : List MosquittoProperty) : List MosquittoProperty :=
  if c.protocol ≠ .mqtt5 ∨ properties.any (·.identifier = .receiveMaximum) then properties
  else properties ++ [⟨.receiveMaximum, UInt16.ofNat c.receiveMaximum⟩]

section Properties

variable {c : Config} {l : List MosquittoProperty} {p : MosquittoProperty}

theorem mem_propertiesFor (h : p ∈ l) : p ∈ propertiesFor c l := by
  unfold propertiesFor
  split
  · exact h
  · exact List.mem_append_left _ h

theorem of_mem_propertiesFor (h : p ∈ propertiesFor c l) : p ∈ l ∨
    p = ⟨.receiveMaximum, UInt16.ofNat c.receiveMaximum⟩ := by
  unfold propertiesFor at h
  split at h
  · exact .inl h
  · exact (List.mem_append.mp h).imp_right List.mem_singleton.mp

end Properties

def Config.said (c : Config) (env : RecEnv) (keepAlive : Int) (properties : List MosquittoProperty) :
    ConnectData where
  protocol := c.protocol
  cleanStart := c.cleanStart
  id := idFor env c
  username := c.username.map CString.bytes
  password := c.password.map CString.bytes
  keepalive := keepAlive.toNat
  will := c.will
  properties := propertiesFor c properties

/-! ## What the client holds -/

theorem setMaximum_inflightMaximum (d : MsgData) (value : Int) :
    (d.setMaximum value).inflightMaximum = (intOptionMaximum value).getD d.inflightMaximum := rfl

/-- A will that is accepted is stored as it is given. -/
theorem mosquittoWillSetV5_ok {m : Mosq} {a : WillArgs} (h : (mosquittoWillSetV5 m a).2 = .success) :
    (mosquittoWillSetV5 m a).1 = { m with will := some a.will } := by
  unfold mosquittoWillSetV5 at h ⊢
  split at h
  · rename_i hne
    exact absurd h hne
  rename_i hall
  rw [if_neg hall]
  unfold willSet at h ⊢
  split at h
  · cases h
  rename_i topic ht
  split at h
  · cases h
  rename_i hp
  split at h
  · cases h
  rename_i hc
  split at h
  · cases h
  rename_i hu
  split at h
  · cases h
  rename_i h5
  rw [if_neg hp, if_neg hc, if_neg hu, if_neg h5]
  split at h
  · simp [WillArgs.will, ht]
  · rename_i hne
    exact absurd h hne

theorem usernamePwSet_ok {m : Mosq} {username password : Option CString}
    (h : usernamePwRc m username password = .success) :
    usernamePwSet m username password =
      { m with username := username.map CString.bytes, password := password.map CString.bytes } := by
  unfold usernamePwRc at h
  unfold usernamePwSet
  split at h
  · cases h
  rename_i h3
  rw [if_neg h3]
  split at h
  · cases h
  rename_i hu
  cases username with
  | none => rfl
  | some u =>
    have hv : ¬ validateUtf8 u.bytes ≠ .success := by simpa using hu
    show (if validateUtf8 u.bytes ≠ .success then _ else _) = _
    rw [if_neg hv]
    rfl

structure Holds (c : Config) (m : Mosq) : Prop where
  id : m.id = c.id.map CString.bytes
  cleanStart : m.cleanStart = c.cleanStart
  protocol : m.protocol = c.protocol
  receiveMaximum : m.msgsIn.inflightMaximum = c.receiveMaximum
  username : m.username = c.username.map CString.bytes
  password : m.password = c.password.map CString.bytes
  will : m.will = c.will
  /-- An empty client id is refused. -/
  named : ∀ id ∈ c.id, id.bytes ≠ []
  obtained : ∀ w ∈ c.will, ∃ generated, Obtained w.properties generated

theorem configured_eq {c : Config} {m : Mosq} (h : Configured c m) : Holds c m := by
  induction h with
  | new id cleanStart hid =>
    refine ⟨rfl, rfl, rfl, rfl, rfl, rfl, rfl, ?_, by simp⟩
    intro i hi he
    have hsome : id = some i := hi
    simp [hsome, newChecks, he] at hid
  | set c m s _ hp hs ih =>
    cases s with
    | protocolVersion version => exact { ih with protocol := rfl }
    | receiveMaximum value =>
      refine { ih with receiveMaximum := ?_ }
      show (m.msgsIn.setMaximum value).inflightMaximum = (intOptionMaximum value).getD c.receiveMaximum
      rw [setMaximum_inflightMaximum, ih.receiveMaximum]
    | usernamePw username password =>
      have hset : usernamePwSet m username password = _ := usernamePwSet_ok hs
      show Holds _ (usernamePwSet m username password)
      rw [hset]
      exact { ih with username := rfl, password := rfl }
    | will a =>
      have hset : (mosquittoWillSetV5 m a).1 = _ := mosquittoWillSetV5_ok hs
      show Holds _ (mosquittoWillSetV5 m a).1
      rw [hset]
      exact { ih with will := rfl, obtained := fun w hw => (Option.some.inj hw) ▸ hp }
    | clearWill => exact { ih with will := rfl, obtained := fun w hw => by cases hw }

/-! ## What `send__connect` finds -/

/-- The pieces of `mosquitto__reconnect` before `send__connect` leave what it says alone. -/
theorem untilSend_data {env : RecEnv} {l : List MosquittoProperty} {n : Nat} {pc : RecPc} {m m' : Mosq}
    (h : untilSend env l n pc m = some m') : connectDataOf m' l = connectDataOf m l := by
  induction n generalizing pc m with
  | zero => cases h
  | succ n ih =>
    unfold untilSend at h
    split at h
    · rw [Option.some.inj h]
    · rename_i hpc
      split at h
      · rename_i m1 pc' e
        rw [ih h]
        cases Threads.reconnectStep_moves e with
        | unsent rc hs => exact absurd rfl hpc
        | _ => rfl
      · cases h

/-- There are no properties before version 5. -/
theorem untilSend_carries {env : RecEnv} {l : List MosquittoProperty} {n : Nat} {m m' : Mosq}
    (h : untilSend env l n .start m = some m') : Carries m l := by
  intro h3
  by_contra hl
  have hrefused : ∃ rc, reconnectStep env l m .start = (m, .inr rc) := by
    unfold reconnectStep
    dsimp only
    split
    · exact ⟨_, rfl⟩
    · rw [if_pos ⟨h3, hl⟩]
      exact ⟨_, rfl⟩
  obtain ⟨rc, e⟩ := hrefused
  cases n with
  | zero => cases h
  | succ n =>
    rw [untilSend, if_neg (by simp), e] at h
    cases h

theorem readPropertyInt16_none {l : List MosquittoProperty} :
    readPropertyInt16 l PropId.receiveMaximum.code false = none ↔
    l.any (·.identifier = .receiveMaximum) = false := by
  rw [readPropertyInt16, readProperty, getProperty_first]
  induction l with
  | nil => exact ⟨fun _ => rfl, fun _ => rfl⟩
  | cons p l ih =>
    by_cases hp : p.identifier = .receiveMaximum
    · have hsome : (p.valueAs .int16).isSome := MosquittoProperty.valueAs_isSome.mpr (by rw [hp]; rfl)
      simp [entries, hp]
      exact Option.isSome_iff_ne_none.mp hsome
    · have hcode : ¬ p.identifier.code = PropId.receiveMaximum.code := fun h => hp (PropId.code_inj.mp h)
      simpa [entries, hp, hcode] using ih

theorem connectProperties_eq {c : Config} {m : Mosq} {l : List MosquittoProperty} (hp : m.protocol = c.protocol)
    (hm : m.msgsIn.inflightMaximum = c.receiveMaximum) (hl : Carries m l) :
    connectProperties m l = propertiesFor c l := by
  unfold connectProperties propertiesFor
  by_cases h5 : m.protocol = .mqtt5
  · rw [if_neg (not_not.mpr h5)]
    by_cases hr : l.any (·.identifier = .receiveMaximum) = true
    · have hsome : ¬ readPropertyInt16 l PropId.receiveMaximum.code false = none := by
        rw [readPropertyInt16_none, hr]
        simp
      rw [if_neg hsome, if_pos (.inr hr)]
    · rw [if_pos (readPropertyInt16_none.mpr (Bool.eq_false_iff.mpr hr)), if_neg, hm]
      intro hx
      rcases hx with h | h
      · exact h (hp ▸ h5)
      · exact hr h
  · rw [if_pos h5, if_pos (.inl (hp ▸ h5)), hl h5]

/-- What is known when `send__connect` is called with the outgoing properties. -/
structure ConnectReady (env : RecEnv) (c : Config) (keepAlive : Int) (l : List MosquittoProperty)
    (m : Mosq) : Prop where
  /-- The keepalive is a `uint16_t`. -/
  data : connectDataOf m l = { c.said env keepAlive l with keepalive := keepAlive.toNat % 65536 }
  carries : c.protocol ≠ .mqtt5 → l = []

theorem connectBindV5_data {env : RecEnv} {c : Config} {call : ConnectConfig} {generated : Bool} {m m' : Mosq}
    (hc : Configured c m) (h : connectBindV5 env m call generated = some m') :
    ConnectReady env c call.keepAlive (outgoingProperties call.properties generated) m' := by
  have hh := configured_eq hc
  unfold connectBindV5 at h
  split at h
  · rename_i m1 e
    have hdata := untilSend_data h
    have hcarries := untilSend_carries h
    unfold connectBind at e
    split at e
    · rename_i hne
      rw [Prod.mk.injEq] at e
      exact absurd e.2 hne
    unfold connectInit at e
    split at e
    · simp at e
    split at e
    · simp at e
    rw [Prod.mk.injEq] at e
    obtain ⟨rfl, -⟩ := e
    have hp := connectProperties_eq hh.protocol hh.receiveMaximum hcarries
    refine ⟨hdata.trans ?_, fun h3 => hcarries (fun h5 => h3 (hh.protocol.symm.trans h5))⟩
    have hid : (if m.id = none ∧ m.protocol ≠ .mqtt5 then
        some ([109, 111, 115, 113, 45] ++ env.randomId.take 18) else m.id)
        = idFor env c := by
      rw [idFor, hh.id, hh.protocol]
      simp
    simp only [connectDataOf, Config.said, ConnectData.mk.injEq]
    exact ⟨hh.protocol, hh.cleanStart, hid, hh.username, hh.password, rfl, hh.will, hp⟩
  · cases h

/-- A client id is not empty. -/
theorem idFor_named {c : Config} {m : Mosq} (env : RecEnv) (hc : Configured c m) : idFor env c ≠ some [] := by
  have hh := configured_eq hc
  unfold idFor
  split
  · simp
  · intro e
    obtain ⟨id, hid, he⟩ := Option.map_eq_some_iff.mp e
    exact hh.named id hid he

end Artemisia.Client
