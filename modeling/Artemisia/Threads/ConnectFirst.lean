/-
  Artemisia.Threads.ConnectFirst — is the CONNECT the first packet of its connection?

  `mosquitto__reconnect` empties the queue, replaces the socket and queues the CONNECT, in this order and
  with other code in between. The calls of the application only look at the socket, and so does whatever the loop
  thread does while the application connects.

  Proved:
  - `step_empties`:      while a thread goes from `packet__cleanup_all` to its CONNECT, and the other one
                         queues nothing, the queue is empty.
  - `connect_first`:     so over a run: nothing is left when a socket is assigned, and the CONNECT comes first.
  - `publish_before`:    a message that is published while the loop thread has a new socket comes before
                         the CONNECT.
-/
import Artemisia.Threads.Sides

namespace Artemisia.Threads

open Artemisia.Property Artemisia.Client

/-! ## A run with its sockets -/

def Packet.isConnect : Packet → Bool
  | .connect _ => true
  | _ => false

/-- A socket that was assigned: what was left in the queue then, and the first packet queued since, as
    long as it is in force. -/
structure Opening where
  conn : Nat
  left : List Packet
  first : Option Packet

def noteOpening (s : Sys) (_ : Call) (s' : Sys) (r : List Opening) : List Opening :=
  if s'.m.conns ≠ s.m.conns then ⟨s.m.conns, unwritten s'.m, none⟩ :: r
  else match r with
    | ⟨conn, left, none⟩ :: t =>
      if s.m.sock = some conn then ⟨conn, left, ((unwritten s'.m).drop (unwritten s.m).length).head?⟩ :: t else r
    | _ => r

abbrev openStep : Sys × List Opening → Call → Option (Sys × List Opening) := Machine.recorded callStep noteOpening

/-- Nothing was left when a socket was assigned, and the first packet queued for it is a CONNECT. -/
def ConnectFirst (x : Sys × List Opening) : Prop :=
  ∀ o ∈ x.2, o.left = [] ∧ ∀ p ∈ o.first, Packet.isConnect p = true

/-- From `packet__cleanup_all` to the CONNECT, or to the clean-up after it could not be sent. -/
def connecting : RecPc → Bool
  | .start | .pending _ => false
  | _ => true

/-- The socket is there, and the CONNECT is not in the queue. -/
def greets : RecPc → Bool
  | .setConnected | .sendConnect | .failed _ => true
  | _ => false

def queues (s : Sys) (c : Call) : Bool :=
  (callStep s c).any fun s' => (unwritten s.m).length < (unwritten s'.m).length

/-- Nothing is queued by one thread while the other is connecting. -/
def Alone (x : Sys × List Opening) (c : Call) : Bool := (pcOf x.1 (sideOf c).other).any connecting →
  queues x.1 c = false

/-! ## One step -/

structure Empties (x : Sys × List Opening) : Prop where
  store : StoreOk x.1.m.msgsOut.inflight
  created : Created x.1
  empty : ∀ side, (pcOf x.1 side).any connecting = true → unwritten x.1.m = []
  /-- As long as the CONNECT is not queued, the thread that opened the socket is about to. -/
  awaits : ∀ o t, x.2 = o :: t → o.first = none → x.1.m.sock = some o.conn →
    ∃ side, (pcOf x.1 side).any greets = true
  first : ConnectFirst x

section Steps

variable {s s' : Sys} {c : Call}

theorem connecting_of_greets {pc : RecPc} (h : greets pc = true) : connecting pc = true := by
  cases pc <;> first | rfl | cases h

theorem any_connecting {o : Option RecPc} (h : o.any greets = true) : o.any connecting = true := by
  cases o with
  | none => cases h
  | some pc => exact connecting_of_greets h

/-- Nothing comes to an empty queue in a step that queues nothing. -/
theorem empty_kept (hs : StoreOk s.m.msgsOut.inflight) (h : callStep s c = some s') (hq : queues s c = false)
    (he : unwritten s.m = []) : unwritten s'.m = [] := by
  have hlen : ¬ (unwritten s.m).length < (unwritten s'.m).length := by simpa [queues, h] using hq
  rcases changes_queue (call_changes hs h) with ⟨k, f, -, hu, -, -⟩ | ⟨l, hu, -, -⟩
  · rw [hu, he, List.drop_nil]
  · rw [he, List.nil_append] at hu
    rw [he, hu, List.length_nil] at hlen
    rw [hu]
    exact List.length_eq_zero_iff.mp (by omega)

/-- The thread that is connecting queues nothing but its CONNECT. -/
theorem piece_empty {env : RecEnv} {l : List MosquittoProperty} {m m' : Mosq} {pc pc' : RecPc}
    (h : RecMoves env l m pc m' (.inl pc')) (he : connecting pc = true → unwritten m = [])
    (hc : connecting pc' = true) : unwritten m' = [] := by
  have hunsent (hs : (sendConnect env.alloc m l).2 ≠ .success) :
      unwritten (sendConnect env.alloc m l).1 = unwritten m := by
    rcases sendConnect_cases env.alloc m l with ⟨-, h⟩ | ⟨rc, -, h | h⟩
    · rw [h] at hs
      exact absurd rfl hs
    · rw [h]
    · rw [h]
      obtain ⟨maximum, quota, e⟩ := adoptReceiveMaximum_eq m l
      rw [e]
      rfl
  cases h with
  | start => rfl
  | unsent rc hs => exact (hunsent hs).trans (he rfl)
  | unopened rc hp ho => cases hc
  | _ => exact he rfl

/-- A socket is assigned by the thread that then goes on to its CONNECT. -/
theorem opened_side (h : callStep s c = some s') (hc : s'.m.conns ≠ s.m.conns) :
    pcOf s' (sideOf c) = some .setConnected := by
  cases call_sides h with
  | piece a env pc l next hca ha hm hp hp' =>
    generalize s'.m = m' at hm hc
    cases hm with
    | opened ho => exact hp'
    | sent hs => exact absurd (conns_of_conn (conn_sendConnect ..)) hc
    | unsent rc hs => exact absurd (conns_of_conn (conn_sendConnect ..)) hc
    | _ => exact absurd rfl hc
  | away ha hp hsock hconns => exact absurd hconns hc

/-- Otherwise the socket stays, or it is closed. -/
theorem unopened_sock (h : callStep s c = some s') (hc : s'.m.conns = s.m.conns) :
    s'.m.sock = s.m.sock ∨ s'.m.sock = none := by
  cases call_sides h with
  | piece a env pc l next hca ha hm hp hp' =>
    generalize s'.m = m' at hm hc ⊢
    cases hm with
    | opened ho =>
      have : s.m.conns + 1 = s.m.conns := hc
      omega
    | close => exact .inr rfl
    | failed rc => exact .inr rfl
    | unopened rc hp ho => exact .inr rfl
    | sent hs => exact .inl (sock_of_conn (conn_sendConnect ..))
    | unsent rc hs => exact .inl (sock_of_conn (conn_sendConnect ..))
    | _ => exact .inl rfl
  | away ha hp hsock hconns => exact hsock

/-- The thread that has opened the socket queues the CONNECT, or comes closer to it, or closes the socket. -/
theorem greets_own (h : callStep s c = some s') (hg : (pcOf s (sideOf c)).any greets = true)
    (he : unwritten s.m = []) :
    (∃ d, unwritten s'.m = [.connect d]) ∨
    (unwritten s'.m = [] ∧ ((pcOf s' (sideOf c)).any greets = true ∨ s'.m.sock = none)) := by
  cases call_sides h with
  | piece a env pc l next hca ha hm hp hp' =>
    rw [hp] at hg
    generalize s'.m = m' at hm ⊢
    cases hm with
    | setConnected => exact .inr ⟨he, .inl (by rw [hp']; rfl)⟩
    | sent hs =>
      rcases sendConnect_cases env.alloc s.m l with ⟨-, e⟩ | ⟨rc, hrc, e | e⟩
      · refine .inl ⟨connectDataOf s.m l, ?_⟩
        rw [e]
        have hu : unwritten (adoptReceiveMaximum s.m l) = [] := by
          obtain ⟨maximum, quota, e⟩ := adoptReceiveMaximum_eq s.m l
          rw [← he, e]
          rfl
        rw [show unwritten (packetQueue (adoptReceiveMaximum s.m l) (.connect (connectDataOf s.m l))) =
          unwritten (adoptReceiveMaximum s.m l) ++ [.connect (connectDataOf s.m l)] from unwritten_append
            rfl rfl, hu]
        rfl
      · rw [e] at hs
        exact absurd hs hrc
      · rw [e] at hs
        exact absurd hs hrc
    | unsent rc hs => exact .inr ⟨piece_empty (.unsent rc hs) (fun _ => he) rfl, .inl (by rw [hp']; rfl)⟩
    | failed rc => exact .inr ⟨rfl, .inr rfl⟩
    | _ => cases hg
  | away ha hp hsock hconns =>
    rw [pcOf_away h ha] at hg
    cases hg

variable {x y : Sys × List Opening}

/-- The queue stays empty while a thread is connecting. -/
theorem empty_step (hi : Empties x) (hst : callStep x.1 c = some s') (hg : Alone x c = true) (side : Side)
    (hc : (pcOf s' side).any connecting = true) : unwritten s'.m = [] := by
  rcases side_cases (sideOf c) side with hside | hside
  · subst hside
    cases call_sides hst with
    | piece a env pc l next hca ha hm hp hp' =>
      cases next with
      | inr rc =>
        rw [hp'] at hc
        cases hc
      | inl pc' =>
        rw [hp'] at hc
        exact piece_empty hm (fun hpc => hi.empty _ (by rw [hp]; exact hpc)) hc
    | away ha hp hsock hconns =>
      rw [pcOf_away hst ha] at hp
      rcases hp with hp | hp | hp
      · rw [hp] at hc
        cases hc
      · rw [hp] at hc
        cases hc
      · rw [hp] at hc
        cases hc
  · subst hside
    rw [call_other hi.created hst] at hc
    exact empty_kept hi.store hst (of_decide_eq_true hg hc) (hi.empty _ hc)

/-- The socket is there and nothing has come yet: the first packet is a CONNECT, or it is still to come. -/
theorem greets_step (hi : Empties x) (hst : callStep x.1 c = some s') (hg : Alone x c = true) {side : Side}
    (hs : (pcOf x.1 side).any greets = true) : (∃ d, unwritten s'.m = [.connect d]) ∨
      (unwritten s'.m = [] ∧ ((∃ side, (pcOf s' side).any greets = true) ∨ s'.m.sock = none)) := by
  have he := hi.empty side (any_connecting hs)
  rcases side_cases (sideOf c) side with hside | hside
  · subst hside
    rcases greets_own hst hs he with h | ⟨h, hor⟩
    · exact .inl h
    · exact .inr ⟨h, hor.imp_left fun h => ⟨_, h⟩⟩
  · subst hside
    refine .inr ⟨empty_kept hi.store hst (of_decide_eq_true hg (any_connecting hs)) he,
      .inl ⟨(sideOf c).other, ?_⟩⟩
    rw [call_other hi.created hst]
    exact hs

theorem step_empties (hi : Empties x) (hg : Alone x c = true) (h : openStep x c = some y) : Empties y := by
  obtain ⟨s, r⟩ := x
  obtain ⟨s', r'⟩ := y
  obtain ⟨hst, hr⟩ := Machine.recorded_some.mp h
  dsimp only at hst hr
  have hempty := fun side => empty_step hi hst hg side
  refine ⟨call_store hi.store hst, call_created hi.created hst, hempty, ?_, ?_⟩
  · intro o t ho hnone hsock
    dsimp only at ho hsock ⊢
    subst hr
    unfold noteOpening at ho
    split at ho
    · rename_i hc
      exact ⟨_, by rw [opened_side hst hc]; rfl⟩
    rename_i hc
    split at ho
    · rename_i conn left t'
      split at ho
      · rename_i hopen
        obtain ⟨side, hs⟩ := hi.awaits _ _ rfl rfl hopen
        rcases greets_step hi hst hg hs with ⟨d, hd⟩ | ⟨hd, hor | hor⟩
        · obtain rfl := (List.cons.inj ho).1
          simp [hd, hi.empty side (any_connecting hs)] at hnone
        · exact hor
        · rw [hor] at hsock
          cases hsock
      · rename_i hclosed
        obtain rfl := (List.cons.inj ho).1
        rcases unopened_sock hst (not_not.mp hc) with hk | hk
        · exact absurd (hk.symm.trans hsock) hclosed
        · rw [hk] at hsock
          cases hsock
    · rename_i hr
      cases r with
      | nil => cases ho
      | cons o' t' =>
        obtain rfl := (List.cons.inj ho).1
        obtain ⟨conn, left, first⟩ := o'
        cases hnone
        exact absurd rfl (hr conn left t')
  · intro o ho
    dsimp only at ho
    subst hr
    unfold noteOpening at ho
    split at ho
    · rename_i hc
      rcases List.mem_cons.mp ho with rfl | ho
      · exact ⟨hempty _ (by rw [opened_side hst hc]; rfl), by simp⟩
      · exact hi.first o ho
    split at ho
    · rename_i conn left t'
      split at ho
      · rename_i hopen
        rcases List.mem_cons.mp ho with rfl | ho
        · obtain ⟨side, hs⟩ := hi.awaits _ _ rfl rfl hopen
          refine ⟨(hi.first _ (List.mem_cons_self ..)).1, fun p hp => ?_⟩
          rcases greets_step hi hst hg hs with ⟨d, hd⟩ | ⟨hd, -⟩
          · simp only [hd, hi.empty side (any_connecting hs), List.length_nil, List.drop_zero, List.head?_cons,
              Option.mem_def, Option.some.injEq] at hp
            rw [← hp]
            rfl
          · simp [hd] at hp
        · exact hi.first o (List.mem_cons_of_mem _ ho)
      · exact hi.first o ho
    · exact hi.first o ho

end Steps

/-! ## Runs -/

/-- At first no socket has been assigned. -/
def openInit (id : Option Bytes) (cleanStart : Bool) : Sys × List Opening := (Sys.init id cleanStart, [])

theorem init_empties (id : Option Bytes) (cleanStart : Bool) : Empties (openInit id cleanStart) where
  store := StoreOk.nil
  created := .init id cleanStart
  empty := fun _ _ => rfl
  awaits := fun o t h => by cases h
  first := fun o h => by cases h

/-- In every run in which nothing is queued by one thread while the other is connecting, the CONNECT
    comes first on every connection. -/
theorem connect_first {id : Option Bytes} {cleanStart : Bool} {x : Sys × List Opening}
    (h : Machine.Reach openStep (· = openInit id cleanStart) (fun x c => Alone x c = true) x) :
    ConnectFirst x := by
  have hi : Empties x :=
    h.inv (fun _ h => h ▸ init_empties id cleanStart) (fun _ _ _ hi hg hs => step_empties hi hg hs)
  exact hi.first

/-- What was left, and whether a CONNECT came first, for each socket. -/
def openings (x : Sys × List Opening) : List (Nat × Option Bool) := x.2.map fun o =>
    (o.left.length, o.first.map Packet.isConnect)

/-- The connection is lost, a message is published before the loop thread reconnects, and another once it
    is back. -/
def aroundReconnect : List Call :=
  (established [] ++ loses ++ [publishes] ++ List.replicate 6 tick ++ [publishes]).map .act

theorem connect_first_around : ∃ x, Machine.run openStep (openInit none true) aroundReconnect = some x ∧
    openings x = [(0, some true), (0, some true)] ∧ ConnectFirst x := by
  have hm : Machine.Meets openStep (fun x c => Alone x c = true) (openInit none true) aroundReconnect := by decide
  have hr : (Machine.run openStep (openInit none true) aroundReconnect).map openings =
      some [(0, some true), (0, some true)] := by decide
  obtain ⟨x, hs, h, hf⟩ := Machine.reach_of_map (· = openInit none true) rfl hm hr
  exact ⟨x, hs, hf, connect_first h⟩

/-- The connection is lost, and a message is published once the loop thread has the new socket. -/
def betweenReconnect : List Call :=
  (established [] ++ loses ++ List.replicate 4 tick ++ [publishes]).map .act

/-- Its PUBLISH is the first packet of the new connection. -/
theorem publish_before : ∃ x, Machine.Reach openStep (· = openInit none true) Machine.anyAct x ∧
    ¬ ConnectFirst x := by
  have hr : (Machine.run openStep (openInit none true) betweenReconnect).map
      (fun x => x.2.head?.map fun o => (o.conn, o.first.map Packet.isConnect)) =
        some (some (1, some false)) := by decide
  obtain ⟨x, h, hf⟩ := Machine.reach_of_map_any (· = openInit none true) rfl hr
  refine ⟨x, h, fun hc => ?_⟩
  obtain ⟨o, ho, hf⟩ := Option.map_eq_some_iff.mp hf
  simp only [Prod.mk.injEq, Option.map_eq_some_iff] at hf
  obtain ⟨-, p, hp, hconn⟩ := hf
  rw [(hc o (List.mem_of_mem_head? ho)).2 p hp] at hconn
  cases hconn

end Artemisia.Threads
