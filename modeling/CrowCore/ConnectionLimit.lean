import CrowCore.HttpConnection
import CrowCore.HttpServer

set_option autoImplicit false

/-!
# The number of connections

All connection objects are counted, also the one that waits for the next client. A client
whose connection is started when there are too many of them is turned away.
-/
namespace CrowCore.ConnectionLimit
open GuardedRuns HttpServer
open HttpConnection (opened)

/-- The server and its connections; the lists of refused and closed ones are only a record. -/
structure Connections where
  server : Server
  /-- how many connections have been destroyed -/
  destroyed : ℕ := 0
  serving : List Connection := []
  refused : List Connection := []
  closed : List Connection := []
deriving DecidableEq, Repr

namespace Connections

def connectionCount (s : Connections) : ℕ := s.server.created - s.destroyed

/-- What becomes of the connection that a handler held. -/
def finished (s : Connections) : Completion → Connections
  | .accepted _ failed => if failed then { s with destroyed := s.destroyed + 1 } else s
  | .start connection =>
    if 100 ≤ s.connectionCount then
      { s with destroyed := s.destroyed + 1, refused := s.refused ++ [connection] }
    else { s with serving := s.serving ++ [connection] }
  | .signal _ _ => s

end Connections

inductive Event where
  | server (e : HttpServer.Event)
  /-- nothing is outstanding for a connection any more -/
  | closes (connection : Connection)
deriving DecidableEq, Repr

def step (s : Connections) : Event → Option Connections
  | .server (.handler i cancelFails next) => do
    let completion ← s.server.ready[i]?
    let server ← HttpServer.step s.server (.handler i cancelFails next)
    return { s with server }.finished completion
  | .server e => (HttpServer.step s.server e).map fun server => { s with server }
  | .closes connection =>
    if connection ∈ s.serving ∧ !s.server.stopped then
      some { s with
        destroyed := s.destroyed + 1
        serving := s.serving.erase connection
        closed := s.closed ++ [connection] }
    else none

def begun (adaptorCtx : ℕ) : Connections := { server := ({ adaptorCtx } : Server).run }

theorem opened_idle_iff {P : Type} (parser : HttpConnection.RequestParser P)
    (build : HttpConnection.Build) (connectionCount : ℕ) :
    (opened parser build connectionCount).outstanding = [] ↔ 100 ≤ connectionCount := by
  unfold opened HttpConnection.Connection.start
  split_ifs with hmany
  · exact iff_of_true rfl hmany
  · refine iff_of_false ?_ hmany
    dsimp only
    split_ifs <;> simp [HttpConnection.Connection.doReadHeaders]

def isStart : Completion → Bool
  | .start _ => true
  | _ => false

/-- The clients that wait for their connection to be started. -/
def starting (s : Server) : ℕ := s.ready.countP isStart

structure Counted (s : Connections) : Prop where
  sound : Sound s.server
  objects : s.server.created = s.destroyed + (1 + starting s.server + s.serving.length)
  started : s.server.started.Perm (s.serving ++ (s.refused ++ s.closed))
  limited : s.serving.length ≤ 98

variable {s s' : Connections}

theorem Counted.connectionCount (h : Counted s) :
    s.connectionCount = 1 + starting s.server + s.serving.length := by
  rw [Connections.connectionCount, h.objects, Nat.add_sub_cancel_left]

variable {server server' : Server}

theorem step_others {e : HttpServer.Event} (hstep : HttpServer.step server e = some server')
    (he : ∀ i cancelFails next, e ≠ .handler i cancelFails next) :
    server'.created = server.created ∧ starting server' = starting server ∧
      server'.started = server.started := by
  cases e with
  | client =>
    rw [HttpServer.step] at hstep
    split at hstep
    · cases hstep
    · obtain rfl := Option.some.inj hstep
      exact ⟨rfl, by simp [starting, isStart], rfl⟩
  | acceptFails =>
    rw [HttpServer.step] at hstep
    split at hstep
    · cases hstep
    · obtain rfl := Option.some.inj hstep
      exact ⟨rfl, by simp [starting, isStart], rfl⟩
  | signal signalNo =>
    rw [HttpServer.step] at hstep
    split_ifs at hstep
    · obtain rfl := Option.some.inj hstep
      exact ⟨rfl, rfl, rfl⟩
    · obtain rfl := Option.some.inj hstep
      exact ⟨rfl, by simp [starting, isStart, List.countP_replicate], rfl⟩
  | waitFails =>
    rw [HttpServer.step] at hstep
    split_ifs at hstep
    obtain rfl := Option.some.inj hstep
    exact ⟨rfl, by simp [starting, isStart], rfl⟩
  | handler i cancelFails next => exact absurd rfl (he i cancelFails next)

theorem startAsyncWaitForSignal_counts (server : Server) (next : ℕ) :
    (server.startAsyncWaitForSignal next).created = server.created ∧
      starting (server.startAsyncWaitForSignal next) = starting server ∧
      (server.startAsyncWaitForSignal next).started = server.started := by
  unfold Server.startAsyncWaitForSignal
  dsimp only
  split
  · exact ⟨rfl, rfl, rfl⟩
  · exact ⟨rfl, by simp [starting, isStart], rfl⟩

theorem cancel_counts (server : Server) (fails : Bool) :
    (server.cancel fails).created = server.created ∧
      starting (server.cancel fails) = starting server ∧
      (server.cancel fails).started = server.started := by
  unfold Server.cancel
  split_ifs
  · exact ⟨rfl, rfl, rfl⟩
  · exact ⟨rfl, by simp [starting, isStart, List.countP_map, Function.comp_def], rfl⟩

theorem signal_counts (server : Server) (cancelFails failed : Bool) (next : ℕ)
    (signalNo : Signal) :
    (server.handle cancelFails next (.signal failed signalNo)).created = server.created ∧
      starting (server.handle cancelFails next (.signal failed signalNo)) = starting server ∧
      (server.handle cancelFails next (.signal failed signalNo)).started = server.started := by
  rw [Server.handle]
  split_ifs
  · exact ⟨rfl, rfl, rfl⟩
  · obtain ⟨hcreated, hstarting, hstarted⟩ :=
      startAsyncWaitForSignal_counts (server.loadCertificate.cancel cancelFails) next
    obtain ⟨hcreated', hstarting', hstarted'⟩ := cancel_counts server.loadCertificate cancelFails
    exact ⟨hcreated.trans hcreated', hstarting.trans hstarting', hstarted.trans hstarted'⟩
  · exact ⟨rfl, rfl, rfl⟩

theorem starting_eraseIdx {i : ℕ} {completion : Completion}
    (hi : server.ready[i]? = some completion) :
    starting server = starting { server with ready := server.ready.eraseIdx i } +
      if isStart completion then 1 else 0 := by
  unfold starting
  rw [(ready_perm hi).countP_eq, List.countP_cons]

structure Taken (s : Connections) (completion : Completion) (server : Server) : Prop where
  objects : server.created = s.destroyed +
    (1 + (starting server + if isStart completion then 1 else 0) + s.serving.length)
  started : server.started.Perm (s.serving ++ (s.refused ++ s.closed))
  limited : s.serving.length ≤ 98

theorem Taken.finished {completion : Completion} (h : Taken s completion server)
    (cancelFails : Bool) (next : ℕ)
    (hsound : Sound (server.handle cancelFails next completion)) :
    Counted
      ({ s with server := server.handle cancelFails next completion }.finished completion) := by
  have hobjects := h.objects
  cases completion with
  | accepted connection failed =>
    cases failed with
    | true =>
      refine ⟨hsound, ?_, h.started, h.limited⟩
      change server.created + 1 = s.destroyed + 1 + (1 + starting server + s.serving.length)
      simp only [isStart, Bool.false_eq_true, if_false] at hobjects
      omega
    | false =>
      refine ⟨hsound, ?_, h.started, h.limited⟩
      have hstarting : starting (server.handle cancelFails next (.accepted connection false)) =
          starting server + 1 := by
        simp [starting, Server.handle, Server.doAccept, isStart]
      change server.created + 1 = s.destroyed +
        (1 + starting (server.handle cancelFails next (.accepted connection false)) +
          s.serving.length)
      simp only [isStart, Bool.false_eq_true, if_false] at hobjects
      rw [hstarting]
      omega
  | start connection =>
    have hstarted : (server.handle cancelFails next (.start connection)).started =
        server.started ++ [connection] := rfl
    simp only [isStart, if_true] at hobjects
    unfold Connections.finished
    dsimp only
    split_ifs with hmany
    · refine ⟨hsound, ?_, ?_, h.limited⟩
      · change server.created = s.destroyed + 1 + (1 + starting server + s.serving.length)
        omega
      · rw [hstarted, List.append_assoc]
        refine (h.started.append_right [connection]).trans ?_
        rw [List.append_assoc, List.append_assoc]
        exact (List.perm_append_comm.append_left s.refused).append_left s.serving
    · have hcount : server.created - s.destroyed < 100 := Nat.lt_of_not_le hmany
      refine ⟨hsound, ?_, ?_, ?_⟩
      · change server.created = s.destroyed +
          (1 + starting server + (s.serving ++ [connection]).length)
        rw [List.length_append, List.length_singleton]
        omega
      · rw [hstarted, List.append_assoc]
        refine (h.started.append_right [connection]).trans ?_
        rw [List.append_assoc]
        exact List.perm_append_comm.append_left s.serving
      · rw [List.length_append, List.length_singleton]
        omega
  | signal failed signalNo =>
    obtain ⟨hcreated, hsame, hstarted⟩ := signal_counts server cancelFails failed next signalNo
    refine ⟨hsound, ?_, ?_, h.limited⟩
    · change (server.handle cancelFails next (.signal failed signalNo)).created =
        s.destroyed + (1 + starting (server.handle cancelFails next (.signal failed signalNo)) +
          s.serving.length)
      rw [hcreated, hsame]
      exact hobjects
    · change (server.handle cancelFails next (.signal failed signalNo)).started.Perm _
      rw [hstarted]
      exact h.started

theorem Counted.take (h : Counted s) {i : ℕ} {completion : Completion}
    (hi : s.server.ready[i]? = some completion) :
    Taken s completion { s.server with ready := s.server.ready.eraseIdx i } := by
  refine ⟨?_, h.started, h.limited⟩
  rw [← starting_eraseIdx hi]
  exact h.objects

theorem Counted.others (h : Counted s) {e : HttpServer.Event}
    (hstep : HttpServer.step s.server e = some server')
    (he : ∀ i cancelFails next, e ≠ .handler i cancelFails next) :
    Counted { s with server := server' } := by
  obtain ⟨hcreated, hstarting, hstarted⟩ := step_others hstep he
  refine ⟨sound_step h.sound hstep, ?_, ?_, h.limited⟩
  · change server'.created = s.destroyed + (1 + starting server' + s.serving.length)
    rw [hcreated, hstarting]
    exact h.objects
  · change server'.started.Perm _
    rw [hstarted]
    exact h.started

theorem Counted.closes (h : Counted s) {connection : Connection} (hmem : connection ∈ s.serving) :
    Counted { s with
      destroyed := s.destroyed + 1
      serving := s.serving.erase connection
      closed := s.closed ++ [connection] } := by
  have hobjects := h.objects
  have hlimited := h.limited
  have hlength := List.length_erase_of_mem hmem
  have hpos : 0 < s.serving.length := List.length_pos_of_mem hmem
  refine ⟨h.sound, ?_, ?_, ?_⟩
  · change s.server.created = s.destroyed + 1 +
      (1 + starting s.server + (s.serving.erase connection).length)
    omega
  · refine h.started.trans ?_
    refine ((List.perm_cons_erase hmem).append_right _).trans ?_
    change (connection :: (s.serving.erase connection ++ (s.refused ++ s.closed))).Perm
      (s.serving.erase connection ++ (s.refused ++ (s.closed ++ [connection])))
    simp only [← List.append_assoc]
    exact (List.perm_append_singleton connection _).symm
  · change (s.serving.erase connection).length ≤ 98
    omega

theorem counted_step {e : Event} (h : Counted s) (hstep : step s e = some s') : Counted s' := by
  cases e with
  | server e =>
    cases e with
    | handler i cancelFails next =>
      obtain ⟨completion, hi, hrest⟩ := Option.bind_eq_some_iff.1 hstep
      obtain ⟨server, hserver, hs'⟩ := Option.bind_eq_some_iff.1 hrest
      obtain rfl := Option.some.inj hs'
      have hsound := sound_step h.sound hserver
      rw [HttpServer.step, hi] at hserver
      split_ifs at hserver
      obtain rfl := Option.some.inj hserver
      exact (h.take hi).finished cancelFails next hsound
    | _ =>
      obtain ⟨server, hserver, rfl⟩ := Option.map_eq_some_iff.1 hstep
      exact h.others hserver (by simp)
  | closes connection =>
    rw [step] at hstep
    split_ifs at hstep with hcloses
    obtain rfl := Option.some.inj hstep
    exact h.closes hcloses.1

theorem counted_begun (adaptorCtx : ℕ) : Counted (begun adaptorCtx) :=
  ⟨sound_run adaptorCtx, rfl, .nil, Nat.zero_le _⟩

/-- In every run at most 98 connections are served at a time, and each client that was accepted
waits to be started, is served, was turned away or is done. -/
theorem connections_limited (adaptorCtx : ℕ) (events : List Event) :
    Always step (fun s => s.serving.length ≤ 98 ∧
      s.connectionCount = 1 + starting s.server + s.serving.length ∧
      (s.server.clients.map Prod.fst).Perm ((s.serving ++ (s.refused ++ s.closed)) ++
        s.server.ready.filterMap Completion.client)) (begun adaptorCtx) events := by
  refine (always_of_step (fun _ _ _ => counted_step) (counted_begun adaptorCtx) events).mono ?_
  intro s h
  refine ⟨h.limited, h.connectionCount, ?_⟩
  exact h.sound.clients.trans (h.started.append_right _)

theorem start_step {i : ℕ} {connection : Connection} (hrunning : s.server.stopped = false)
    (hi : s.server.ready[i]? = some (.start connection)) (cancelFails : Bool) (next : ℕ) :
    step s (.server (.handler i cancelFails next)) =
      some ({ s with
        server := { s.server with ready := s.server.ready.eraseIdx i }.handle cancelFails next
          (.start connection) }.finished (.start connection)) := by
  have hserver : HttpServer.step s.server (.handler i cancelFails next) =
      some ({ s.server with ready := s.server.ready.eraseIdx i }.handle cancelFails next
        (.start connection)) := by
    rw [HttpServer.step, if_neg (by rw [hrunning]; exact Bool.false_ne_true), hi]
    rfl
  rw [step, hi, hserver]
  rfl

theorem start_many {i : ℕ} {connection : Connection} (hrunning : s.server.stopped = false)
    (hi : s.server.ready[i]? = some (.start connection)) (cancelFails : Bool) (next : ℕ)
    (hmany : 100 ≤ s.connectionCount) : step s (.server (.handler i cancelFails next)) =
      some { s with
        server := { s.server with ready := s.server.ready.eraseIdx i }.handle cancelFails next
          (.start connection)
        destroyed := s.destroyed + 1
        refused := s.refused ++ [connection] } :=
  (start_step hrunning hi cancelFails next).trans (congrArg some (if_pos hmany))

theorem start_few {i : ℕ} {connection : Connection} (hrunning : s.server.stopped = false)
    (hi : s.server.ready[i]? = some (.start connection)) (cancelFails : Bool) (next : ℕ)
    (hfew : ¬ 100 ≤ s.connectionCount) : step s (.server (.handler i cancelFails next)) =
      some { s with
        server := { s.server with ready := s.server.ready.eraseIdx i }.handle cancelFails next
          (.start connection)
        serving := s.serving ++ [connection] } :=
  (start_step hrunning hi cancelFails next).trans (congrArg some (if_neg hfew))

/-- A client is turned away, without anything begun for it, if and only if 98 others are served
or wait to be started. -/
theorem turned_away_iff {P : Type} (parser : HttpConnection.RequestParser P)
    (build : HttpConnection.Build) {adaptorCtx : ℕ} {events : List Event}
    (hrun : run step (begun adaptorCtx) events = some s) (hrunning : s.server.stopped = false)
    {i : ℕ} {connection : Connection} (hi : s.server.ready[i]? = some (.start connection))
    (cancelFails : Bool) (next : ℕ) :
    let crowded := 98 ≤ (starting s.server - 1) + s.serving.length
    ((opened parser build s.connectionCount).outstanding = [] ↔ crowded) ∧
    ∃ s', step s (.server (.handler i cancelFails next)) = some s' ∧
      (crowded → s'.refused = s.refused ++ [connection] ∧ s'.serving = s.serving) ∧
      (¬ crowded → s'.refused = s.refused ∧ s'.serving = s.serving ++ [connection]) := by
  intro crowded
  have hcounted := (always_of_step (fun _ _ _ => counted_step) (counted_begun adaptorCtx)
    events).last hrun
  have hcount := hcounted.connectionCount
  have hpos : 0 < starting s.server :=
    List.countP_pos_iff.2 ⟨_, List.mem_of_getElem? hi, rfl⟩
  have hcrowded : 100 ≤ s.connectionCount ↔ crowded := by
    change _ ↔ 98 ≤ (starting s.server - 1) + s.serving.length
    omega
  refine ⟨(opened_idle_iff parser build _).trans hcrowded, ?_⟩
  by_cases h : crowded
  · exact ⟨_, start_many hrunning hi cancelFails next (hcrowded.2 h), fun _ => ⟨rfl, rfl⟩,
      fun hnot => absurd h hnot⟩
  · exact ⟨_, start_few hrunning hi cancelFails next (hcrowded.not.2 h), fun hyes => absurd hyes h,
      fun _ => ⟨rfl, rfl⟩⟩

structure Resting (k : ℕ) (s : Connections) : Prop where
  ready : s.server.ready = []
  accepting : ∃ connection, s.server.accepting = [connection]
  running : s.server.stopped = false
  serving : s.serving.length = k
  count : s.connectionCount = 1 + k

def visit : List Event :=
  [.server .client, .server (.handler 0 false 0), .server (.handler 0 false 0)]

theorem client_waits {k : ℕ} (h : Resting k s) :
    ∃ s' connection, run step s (visit.take 2) = some s' ∧
      s'.server.ready = [.start connection] ∧ s'.server.stopped = false ∧
      (∃ next, s'.server.accepting = [next]) ∧ s'.serving = s.serving ∧
      s'.connectionCount = 2 + k := by
  obtain ⟨⟨adaptorCtx, created, accepting, waiting, queuedSignals, ready, stopped, clients,
    started⟩,
    destroyed, serving, refused, closed⟩ := s
  obtain ⟨hready, ⟨connection, haccepting⟩, hrunning, hserving, hcount⟩ := h
  dsimp only at hready haccepting hrunning
  subst hready haccepting hrunning
  refine ⟨_, connection, rfl, rfl, rfl, ⟨_, rfl⟩, rfl, ?_⟩
  change created - destroyed = 1 + k at hcount
  change created + 1 - destroyed = 2 + k
  omega

theorem visit_served {k : ℕ} (h : Resting k s) (hk : k < 98) :
    ∃ s', run step s visit = some s' ∧ Resting (k + 1) s' := by
  obtain ⟨s', connection, hrun, hready, hrunning, haccepting, hserving, hcount⟩ := client_waits h
  have hfew : ¬ 100 ≤ s'.connectionCount := by omega
  have hi : s'.server.ready[0]? = some (.start connection) := by
    rw [hready]
    rfl
  have hstep := start_few hrunning hi false 0 hfew
  have hvisit : run step s visit = step s' (.server (.handler 0 false 0)) := by
    change run step s (visit.take 2 ++ [.server (.handler 0 false 0)]) = _
    rw [run_append, hrun]
    exact Option.bind_fun_some _
  refine ⟨_, hvisit.trans hstep, ?_, haccepting, hrunning, ?_, ?_⟩
  · change s'.server.ready.eraseIdx 0 = []
    rw [hready]
    rfl
  · rw [List.length_append, hserving, h.serving, List.length_singleton]
  · change s'.connectionCount = 1 + (k + 1)
    omega

theorem begun_resting (adaptorCtx : ℕ) : Resting 0 (begun adaptorCtx) :=
  ⟨rfl, ⟨_, rfl⟩, rfl, rfl, rfl⟩

theorem visits_served (adaptorCtx : ℕ) {k : ℕ} (hk : k ≤ 98) :
    ∃ s, run step (begun adaptorCtx) (List.replicate k visit).flatten = some s ∧ Resting k s := by
  induction k with
  | zero => exact ⟨_, rfl, begun_resting adaptorCtx⟩
  | succ k ih =>
    obtain ⟨s, hrun, hresting⟩ := ih (by omega)
    obtain ⟨s', hrun', hresting'⟩ := visit_served hresting (by omega)
    refine ⟨s', ?_, hresting'⟩
    rw [List.replicate_succ', List.flatten_append, run_append, hrun, List.flatten_singleton]
    exact hrun'

/-- The 99th client is turned away. -/
theorem turned_away_iff_sample : ∃ s s' connection,
    run step (begun 0) ((List.replicate 98 visit).flatten ++ visit.take 2) = some s ∧
      step s (.server (.handler 0 false 0)) = some s' ∧ s.serving.length = 98 ∧
        s'.refused = s.refused ++ [connection] := by
  obtain ⟨s, hrun, hresting⟩ := visits_served 0 (le_refl 98)
  obtain ⟨t, connection, hwaits, hready, hrunning, -, hserving, -⟩ := client_waits hresting
  have hall : run step (begun 0) ((List.replicate 98 visit).flatten ++ visit.take 2) = some t := by
    rw [run_append, hrun]
    exact hwaits
  have hi : t.server.ready[0]? = some (.start connection) := by
    rw [hready]
    rfl
  obtain ⟨-, s', hstep, hcrowded, -⟩ := turned_away_iff
    (HttpConnection.requestParser [0] (by decide) 0 { target := "/", host := "" }) { ssl := true }
    hall hrunning hi false 0
  have hlength : t.serving.length = 98 := hserving ▸ hresting.serving
  refine ⟨t, s', connection, hall, hstep, hlength, (hcrowded ?_).1⟩
  omega

end CrowCore.ConnectionLimit
