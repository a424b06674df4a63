import CrowCore.GuardedRuns

set_option autoImplicit false

/-!
# The server

One accept after the other makes the connections, each with the TLS context that is in use
when it is made. SIGHUP loads the certificate again and cancels the accept, so that the next
connection has the new context.
-/
namespace CrowCore.HttpServer
open GuardedRuns

inductive Signal where
  | SIGINT
  | SIGTERM
  | SIGHUP
deriving DecidableEq, Repr

/-- A connection, with the number of the load that made its context. -/
structure Connection where
  id : ℕ
  context : ℕ
deriving DecidableEq, Repr

/-- The handlers that wait for the I/O context to run them. -/
inductive Completion where
  | accepted (connection : Connection) (failed : Bool)
  | start (connection : Connection)
  | signal (failed : Bool) (signalNo : Signal)
deriving DecidableEq, Repr

structure Server where
  adaptorCtx : ℕ := 0
  /-- the number of connections made so far -/
  created : ℕ := 0
  accepting : List Connection := []
  /-- the number of waits for a signal, and the signals that found none -/
  waiting : ℕ := 0
  queuedSignals : List Signal := []
  ready : List Completion := []
  stopped : Bool := false
  /-- the accepted connections with the context that was in use then -/
  clients : List (Connection × ℕ) := []
  started : List Connection := []
deriving DecidableEq, Repr

namespace Server

def loadCertificate (s : Server) : Server := { s with adaptorCtx := s.adaptorCtx + 1 }

def doAccept (s : Server) : Server :=
  { s with
    created := s.created + 1
    accepting := s.accepting ++ [{ id := s.created, context := s.adaptorCtx }] }

/-- A signal that came in the meantime ends the wait at once; `next` says which one. -/
def startAsyncWaitForSignal (next : ℕ) (s : Server) : Server :=
  let i := next % s.queuedSignals.length
  match s.queuedSignals[i]? with
  | none => { s with waiting := s.waiting + 1 }
  | some signalNo =>
    { s with
      queuedSignals := s.queuedSignals.eraseIdx i
      ready := s.ready ++ [.signal false signalNo] }

def cancel (fails : Bool) (s : Server) : Server :=
  if fails then s
  else
    { s with
      accepting := []
      ready := s.ready ++ s.accepting.map fun connection => .accepted connection true }

def stop (s : Server) : Server := { s with stopped := true }

def run (s : Server) : Server := (s.loadCertificate.startAsyncWaitForSignal 0).doAccept

def handle (cancelFails : Bool) (next : ℕ) (s : Server) : Completion → Server
  | .accepted connection failed =>
    (if failed then s else { s with ready := s.ready ++ [.start connection] }).doAccept
  | .start connection => { s with started := s.started ++ [connection] }
  | .signal failed signalNo =>
    if failed then s
    else if signalNo = .SIGHUP then
      (s.loadCertificate.cancel cancelFails).startAsyncWaitForSignal next
    else s.stop

end Server

inductive Event where
  /-- a client connects -/
  | client
  | acceptFails
  | signal (signalNo : Signal)
  | waitFails
  /-- the I/O context runs the handler at this place; a `cancel` in it may fail, a wait for a
  signal that it starts may find one -/
  | handler (i : ℕ) (cancelFails : Bool) (next : ℕ)
deriving DecidableEq, Repr

def step (s : Server) : Event → Option Server
  | .client =>
    match s.accepting with
    | [] => none
    | connection :: accepting => some { s with
        accepting
        ready := s.ready ++ [.accepted connection false]
        clients := s.clients ++ [(connection, s.adaptorCtx)] }
  | .acceptFails =>
    match s.accepting with
    | [] => none
    | connection :: accepting =>
      some { s with accepting, ready := s.ready ++ [.accepted connection true] }
  | .signal signalNo =>
    if s.waiting = 0 then some { s with queuedSignals := s.queuedSignals ++ [signalNo] }
    else some { s with
      waiting := 0, ready := s.ready ++ List.replicate s.waiting (.signal false signalNo) }
  | .waitFails =>
    if s.waiting = 0 then none
    else some { s with
      waiting := s.waiting - 1, ready := s.ready ++ [.signal true .SIGINT] }
  | .handler i cancelFails next =>
    if s.stopped then none
    else s.ready[i]?.map fun completion =>
      { s with ready := s.ready.eraseIdx i }.handle cancelFails next completion

def Completion.isAccepted : Completion → Bool
  | .accepted _ _ => true
  | _ => false

def Completion.isSignal : Completion → Bool
  | .signal _ _ => true
  | _ => false

def Completion.client : Completion → Option Connection
  | .accepted connection failed => if failed then none else some connection
  | .start connection => some connection
  | .signal _ _ => none

def openAccepts (s : Server) : ℕ := s.accepting.length + s.ready.countP Completion.isAccepted

def openWaits (s : Server) : ℕ := s.waiting + s.ready.countP Completion.isSignal

/-- There are `n` accepts and at most `w` waits, and every client that was accepted has one
connection, which is taken, was started, or will be started. -/
structure Holds (n w : ℕ) (taken : List Connection) (s : Server) : Prop where
  accepts : openAccepts s = n
  waits : openWaits s ≤ w
  clients : (s.clients.map Prod.fst).Perm
    (taken ++ (s.started ++ s.ready.filterMap Completion.client))
  fresh : ∀ connection ∈ s.clients.map Prod.fst ++ s.accepting, connection.id < s.created
  nodup : ((s.clients.map Prod.fst ++ s.accepting).map Connection.id).Nodup

abbrev Sound (s : Server) : Prop := Holds 1 1 [] s

variable {s : Server} {n w : ℕ} {taken : List Connection}

theorem ready_perm {i : ℕ} {completion : Completion} (h : s.ready[i]? = some completion) :
    s.ready.Perm (completion :: s.ready.eraseIdx i) := by
  obtain ⟨hi, rfl⟩ := List.getElem?_eq_some_iff.1 h
  exact (List.getElem_cons_eraseIdx_perm hi).symm

theorem Holds.take (h : Sound s) {i : ℕ} {completion : Completion}
    (hi : s.ready[i]? = some completion) :
    Holds (if completion.isAccepted then 0 else 1) (if completion.isSignal then 0 else 1)
      completion.client.toList { s with ready := s.ready.eraseIdx i } := by
  have hperm := ready_perm hi
  have haccepts := h.accepts
  have hwaits := h.waits
  have hclients := h.clients.trans ((List.Perm.refl s.started).append
    (hperm.filterMap Completion.client))
  rw [openAccepts, hperm.countP_eq] at haccepts
  rw [openWaits, hperm.countP_eq] at hwaits
  rw [List.countP_cons] at haccepts hwaits
  refine ⟨?_, ?_, ?_, h.fresh, h.nodup⟩
  · change s.accepting.length + (s.ready.eraseIdx i).countP _ = _
    split_ifs at haccepts ⊢ <;> omega
  · change s.waiting + (s.ready.eraseIdx i).countP _ ≤ _
    split_ifs at hwaits ⊢ <;> omega
  · refine hclients.trans ?_
    rcases hclient : completion.client with _ | connection
    · rw [List.filterMap_cons_none hclient]
      exact .refl _
    · rw [List.filterMap_cons_some hclient]
      exact List.perm_middle

theorem Holds.loadCertificate (h : Holds n w taken s) : Holds n w taken s.loadCertificate :=
  ⟨h.accepts, h.waits, h.clients, h.fresh, h.nodup⟩

theorem Holds.doAccept (h : Holds n w taken s) : Holds (n + 1) w taken s.doAccept where
  accepts := by
    have haccepts := h.accepts
    rw [openAccepts] at haccepts ⊢
    change (s.accepting ++ [_]).length + s.ready.countP _ = _
    rw [List.length_append, List.length_singleton]
    omega
  waits := h.waits
  clients := h.clients
  fresh := by
    intro connection hmem
    change connection ∈ s.clients.map Prod.fst ++ (s.accepting ++ [_]) at hmem
    rw [← List.append_assoc, List.mem_append, List.mem_singleton] at hmem
    change connection.id < s.created + 1
    rcases hmem with hmem | rfl
    · exact (h.fresh connection hmem).trans (Nat.lt_succ_self _)
    · exact Nat.lt_succ_self _
  nodup := by
    change ((s.clients.map Prod.fst ++ (s.accepting ++ [_])).map Connection.id).Nodup
    rw [← List.append_assoc, List.map_append, List.map_singleton, List.nodup_append]
    refine ⟨h.nodup, List.nodup_singleton _, fun id hid id' hid' heq => ?_⟩
    rw [List.mem_singleton] at hid'
    obtain ⟨connection, hmem, rfl⟩ := List.mem_map.1 hid
    exact (h.fresh connection hmem).ne (heq.trans hid')

theorem Holds.startAsyncWaitForSignal (h : Holds n w taken s) (next : ℕ) :
    Holds n (w + 1) taken (s.startAsyncWaitForSignal next) := by
  have hwaits := h.waits
  have haccepts := h.accepts
  have hclients := h.clients
  rw [openWaits] at hwaits
  rw [openAccepts] at haccepts
  unfold Server.startAsyncWaitForSignal
  dsimp only
  split
  · refine ⟨h.accepts, ?_, h.clients, h.fresh, h.nodup⟩
    change s.waiting + 1 + s.ready.countP _ ≤ _
    omega
  · refine ⟨?_, ?_, ?_, h.fresh, h.nodup⟩
    · simpa [openAccepts, Completion.isAccepted] using haccepts
    · simp only [openWaits, List.countP_append, List.countP_singleton, Completion.isSignal]
      simp only [if_true]
      omega
    · simpa [List.filterMap_cons, Completion.client] using hclients

theorem countP_map_accepted (connections : List Connection) (failed : Bool) :
    (connections.map fun connection => Completion.accepted connection failed).countP
      Completion.isAccepted = connections.length := by
  rw [List.countP_map]
  exact List.countP_eq_length.2 fun _ _ => rfl

theorem Holds.cancel (h : Holds n w taken s) (fails : Bool) :
    Holds n w taken (s.cancel fails) := by
  unfold Server.cancel
  split_ifs
  · exact h
  · refine ⟨?_, ?_, ?_, fun connection hmem => h.fresh connection ?_, ?_⟩
    · have haccepts := h.accepts
      rw [openAccepts] at haccepts
      simp only [openAccepts, List.countP_append, countP_map_accepted, List.length_nil]
      omega
    · have hwaits := h.waits
      simpa [openWaits, List.countP_map, Function.comp_def, Completion.isSignal] using hwaits
    · have hclients := h.clients
      simpa [List.filterMap_map, Function.comp_def, Completion.client] using hclients
    · exact List.mem_append_left _ (by simpa using hmem)
    · have hnodup := h.nodup
      rw [List.map_append, List.nodup_append] at hnodup
      simpa using hnodup.1

theorem Holds.ready_start {connection : Connection} (h : Holds n w [connection] s) :
    Holds n w [] { s with ready := s.ready ++ [.start connection] } := by
  refine ⟨?_, ?_, ?_, h.fresh, h.nodup⟩
  · simpa [openAccepts, Completion.isAccepted] using h.accepts
  · simpa [openWaits, Completion.isSignal] using h.waits
  · refine h.clients.trans ?_
    refine List.perm_append_comm.trans ?_
    rw [List.filterMap_append, List.nil_append, List.append_assoc]
    exact .refl _

theorem Holds.weaken {w' : ℕ} (h : Holds n w taken s) (hw : w ≤ w') : Holds n w' taken s :=
  ⟨h.accepts, h.waits.trans hw, h.clients, h.fresh, h.nodup⟩

theorem sound_handle {completion : Completion} (cancelFails : Bool) (next : ℕ)
    (h : Holds (if completion.isAccepted then 0 else 1) (if completion.isSignal then 0 else 1)
      completion.client.toList s) : Sound (s.handle cancelFails next completion) := by
  cases completion with
  | accepted connection failed =>
    cases failed with
    | true => exact h.doAccept
    | false => exact (Holds.ready_start h).doAccept
  | start connection =>
    refine ⟨h.accepts, h.waits, h.clients.trans ?_, h.fresh, h.nodup⟩
    change ([connection] ++ (s.started ++ _)).Perm ((s.started ++ [connection]) ++ _)
    rw [List.append_assoc]
    exact @List.perm_middle _ connection s.started (s.ready.filterMap Completion.client) |>.symm
  | signal failed signalNo =>
    rw [Server.handle]
    split_ifs
    · exact h.weaken (Nat.zero_le 1)
    · exact (h.loadCertificate.cancel cancelFails).startAsyncWaitForSignal next
    · exact ⟨h.accepts, h.waits.trans (Nat.zero_le 1), h.clients, h.fresh, h.nodup⟩

theorem sound_step {e : Event} {s' : Server} (h : Sound s) (hstep : step s e = some s') :
    Sound s' := by
  have haccepts := h.accepts
  have hwaits := h.waits
  have hclients := h.clients
  rw [openAccepts] at haccepts
  rw [openWaits] at hwaits
  cases e with
  | client =>
    rw [step] at hstep
    split at hstep
    · cases hstep
    rename_i connection accepting heq
    obtain rfl := Option.some.inj hstep
    rw [heq, List.length_cons] at haccepts
    have hfresh := h.fresh
    have hnodup := h.nodup
    rw [heq] at hfresh hnodup
    refine ⟨?_, ?_, ?_, ?_, ?_⟩
    · simp only [openAccepts, List.countP_append, List.countP_singleton, Completion.isAccepted,
        if_true]
      omega
    · simpa [openWaits, Completion.isSignal] using hwaits
    · simp only [List.map_append, List.filterMap_append]
      rw [← List.append_assoc, ← List.append_assoc]
      exact hclients.append_right [connection]
    · simpa using hfresh
    · simpa using hnodup
  | acceptFails =>
    rw [step] at hstep
    split at hstep
    · cases hstep
    rename_i connection accepting heq
    obtain rfl := Option.some.inj hstep
    rw [heq, List.length_cons] at haccepts
    refine ⟨?_, ?_, ?_, fun connection' hmem => h.fresh connection' ?_, ?_⟩
    · simp only [openAccepts, List.countP_append, List.countP_singleton, Completion.isAccepted,
        if_true]
      omega
    · simpa [openWaits, Completion.isSignal] using hwaits
    · simpa [List.filterMap_cons, Completion.client] using hclients
    · rw [heq]
      exact ((List.sublist_cons_self _ _).append_left _).subset hmem
    · have hnodup := h.nodup
      rw [heq] at hnodup
      exact hnodup.sublist (((List.sublist_cons_self _ _).append_left _).map _)
  | signal signalNo =>
    rw [step] at hstep
    split_ifs at hstep with hnone
    · obtain rfl := Option.some.inj hstep
      exact ⟨h.accepts, h.waits, h.clients, h.fresh, h.nodup⟩
    · obtain rfl := Option.some.inj hstep
      refine ⟨?_, ?_, ?_, h.fresh, h.nodup⟩
      · simpa [openAccepts, List.countP_replicate, Completion.isAccepted] using haccepts
      · simpa [openWaits, List.countP_replicate, Completion.isSignal, Nat.add_comm] using hwaits
      · simpa [List.filterMap_replicate, Completion.client] using hclients
  | waitFails =>
    rw [step] at hstep
    split_ifs at hstep with hnone
    obtain rfl := Option.some.inj hstep
    refine ⟨?_, ?_, ?_, h.fresh, h.nodup⟩
    · simpa [openAccepts, Completion.isAccepted] using haccepts
    · simp only [openWaits, List.countP_append, List.countP_singleton, Completion.isSignal, if_true]
      omega
    · simpa [List.filterMap_cons, Completion.client] using hclients
  | handler i cancelFails next =>
    rw [step] at hstep
    split_ifs at hstep
    obtain ⟨completion, hi, rfl⟩ := Option.map_eq_some_iff.1 hstep
    exact sound_handle cancelFails next (h.take hi)

theorem sound_run (adaptorCtx : ℕ) : Sound ({ adaptorCtx } : Server).run := by
  refine ⟨rfl, le_refl _, .nil, ?_, List.nodup_singleton _⟩
  simp [Server.run, Server.doAccept, Server.startAsyncWaitForSignal, Server.loadCertificate]

/-- At any time one accept is open and at most one wait for a signal, and each client that
was accepted has its own connection, which is started once or waits for it. -/
theorem server_sound (adaptorCtx : ℕ) (events : List Event) :
    Always step Sound ({ adaptorCtx } : Server).run events :=
  always_of_step (fun _ _ _ h => sound_step h) (sound_run adaptorCtx) events

/-- The accept that is open, and every accept that a client got, had the newest context. -/
structure Current (s : Server) : Prop where
  accepting : ∀ connection ∈ s.accepting, connection.context = s.adaptorCtx
  clients : ∀ client ∈ s.clients, client.1.context = client.2

def Cancels : Event → Prop
  | .handler _ cancelFails _ => cancelFails = false
  | _ => True

theorem Current.doAccept (h : Current s) : Current s.doAccept where
  accepting := by
    intro connection hmem
    rcases List.mem_append.1 hmem with hmem | hmem
    · exact h.accepting connection hmem
    · rw [List.mem_singleton.1 hmem]
      rfl
  clients := h.clients

theorem Current.startAsyncWaitForSignal (h : Current s) (next : ℕ) :
    Current (s.startAsyncWaitForSignal next) := by
  unfold Server.startAsyncWaitForSignal
  dsimp only
  split <;> exact ⟨h.accepting, h.clients⟩

theorem current_handle (h : Current s) (next : ℕ) (completion : Completion) :
    Current (s.handle false next completion) := by
  cases completion with
  | accepted connection failed =>
    cases failed with
    | true => exact h.doAccept
    | false => exact Current.doAccept ⟨h.accepting, h.clients⟩
  | start connection => exact ⟨h.accepting, h.clients⟩
  | signal failed signalNo =>
    rw [Server.handle]
    split_ifs
    · exact h
    · -- the accepts with the old context are cancelled
      have hcurrent : Current (s.loadCertificate.cancel false) :=
        ⟨fun _ hmem => (List.not_mem_nil hmem).elim, h.clients⟩
      exact hcurrent.startAsyncWaitForSignal next
    · exact ⟨h.accepting, h.clients⟩

theorem current_step {e : Event} {s' : Server} (h : Current s) (hcancels : Cancels e)
    (hstep : step s e = some s') : Current s' := by
  cases e with
  | client =>
    rw [step] at hstep
    split at hstep
    · cases hstep
    rename_i connection accepting heq
    obtain rfl := Option.some.inj hstep
    have hall := h.accepting
    rw [heq, List.forall_mem_cons] at hall
    refine ⟨hall.2, fun client hmem => ?_⟩
    rcases List.mem_append.1 hmem with hmem | hmem
    · exact h.clients client hmem
    · rw [List.mem_singleton.1 hmem]
      exact hall.1
  | acceptFails =>
    rw [step] at hstep
    split at hstep
    · cases hstep
    rename_i connection accepting heq
    obtain rfl := Option.some.inj hstep
    have hall := h.accepting
    rw [heq, List.forall_mem_cons] at hall
    exact ⟨hall.2, h.clients⟩
  | signal signalNo =>
    rw [step] at hstep
    split_ifs at hstep <;> obtain rfl := Option.some.inj hstep <;> exact ⟨h.accepting, h.clients⟩
  | waitFails =>
    rw [step] at hstep
    split_ifs at hstep
    obtain rfl := Option.some.inj hstep
    exact ⟨h.accepting, h.clients⟩
  | handler i cancelFails next =>
    obtain rfl : cancelFails = false := hcancels
    rw [step] at hstep
    split_ifs at hstep
    obtain ⟨completion, -, rfl⟩ := Option.map_eq_some_iff.1 hstep
    exact @current_handle { s with ready := s.ready.eraseIdx i } ⟨h.accepting, h.clients⟩ next
      completion

/-- While the acceptor can be cancelled, no client is accepted with a context that is older
than the last reload, whenever the handlers run. -/
theorem clients_current {adaptorCtx : ℕ} {events : List Event}
    (h : Guarded step (fun _ => Cancels) ({ adaptorCtx } : Server).run events) :
    Always step Current ({ adaptorCtx } : Server).run events :=
  always_of_guarded (fun _ _ _ => current_step)
    (Current.doAccept ⟨fun _ hmem => (List.not_mem_nil hmem).elim,
      fun _ hmem => (List.not_mem_nil hmem).elim⟩) h

/-- Unless the server has stopped a wait is open, and while it is, no signal is left over. -/
structure Listens (s : Server) : Prop where
  waits : s.stopped = false → 0 < openWaits s
  queued : 0 < s.waiting → s.queuedSignals = []
  succeeded : ∀ signalNo, .signal true signalNo ∉ s.ready

def Waits : Event → Prop
  | .waitFails => False
  | _ => True

theorem Listens.other (h : Listens s) {s' : Server} {ready : List Completion}
    (hstopped : s'.stopped = s.stopped) (hwaiting : s'.waiting = s.waiting)
    (hqueued : s'.queuedSignals = s.queuedSignals) (hready : s'.ready = ready)
    (hcount : ready.countP Completion.isSignal = s.ready.countP Completion.isSignal)
    (hsucceeded : ∀ signalNo, .signal true signalNo ∉ ready) : Listens s' where
  waits hrunning := by
    have hpos := h.waits (hstopped ▸ hrunning)
    rw [openWaits] at hpos ⊢
    rw [hwaiting, hready, hcount]
    exact hpos
  queued hpos := hqueued.trans (h.queued (hwaiting ▸ hpos))
  succeeded := hready.symm ▸ hsucceeded

theorem startAsyncWaitForSignal_listens (hqueued : 0 < s.waiting → s.queuedSignals = [])
    (hsucceeded : ∀ signalNo, .signal true signalNo ∉ s.ready) (next : ℕ) :
    Listens (s.startAsyncWaitForSignal next) := by
  unfold Server.startAsyncWaitForSignal
  dsimp only
  split
  · rename_i hnone
    have hnil : s.queuedSignals = [] := by
      by_contra hne
      have hle := List.getElem?_eq_none_iff.1 hnone
      have hlt := Nat.mod_lt next (List.length_pos_iff.2 hne)
      omega
    refine ⟨fun _ => ?_, fun _ => hnil, hsucceeded⟩
    exact Nat.lt_of_lt_of_le (Nat.succ_pos _) (Nat.le_add_right _ _)
  · rename_i signalNo heq
    refine ⟨fun _ => ?_, fun hpos => ?_, fun signalNo' hmem => ?_⟩
    · simp [openWaits, Completion.isSignal]
    · rw [hqueued hpos] at heq
      cases heq
    · simp [hsucceeded signalNo'] at hmem

theorem listens_handle {i : ℕ} (h : Listens s) {completion : Completion}
    (hi : s.ready[i]? = some completion) (cancelFails : Bool) (next : ℕ) :
    Listens ({ s with ready := s.ready.eraseIdx i }.handle cancelFails next completion) := by
  have hperm := ready_perm hi
  have hcount := hperm.countP_eq Completion.isSignal
  have hsucceeded : ∀ signalNo, .signal true signalNo ∉ s.ready.eraseIdx i := fun signalNo hmem =>
    h.succeeded signalNo (hperm.mem_iff.2 (List.mem_cons_of_mem _ hmem))
  cases completion with
  | accepted connection failed =>
    rw [List.countP_cons_of_neg (by simp [Completion.isSignal])] at hcount
    cases failed with
    | true => exact h.other rfl rfl rfl rfl hcount.symm hsucceeded
    | false =>
      refine @Listens.other s h _ (s.ready.eraseIdx i ++ [.start connection]) rfl rfl rfl rfl ?_ ?_
      · simpa [Completion.isSignal] using hcount.symm
      · simpa using hsucceeded
  | start connection =>
    rw [List.countP_cons_of_neg (by simp [Completion.isSignal])] at hcount
    exact h.other rfl rfl rfl rfl hcount.symm hsucceeded
  | signal failed signalNo =>
    have hok : failed = false := by
      rcases failed with - | -
      · rfl
      · exact (h.succeeded signalNo (List.mem_of_getElem? hi)).elim
    subst hok
    rw [Server.handle, if_neg Bool.false_ne_true]
    split_ifs
    · refine startAsyncWaitForSignal_listens ?_ ?_ next
      · cases cancelFails <;> exact h.queued
      · cases cancelFails <;> simpa [Server.cancel, Server.loadCertificate] using hsucceeded
    · exact ⟨nofun, h.queued, hsucceeded⟩

theorem listens_step {e : Event} {s' : Server} (h : Listens s) (hwaits : Waits e)
    (hstep : step s e = some s') : Listens s' := by
  cases e with
  | client =>
    rw [step] at hstep
    split at hstep
    · cases hstep
    obtain rfl := Option.some.inj hstep
    refine h.other rfl rfl rfl rfl ?_ ?_
    · simp [Completion.isSignal]
    · simpa using h.succeeded
  | acceptFails =>
    rw [step] at hstep
    split at hstep
    · cases hstep
    obtain rfl := Option.some.inj hstep
    refine h.other rfl rfl rfl rfl ?_ ?_
    · simp [Completion.isSignal]
    · simpa using h.succeeded
  | signal signalNo =>
    rw [step] at hstep
    split_ifs at hstep with hnone
    · obtain rfl := Option.some.inj hstep
      exact ⟨h.waits, fun hpos => absurd hnone hpos.ne', h.succeeded⟩
    · obtain rfl := Option.some.inj hstep
      refine ⟨fun _ => ?_, fun hpos => (lt_irrefl 0 hpos).elim, fun signalNo' hmem => ?_⟩
      · simp only [openWaits, List.countP_append, List.countP_replicate, Completion.isSignal,
          if_true]
        omega
      · rcases List.mem_append.1 hmem with hmem | hmem
        · exact h.succeeded signalNo' hmem
        · cases (List.mem_replicate.1 hmem).2
  | waitFails => exact hwaits.elim
  | handler i cancelFails next =>
    rw [step] at hstep
    split_ifs at hstep
    obtain ⟨completion, hi, rfl⟩ := Option.map_eq_some_iff.1 hstep
    exact listens_handle h hi cancelFails next

/-- A server whose waits do not fail goes on listening to signals until one stops it. -/
theorem server_listens {adaptorCtx : ℕ} {events : List Event}
    (h : Guarded step (fun _ => Waits) ({ adaptorCtx } : Server).run events) :
    Always step (fun s => Listens s ∧ (s.stopped = false → openWaits s = 1))
      ({ adaptorCtx } : Server).run events := by
  have hstart : Listens ({ adaptorCtx } : Server).run :=
    ⟨fun _ => Nat.succ_pos _, fun _ => rfl, fun _ hmem => (List.not_mem_nil hmem).elim⟩
  have hlistens := always_of_guarded (fun _ _ _ => listens_step) hstart h
  have hsound : Always step Sound ({ adaptorCtx } : Server).run events :=
    always_of_step (fun _ _ _ h => sound_step h) (sound_run adaptorCtx) events
  refine (hlistens.and hsound).mono ?_
  rintro t ⟨hlistens, hsound⟩
  exact ⟨hlistens, fun hrunning => le_antisymm hsound.waits (hlistens.waits hrunning)⟩

def reloadEvents : List Event :=
  [.client, .signal .SIGHUP, .handler 1 false 0, .handler 0 false 0, .client]

theorem clients_current_reload : Always step Current ({} : Server).run reloadEvents ∧
    (run step ({} : Server).run reloadEvents).map Server.clients =
      some [({ id := 0, context := 1 }, 1), ({ id := 1, context := 2 }, 2)] := by
  have hcancels : ∀ e ∈ reloadEvents, Cancels e := by
    simp [reloadEvents, Cancels]
  exact ⟨clients_current (guarded_of_forall hcancels), rfl⟩

theorem server_listens_reload : Always step
    (fun s => Listens s ∧ (s.stopped = false → openWaits s = 1))
    ({} : Server).run reloadEvents := by
  have hwaits : ∀ e ∈ reloadEvents, Waits e := by
    simp [reloadEvents, Waits]
  exact server_listens (guarded_of_forall hwaits)

/-- The date is known by the time that it tells, in seconds. -/
structure DateCache where
  dateStr : ℤ
  /-- the static variable, which the first call initialises -/
  lastDateUpdate : Option ℤ := none
deriving DecidableEq, Repr

/-- The moments of a call by the steady clock, in nanoseconds, and the time of day at the last of
them. The first one matters in the first call, the last two where the date is made again. -/
structure Call where
  first : ℤ
  now : ℤ
  again : ℤ
  moment : ℤ
  time : ℤ
deriving DecidableEq, Repr

def Call.moments (call : Call) : List ℤ := [call.first, call.now, call.again, call.moment]

def updateDateStr (time : ℤ) (cache : DateCache) : DateCache := { cache with dateStr := time }

/-- The cache after the call; its date is returned. -/
def getCachedDateStr (cache : DateCache) (call : Call) : DateCache :=
  let lastDateUpdate := cache.lastDateUpdate.getD call.first
  if call.now - lastDateUpdate ≥ 10 * 10 ^ 9 then
    updateDateStr call.time { cache with lastDateUpdate := some call.again }
  else { cache with lastDateUpdate := some lastDateUpdate }

structure Cached (start first : ℤ) (calls : List Call) (last : Call) (cache : DateCache) :
    Prop where
  recent : ∃ update, cache.lastDateUpdate = some update ∧ last.now < update + 10 * 10 ^ 9 ∧
    (update = first ∧ cache.dateStr = start ∨ first + 10 * 10 ^ 9 ≤ last.now ∧ first ≤ update ∧
      ∃ made ∈ calls, update = made.again ∧ made.again ≤ made.moment ∧
        made.moment ≤ last.moment ∧ cache.dateStr = made.time)

theorem cached_call {start first : ℤ} {calls : List Call} {last call : Call} {cache : DateCache}
    (h : Cached start first calls last cache)
    (hcall : (last.moments ++ call.moments).Pairwise (· ≤ ·)) :
    Cached start first (calls ++ [call]) call (getCachedDateStr cache call) := by
  obtain ⟨update, hupdate, hlt, hdate⟩ := h.recent
  simp only [Call.moments, List.cons_append, List.nil_append, List.pairwise_cons,
    List.forall_mem_cons] at hcall
  rw [getCachedDateStr, hupdate, Option.getD_some]
  split_ifs with hold
  · refine ⟨call.again, rfl, by omega, .inr ⟨?_, ?_, call, by simp, rfl, by omega, le_refl _, rfl⟩⟩
    · omega
    · omega
  · refine ⟨update, rfl, by omega, hdate.imp_right ?_⟩
    rintro ⟨hlong, hfirst, made, hmade, heq, hagain, hmoment, htime⟩
    exact ⟨by omega, hfirst, made, List.mem_append_left _ hmade, heq, hagain, by omega, htime⟩

theorem cached_first (start : ℤ) {call : Call} (hcall : call.moments.Pairwise (· ≤ ·)) :
    Cached start call.first [call] call (getCachedDateStr { dateStr := start } call) := by
  simp only [Call.moments, List.pairwise_cons, List.forall_mem_cons] at hcall
  unfold getCachedDateStr
  dsimp only [Option.getD_none]
  split_ifs with hold
  · exact ⟨call.again, rfl, by omega, .inr ⟨by omega, by omega, call, by simp, rfl, by omega,
      le_refl _, rfl⟩⟩
  · exact ⟨call.first, rfl, by omega, .inl ⟨rfl, rfl⟩⟩

theorem cached_calls {start first : ℤ} {done calls : List Call} {last : Call} {cache : DateCache}
    (h : Cached start first done last cache)
    (hsorted : ((last :: calls).flatMap Call.moments).Pairwise (· ≤ ·)) :
    Cached start first (done ++ calls) ((last :: calls).getLast (List.cons_ne_nil _ _))
      (calls.foldl getCachedDateStr cache) := by
  induction calls generalizing done last cache with
  | nil => simpa using h
  | cons call calls ih =>
    rw [List.flatMap_cons] at hsorted
    have hcall : (last.moments ++ call.moments).Pairwise (· ≤ ·) := by
      refine hsorted.sublist ((List.Sublist.refl _).append ?_)
      rw [List.flatMap_cons]
      exact List.sublist_append_left _ _
    have hrest := ih (cached_call h hcall) (hsorted.sublist (List.sublist_append_right _ _))
    rw [List.append_assoc] at hrest
    rw [List.getLast_cons (List.cons_ne_nil _ _)]
    exact hrest

/-- Calls at any moments in their order. In the ten seconds after the first of them the date is
that of the start of the server. A later call returns a time that was told less than ten seconds
before it; if nobody sets the clock, the date is less than eleven seconds old then. -/
theorem date_age (start : ℤ) (call : Call) {calls : List Call}
    (hsorted : ((call :: calls).flatMap Call.moments).Pairwise (· ≤ ·)) :
    let last := (call :: calls).getLast (List.cons_ne_nil _ _)
    let cache := (call :: calls).foldl getCachedDateStr { dateStr := start }
    (last.now < call.first + 10 * 10 ^ 9 → cache.dateStr = start) ∧
      (call.first + 10 * 10 ^ 9 ≤ last.now →
        (∃ made ∈ call :: calls, cache.dateStr = made.time ∧
          last.now < made.again + 10 * 10 ^ 9) ∧
        ∀ epoch, (∀ made ∈ call :: calls, made.time = (made.moment + epoch) / 10 ^ 9) →
          cache.dateStr * 10 ^ 9 ≤ last.moment + epoch ∧
            last.now + epoch < (cache.dateStr + 11) * 10 ^ 9) := by
  intro last cache
  have hcall : call.moments.Pairwise (· ≤ ·) := by
    rw [List.flatMap_cons] at hsorted
    exact hsorted.sublist (List.sublist_append_left _ _)
  obtain ⟨update, -, hlt, hdate⟩ := (cached_calls (cached_first start hcall) hsorted).recent
  change last.now < update + 10 * 10 ^ 9 at hlt
  change update = call.first ∧ cache.dateStr = start ∨
    call.first + 10 * 10 ^ 9 ≤ last.now ∧ _ at hdate
  constructor
  · intro hshort
    rcases hdate with ⟨-, hstart⟩ | ⟨hlong, -⟩
    · exact hstart
    · omega
  · intro hlong
    rcases hdate with ⟨hupdate, -⟩ | ⟨-, -, made, hmade, hupdate, hagain, hmoment, htime⟩
    · omega
    change cache.dateStr = made.time at htime
    change made.moment ≤ last.moment at hmoment
    refine ⟨⟨made, hmade, htime, by omega⟩, fun epoch hepoch => ?_⟩
    rw [htime, hepoch made hmade]
    omega

/-- A first call an hour after the start, and the next ones. -/
theorem date_age_hour :
    let call := fun seconds : ℤ => Call.mk (seconds * 10 ^ 9) (seconds * 10 ^ 9)
      (seconds * 10 ^ 9) (seconds * 10 ^ 9) seconds
    (([3600, 3605, 3609].map call).foldl getCachedDateStr { dateStr := 0 }).dateStr = 0 ∧
      (([3600, 3605, 3609, 3610, 3612].map call).foldl getCachedDateStr
        { dateStr := 0 }).dateStr = 3610 := by
  intro call
  have hshort := @date_age 0 (call 3600) [call 3605, call 3609] (by decide)
  exact ⟨hshort.1 (by decide), rfl⟩

end CrowCore.HttpServer
