import CrowCore.HttpConnection
import CrowCore.GuardedRuns
import CrowCore.OneShot

set_option autoImplicit false

/-!
# Completion handlers

The handler of a response and its `completed` flag are moved apart from each
other. A handler is pending in the one response that has it and is not completed;
only `clear` can make a handler pending again that was called.
-/
namespace CrowCore.CompletionHandlers
open GuardedRuns OneShot

/-- What a `Response` knows of its completion. -/
structure Response (H : Type) where
  completed : Bool := false
  completeRequestHandler : Option H := none
deriving DecidableEq, Repr

namespace Response
variable {H : Type}

/-- The move constructor, and what is left of the other response. -/
def moveConstruct (res : Response H) : Response H × Response H :=
  ({ completed := res.completed
     completeRequestHandler := if res.completed then none else res.completeRequestHandler },
    { res with completeRequestHandler := if res.completed then res.completeRequestHandler
      else none })

/-- `operator=` from another response, and what is left of that one. -/
def moveAssign (res r : Response H) : Response H × Response H :=
  ({ res with
      completeRequestHandler := if r.completed then none else r.completeRequestHandler
      completed := r.completed },
    { r with completeRequestHandler := if r.completed then r.completeRequestHandler else none })

def clear (res : Response H) : Response H := { res with completed := false }

/-- The handler that `end` calls comes last. -/
def endResponse (res : Response H) : Response H × Option H :=
  if res.completed then (res, none)
  else ({ res with completed := true }, res.completeRequestHandler)

def setCompleteRequestHandler (res : Response H) (handler : Option H) : Response H :=
  { res with completeRequestHandler := handler, completed := false }

def releaseCompleteRequestHandler (res : Response H) : Response H × Option H :=
  ({ res with completeRequestHandler := none, completed := true }, res.completeRequestHandler)

def pending (res : Response H) : Option H :=
  if res.completed then none else res.completeRequestHandler

end Response

/-- The responses by their place, those of an `AsyncResp` among them. Handlers are
numbered by the calls that install them. -/
structure State where
  responses : ℕ → Option (Response ℕ) := fun _ => none
  handlers : ℕ := 0
  /-- the handlers in the order in which they are called -/
  called : List ℕ := []

inductive Event where
  | construct (k : ℕ)
  | moveConstruct (k res : ℕ)
  | moveAssign (k r : ℕ)
  /-- the function may be empty -/
  | setCompleteRequestHandler (k : ℕ) (callable : Bool)
  | endResponse (k : ℕ)
  | clear (k : ℕ)
  | releaseCompleteRequestHandler (k : ℕ)
  | destroy (k : ℕ)
  /-- `~AsyncResp` ends the response first -/
  | destroyAsyncResp (k : ℕ)
deriving DecidableEq, Repr

namespace State

def set (s : State) (k : ℕ) (res : Option (Response ℕ)) : State :=
  { s with responses := Function.update s.responses k res }

/-- `end` of a response; what the handler does to responses comes after it. -/
def endResponse (s : State) (k : ℕ) (res : Response ℕ) : State :=
  { s.set k (some res.endResponse.1) with called := s.called ++ res.endResponse.2.toList }

def pending (s : State) (k : ℕ) : Option ℕ := (s.responses k).bind Response.pending

end State

/-- `none` where there is no such response, or one already. -/
def step (s : State) : Event → Option State
  | .construct k => if (s.responses k).isSome then none else return s.set k (some {})
  | .moveConstruct k j => do
    let res ← s.responses j
    if (s.responses k).isSome then none
    else return (s.set j (some res.moveConstruct.2)).set k (some res.moveConstruct.1)
  | .moveAssign k j => do
    let res ← s.responses k
    let r ← s.responses j
    if k = j then return s
    else return (s.set j (some (res.moveAssign r).2)).set k (some (res.moveAssign r).1)
  | .setCompleteRequestHandler k callable => do
    let res ← s.responses k
    if callable then
      return { s.set k (some (res.setCompleteRequestHandler (some s.handlers))) with
        handlers := s.handlers + 1 }
    else return s.set k (some (res.setCompleteRequestHandler none))
  | .endResponse k => do
    let res ← s.responses k
    return s.endResponse k res
  | .clear k => do
    let res ← s.responses k
    return s.set k (some res.clear)
  | .releaseCompleteRequestHandler k => do
    let res ← s.responses k
    return s.set k (some res.releaseCompleteRequestHandler.1)
  | .destroy k => do
    let _ ← s.responses k
    return s.set k none
  | .destroyAsyncResp k => do
    let res ← s.responses k
    return (s.endResponse k res).set k none

/-- No `clear` of a completed response that still has its handler. -/
def KeepsCompleted (s : State) : Event → Prop
  | .clear k => ∀ res, s.responses k = some res → res.completed → res.completeRequestHandler = none
  | _ => True

def Owns (s : State) (k h : ℕ) : Prop :=
  ∃ res, s.responses k = some res ∧ res.completeRequestHandler = some h

def Ends (k : ℕ) : Event → Prop
  | .endResponse j => j = k
  | .destroyAsyncResp j => j = k
  | _ => False

/-- No handler was called twice, and a response that is not completed calls the
handler it has at its next `end`, if it has it still. -/
structure CalledOnce (s : State) : Prop where
  nodup : s.called.Nodup
  next_end : ∀ k h res, s.responses k = some res → res.completed = false →
    res.completeRequestHandler = some h → ∀ events s', (∀ e ∈ events, ¬Ends k e) →
      run step s events = some s' → Owns s' k h → ∀ e, Ends k e →
        ∃ s'', step s' e = some s'' ∧ s''.called = s'.called ++ [h]

namespace Response
variable {H : Type}

theorem pending_moveConstruct (res : Response H) :
    res.moveConstruct.1.pending = res.pending ∧ res.moveConstruct.2.pending = none := by
  unfold moveConstruct pending
  cases res.completed <;> exact ⟨rfl, rfl⟩

theorem pending_moveAssign (res r : Response H) :
    (res.moveAssign r).1.pending = r.pending ∧ (res.moveAssign r).2.pending = none := by
  unfold moveAssign pending
  cases r.completed <;> exact ⟨rfl, rfl⟩

theorem pending_clear {res : Response H} (h : res.completed → res.completeRequestHandler = none) :
    res.clear.pending = res.pending := by
  unfold clear pending
  cases hcompleted : res.completed with
  | false => rfl
  | true => exact h hcompleted

theorem endResponse_eq (res : Response H) :
    res.endResponse.1.pending = none ∧ res.endResponse.2 = res.pending := by
  unfold endResponse pending
  cases hcompleted : res.completed with
  | false => exact ⟨rfl, rfl⟩
  | true => exact ⟨by simp [hcompleted], rfl⟩

def Ready (res : Response H) : Prop := res.completed → res.completeRequestHandler = none

theorem Ready.pending_eq {res : Response H} (h : res.Ready) :
    res.pending = res.completeRequestHandler := by
  unfold pending
  split_ifs with hcompleted
  · exact (h hcompleted).symm
  · rfl

theorem ready_moveConstruct (res : Response H) : res.moveConstruct.1.Ready := by
  intro hcompleted
  exact if_pos hcompleted

theorem Ready.moveConstruct {res : Response H} (h : res.Ready) : res.moveConstruct.2.Ready := by
  intro hcompleted
  exact (if_pos hcompleted).trans (h hcompleted)

theorem ready_setCompleteRequestHandler (res : Response H) (handler : Option H) :
    (res.setCompleteRequestHandler handler).Ready := by
  intro hcompleted
  cases hcompleted

theorem ready_clear (res : Response H) : res.clear.Ready := by
  intro hcompleted
  cases hcompleted

theorem ready_moveAssign (res r : Response H) : (res.moveAssign r).1.Ready := by
  intro hcompleted
  exact if_pos hcompleted

theorem Ready.moveAssign {r : Response H} (h : r.Ready) (res : Response H) :
    (res.moveAssign r).2.Ready := by
  intro hcompleted
  exact (if_pos hcompleted).trans (h hcompleted)

end Response

theorem pending_set (s : State) (k : ℕ) (res : Option (Response ℕ)) :
    (s.set k res).pending = Function.update s.pending k (res.bind Response.pending) := by
  funext j
  change (Function.update s.responses k res j).bind Response.pending = _
  by_cases hj : j = k
  · subst hj
    rw [Function.update_self, Function.update_self]
  · rw [Function.update_of_ne hj, Function.update_of_ne hj, State.pending]

def Once (s : State) : Prop := Sound s.pending (· < s.handlers) s.called

theorem Once.set_none {s : State} (h : Once s) (k : ℕ) {res : Option (Response ℕ)}
    (hres : res.bind Response.pending = none) : Once (s.set k res) := by
  unfold Once
  rw [pending_set, hres]
  exact h.drop k

theorem Once.move {s : State} (h : Once s) {j k : ℕ} {r r' res' : Response ℕ}
    (hj : s.responses j = some r) (hleft : r'.pending = none) (hmoved : res'.pending = r.pending) :
    Once ((s.set j (some r')).set k (some res')) := by
  have hpending : s.pending j = r.pending := by rw [State.pending, hj, Option.bind_some]
  unfold Once
  rw [pending_set, pending_set, Option.bind_some, Option.bind_some, hleft, hmoved, ← hpending]
  exact Sound.move h j k

theorem Once.endResponse {s : State} (h : Once s) {k : ℕ} {res : Response ℕ}
    (hk : s.responses k = some res) : Once (s.endResponse k res) := by
  have hpending : s.pending k = res.pending := by rw [State.pending, hk, Option.bind_some]
  have hspend := h.spend k
  obtain ⟨hleft, hcalled⟩ := res.endResponse_eq
  unfold Once
  change Sound (s.set k (some res.endResponse.1)).pending _ (s.called ++ res.endResponse.2.toList)
  rw [pending_set, Option.bind_some, hleft, hcalled, ← hpending]
  exact hspend

inductive Steps (s : State) : Event → State → Prop
  | construct (k : ℕ) : Steps s (.construct k) (s.set k (some {}))
  | moveConstruct {k j : ℕ} {res : Response ℕ} (hres : s.responses j = some res) :
      Steps s (.moveConstruct k j)
        ((s.set j (some res.moveConstruct.2)).set k (some res.moveConstruct.1))
  | moveAssignSelf (k : ℕ) : Steps s (.moveAssign k k) s
  | moveAssign {k j : ℕ} (res : Response ℕ) {r : Response ℕ} (hr : s.responses j = some r) :
      Steps s (.moveAssign k j)
        ((s.set j (some (res.moveAssign r).2)).set k (some (res.moveAssign r).1))
  | install (k : ℕ) (res : Response ℕ) : Steps s (.setCompleteRequestHandler k true)
      { s.set k (some (res.setCompleteRequestHandler (some s.handlers))) with
        handlers := s.handlers + 1 }
  | uninstall (k : ℕ) (res : Response ℕ) : Steps s (.setCompleteRequestHandler k false)
      (s.set k (some (res.setCompleteRequestHandler none)))
  | endResponse {k : ℕ} {res : Response ℕ} (hres : s.responses k = some res) :
      Steps s (.endResponse k) (s.endResponse k res)
  | clear {k : ℕ} {res : Response ℕ} (hres : s.responses k = some res) :
      Steps s (.clear k) (s.set k (some res.clear))
  | releaseCompleteRequestHandler (k : ℕ) (res : Response ℕ) :
      Steps s (.releaseCompleteRequestHandler k)
        (s.set k (some res.releaseCompleteRequestHandler.1))
  | destroy (k : ℕ) : Steps s (.destroy k) (s.set k none)
  | destroyAsyncResp {k : ℕ} {res : Response ℕ} (hres : s.responses k = some res) :
      Steps s (.destroyAsyncResp k) ((s.endResponse k res).set k none)

theorem steps_of_step {s s' : State} {e : Event} (hstep : step s e = some s') : Steps s e s' := by
  cases e with
  | construct k =>
    simp only [step] at hstep
    split_ifs at hstep
    obtain rfl := Option.some.inj hstep
    exact .construct k
  | moveConstruct k j =>
    obtain ⟨res, hres, hstep⟩ := Option.bind_eq_some_iff.1 hstep
    split_ifs at hstep
    obtain rfl := Option.some.inj hstep
    exact .moveConstruct hres
  | moveAssign k j =>
    obtain ⟨res, -, hstep⟩ := Option.bind_eq_some_iff.1 hstep
    obtain ⟨r, hr, hstep⟩ := Option.bind_eq_some_iff.1 hstep
    split_ifs at hstep with hkj
    · obtain rfl := Option.some.inj hstep
      exact hkj ▸ .moveAssignSelf k
    · obtain rfl := Option.some.inj hstep
      exact .moveAssign res hr
  | setCompleteRequestHandler k callable =>
    obtain ⟨res, -, hstep⟩ := Option.bind_eq_some_iff.1 hstep
    cases callable with
    | false =>
      obtain rfl := Option.some.inj hstep
      exact .uninstall k res
    | true =>
      obtain rfl := Option.some.inj hstep
      exact .install k res
  | endResponse k =>
    obtain ⟨res, hres, hstep⟩ := Option.bind_eq_some_iff.1 hstep
    obtain rfl := Option.some.inj hstep
    exact .endResponse hres
  | clear k =>
    obtain ⟨res, hres, hstep⟩ := Option.bind_eq_some_iff.1 hstep
    obtain rfl := Option.some.inj hstep
    exact .clear hres
  | releaseCompleteRequestHandler k =>
    obtain ⟨res, -, hstep⟩ := Option.bind_eq_some_iff.1 hstep
    obtain rfl := Option.some.inj hstep
    exact .releaseCompleteRequestHandler k res
  | destroy k =>
    obtain ⟨res, -, hstep⟩ := Option.bind_eq_some_iff.1 hstep
    obtain rfl := Option.some.inj hstep
    exact .destroy k
  | destroyAsyncResp k =>
    obtain ⟨res, hres, hstep⟩ := Option.bind_eq_some_iff.1 hstep
    obtain rfl := Option.some.inj hstep
    exact .destroyAsyncResp hres

theorem once_step {s s' : State} {e : Event} (h : Once s) (hkeeps : KeepsCompleted s e)
    (hstep : Steps s e s') : Once s' := by
  cases hstep with
  | construct k => exact h.set_none k rfl
  | moveConstruct hres =>
    obtain ⟨hmoved, hleft⟩ := Response.pending_moveConstruct _
    exact h.move hres hleft hmoved
  | moveAssignSelf k => exact h
  | moveAssign res hr =>
    obtain ⟨hmoved, hleft⟩ := res.pending_moveAssign _
    exact h.move hr hleft hmoved
  | install k res =>
    have hissue : Sound (Function.update s.pending k (some s.handlers)) (· < s.handlers + 1)
        s.called :=
      h.issue k (lt_irrefl s.handlers) (fun _ => Nat.lt_succ_of_lt) (Nat.lt_succ_self _)
    unfold Once
    change Sound (s.set k _).pending _ s.called
    rw [pending_set]
    exact hissue
  | uninstall k res => exact h.set_none k rfl
  | endResponse hres => exact h.endResponse hres
  | @clear k res hres =>
    have hpending : s.pending k = res.pending := by rw [State.pending, hres, Option.bind_some]
    unfold Once
    rw [pending_set, Option.bind_some, Response.pending_clear (hkeeps res hres), ← hpending,
      Function.update_eq_self]
    exact h
  | releaseCompleteRequestHandler k res => exact h.set_none k rfl
  | destroy k => exact h.set_none k rfl
  | destroyAsyncResp hres => exact (h.endResponse hres).set_none _ rfl

def ReadyAt (s : State) (k : ℕ) : Prop := ∀ res, s.responses k = some res → res.Ready

theorem ReadyAt.set {s : State} {k : ℕ} (h : ReadyAt s k) (j : ℕ) {res : Option (Response ℕ)}
    (hres : j = k → ∀ r, res = some r → r.Ready) : ReadyAt (s.set j res) k := by
  intro r hr
  change Function.update s.responses j res k = some r at hr
  by_cases hj : k = j
  · subst hj
    rw [Function.update_self] at hr
    exact hres rfl r hr
  · rw [Function.update_of_ne hj] at hr
    exact h r hr

theorem readyAt_step {s s' : State} {e : Event} {k : ℕ} (h : ReadyAt s k) (he : ¬Ends k e)
    (hstep : Steps s e s') : ReadyAt s' k := by
  cases hstep with
  | construct j =>
    refine h.set j fun _ r hr => ?_
    cases hr
    exact fun _ => rfl
  | @moveConstruct i j res hres =>
    refine ReadyAt.set (h.set j fun hj r hr => ?_) i fun _ r hr => ?_
    · cases hr
      exact (h res (hj ▸ hres)).moveConstruct
    · cases hr
      exact res.ready_moveConstruct
  | moveAssignSelf j => exact h
  | @moveAssign i j res r hr =>
    refine ReadyAt.set (h.set j fun hj r' hr' => ?_) i fun _ r' hr' => ?_
    · cases hr'
      exact Response.Ready.moveAssign (h r (hj ▸ hr)) res
    · cases hr'
      exact res.ready_moveAssign r
  | install j res =>
    refine h.set j fun _ r hr => ?_
    cases hr
    exact res.ready_setCompleteRequestHandler _
  | uninstall j res =>
    refine h.set j fun _ r hr => ?_
    cases hr
    exact res.ready_setCompleteRequestHandler none
  | @endResponse j res hres => exact h.set j fun hj => (he hj).elim
  | @clear j res hres =>
    refine h.set j fun _ r hr => ?_
    cases hr
    exact res.ready_clear
  | releaseCompleteRequestHandler j res =>
    refine h.set j fun _ r hr => ?_
    cases hr
    exact fun _ => rfl
  | destroy j => exact h.set j fun _ r hr => by cases hr
  | @destroyAsyncResp j res hres =>
    refine ReadyAt.set (h.set j fun hj => (he hj).elim) j fun _ r hr => ?_
    cases hr

theorem readyAt_run {s s' : State} {events : List Event} {k : ℕ} (h : ReadyAt s k)
    (he : ∀ e ∈ events, ¬Ends k e) (hrun : run step s events = some s') : ReadyAt s' k := by
  induction events generalizing s with
  | nil =>
    obtain rfl := Option.some.inj hrun
    exact h
  | cons e events ih =>
    rw [List.forall_mem_cons] at he
    obtain ⟨t, ht, hrun⟩ := Option.bind_eq_some_iff.1 hrun
    exact ih (readyAt_step h he.1 (steps_of_step ht)) he.2 hrun

theorem ends_calls {s : State} {k h : ℕ} (hready : ReadyAt s k) (howns : Owns s k h) {e : Event}
    (he : Ends k e) : ∃ s', step s e = some s' ∧ s'.called = s.called ++ [h] := by
  obtain ⟨res, hres, hhandler⟩ := howns
  have hcalled : res.endResponse.2 = some h := by
    rw [res.endResponse_eq.2, (hready res hres).pending_eq, hhandler]
  cases e with
  | endResponse j =>
    obtain rfl : j = k := he
    refine ⟨s.endResponse j res, by rw [step, hres]; rfl, ?_⟩
    rw [State.endResponse, hcalled]
    rfl
  | destroyAsyncResp j =>
    obtain rfl : j = k := he
    refine ⟨(s.endResponse j res).set j none, by rw [step, hres]; rfl, ?_⟩
    rw [State.endResponse, hcalled]
    rfl
  | _ => cases he

theorem calledOnce {s : State} (h : Once s) : CalledOnce s where
  nodup := h.nodup
  next_end k handler res hres hcompleted hhandler events s' hevents hrun howns e he := by
    have hready : ReadyAt s k := by
      intro r hr hc
      rw [hres] at hr
      obtain rfl := Option.some.inj hr
      rw [hcompleted] at hc
      cases hc
    exact ends_calls (readyAt_run hready hevents hrun) howns he

/-- In a run that clears no completed response with a handler every handler is
called once at most. -/
theorem calledOnce_of_keepsCompleted {events : List Event}
    (h : Guarded step KeepsCompleted {} events) : Always step CalledOnce {} events := by
  have hstart : Once {} := sound_start
  have honce : Always step Once {} events :=
    always_of_guarded (fun _ _ _ hs hg hstep => once_step hs hg (steps_of_step hstep)) hstart h
  exact honce.mono fun _ => calledOnce

def sampleRun : List Event :=
  [.construct 0, .setCompleteRequestHandler 0 true, .clear 0, .moveConstruct 1 0,
    .destroyAsyncResp 1, .endResponse 0]

theorem calledOnce_sample : Always step CalledOnce {} sampleRun := by
  refine calledOnce_of_keepsCompleted ?_
  intro s hs
  obtain rfl := Option.some.inj hs
  refine ⟨trivial, fun s hs => ?_⟩
  obtain rfl := Option.some.inj hs
  refine ⟨trivial, fun s hs => ?_⟩
  obtain rfl := Option.some.inj hs
  refine ⟨fun res hres hcompleted => ?_, fun s _ => ⟨trivial, fun s _ => ⟨trivial, fun s _ =>
    ⟨trivial, trivial⟩⟩⟩⟩
  obtain rfl := Option.some.inj hres
  cases hcompleted

def clearedRun : List Event :=
  [.construct 0, .setCompleteRequestHandler 0 true, .endResponse 0, .clear 0, .endResponse 0]

theorem cleared_handler_called_twice :
    (run step {} clearedRun).map State.called = some [0, 0] ∧
    ¬ ∀ events, Always step CalledOnce {} events := by
  have hcalled : (run step {} clearedRun).map State.called = some [0, 0] := rfl
  refine ⟨hcalled, fun h => ?_⟩
  obtain ⟨s, hs, heq⟩ := Option.map_eq_some_iff.1 hcalled
  have hnodup := ((h clearedRun).last hs).nodup
  rw [heq] at hnodup
  revert hnodup
  decide

namespace Response
open HttpConnection

def ofConnection (res : HttpConnection.Response) : Response CompleteRequestHandler :=
  ⟨res.completed, res.completeRequestHandler⟩

theorem ofConnection_moveAssign (res r : HttpConnection.Response) :
    (ofConnection (res.moveAssign r).1, ofConnection (res.moveAssign r).2) =
      (ofConnection res).moveAssign (ofConnection r) := rfl

theorem ofConnection_setCompleteRequestHandler (res : HttpConnection.Response)
    (handler : Option CompleteRequestHandler) :
    ofConnection (res.setCompleteRequestHandler handler) =
      (ofConnection res).setCompleteRequestHandler handler := rfl

theorem ofConnection_clear (res : HttpConnection.Response) :
    ofConnection res.clear = (ofConnection res).clear := rfl

end Response

end CrowCore.CompletionHandlers
