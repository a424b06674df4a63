import CrowCore.GuardedRuns
import CrowCore.Subscriber

set_option autoImplicit false

/-!
# Events that stay in the buffer

A success does not reach `processResponse`, and no other completion calls
`sendNext`. An event that was buffered is never taken out again.
-/
namespace CrowCore.StrandedEvents
open GuardedRuns ClientSession Subscriber

/-- Nothing is pending: no operation of a session and no timer. -/
structure Quiescent (s : HttpSubscriber) : Prop where
  sessions_rest : ∀ i, (s.sessions i).outstanding = [] ∧ (s.sessions i).idleWaits = 0 ∧
    (s.sessions i).shutDowns = 0
  timers_rest : ∀ r, (s.retryRequests r).armed = false ∧ (s.retryRequests r).due = 0

/-- An event is only sent while the pool has a session for it. -/
def SessionFound (s : HttpSubscriber) : Event → Prop
  | .sendEvent => (s.pool.find? fun i => !(s.sessions i).inUse).isSome ∨ s.pool.length < s.poolSize
  | _ => True

@[simp] theorem eventBuffer_acquire (s : HttpSubscriber) (handler : ResponseHandler) :
    (s.acquire handler).1.eventBuffer = s.eventBuffer := by
  unfold HttpSubscriber.acquire
  split
  · rfl
  · split_ifs <;> rfl

theorem acquire_isSome_iff (s : HttpSubscriber) (handler : ResponseHandler) :
    (s.acquire handler).2.isSome ↔
      (s.pool.find? fun i => !(s.sessions i).inUse).isSome ∨ s.pool.length < s.poolSize := by
  unfold HttpSubscriber.acquire
  split
  · rename_i h
    simp [h]
  · rename_i h
    split_ifs with hlt <;> simp [h, hlt]

theorem acquire_none {s s' : HttpSubscriber} {handler : ResponseHandler}
    (h : s.acquire handler = (s', none)) : s' = s ∧ ¬SessionFound s .sendEvent := by
  have hnone := acquire_isSome_iff s handler
  rw [h] at hnone
  exact ⟨acquire_same h, fun hfound => by simpa using hnone.2 hfound⟩

@[simp] theorem eventBuffer_waitAndRetry (s : HttpSubscriber) (r : ℕ) :
    (s.waitAndRetry r).eventBuffer = s.eventBuffer := by
  unfold HttpSubscriber.waitAndRetry
  split_ifs <;> rfl

@[simp] theorem eventBuffer_fail (s : HttpSubscriber) (i : ℕ) :
    (s.fail i).eventBuffer = s.eventBuffer := by
  change (s.respond i .error).eventBuffer = s.eventBuffer
  unfold HttpSubscriber.respond
  split
  · rfl
  · simp only [HttpSubscriber.handleResponse, HttpSubscriber.retryIfNeeded]
    split_ifs
    · rfl
    · exact eventBuffer_waitAndRetry _ _
  · exact eventBuffer_waitAndRetry _ _

theorem eventBuffer_sendEvent (s : HttpSubscriber) (event : Request) :
    (s.sendEvent event).eventBuffer =
      if (s.acquire .handleResponse).2.isSome then s.eventBuffer
      else pushBack s.eventBuffer event := by
  have hbuffer := eventBuffer_acquire s .handleResponse
  unfold HttpSubscriber.sendEvent
  rcases h : s.acquire .handleResponse with ⟨s', _ | i⟩
  · rw [h] at hbuffer
    simp only [Option.isSome_none, Bool.false_eq_true, if_false]
    rw [hbuffer]
  · rw [h] at hbuffer
    exact hbuffer

theorem pushBack_ne_nil (buffer : List Request) (req : Request) : pushBack buffer req ≠ [] := by
  rw [← List.length_pos_iff, pushBack, List.length_drop, List.length_append, List.length_singleton]
  unfold eventBufferCapacity
  omega

/-- Only `sendEvent` touches the buffer, and only to put the event into it. -/
theorem eventBuffer_step {s s' : HttpSubscriber} {event : Event} (h : s.step event = some s') :
    s'.eventBuffer = [] ↔ s.eventBuffer = [] ∧ SessionFound s event := by
  have hsame : s'.eventBuffer = s.eventBuffer → SessionFound s event →
      (s'.eventBuffer = [] ↔ s.eventBuffer = [] ∧ SessionFound s event) := by
    intro heq hfound
    rw [heq]
    exact (and_iff_left hfound).symm
  cases steps_of_step h with
  | sendEvent =>
    have hfound := acquire_isSome_iff { s with nextEvent := s.nextEvent + 1 } .handleResponse
    rw [eventBuffer_sendEvent]
    by_cases hsome : ({ s with nextEvent := s.nextEvent + 1 }.acquire .handleResponse).2.isSome
    · rw [if_pos hsome]
      exact (and_iff_left (hfound.1 hsome)).symm
    · rw [if_neg hsome]
      exact iff_of_false (pushBack_ne_nil _ _) fun hc => hsome (hfound.2 hc.2)
  | succeeds keepAlive hop =>
    refine hsame ?_ trivial
    unfold HttpSubscriber.succeeds
    dsimp only
    split_ifs <;> rfl
  | fails hop => exact hsame (eventBuffer_fail _ _) trivial
  | idleWait error hwait =>
    refine hsame ?_ trivial
    unfold HttpSubscriber.idleWait
    dsimp only
    split_ifs
    · exact eventBuffer_fail _ _
    · rfl
    · rfl
  | shutDown hshut => exact hsame rfl trivial
  | timerExpires harmed => exact hsame rfl trivial
  | @timerHandler r hdue =>
    refine hsame ?_ trivial
    generalize hs : s.modifyRetry r (fun retry => { retry with due := retry.due - 1 }) = t
    have hbuffer : t.eventBuffer = s.eventBuffer := by rw [← hs]; rfl
    rw [← hbuffer, ← eventBuffer_acquire t (.handleRetryResponse r)]
    unfold HttpSubscriber.retryFunction
    rcases t.acquire (.handleRetryResponse r) with ⟨t', _ | i⟩ <;> rfl

theorem eventBuffer_run {s s' : HttpSubscriber} {events : List Event}
    (h : run HttpSubscriber.step s events = some s') :
    s'.eventBuffer = [] ↔ s.eventBuffer = [] ∧
      Guarded HttpSubscriber.step SessionFound s events := by
  induction events generalizing s with
  | nil =>
    obtain rfl := Option.some.inj h
    exact (and_iff_left trivial).symm
  | cons event events ih =>
    obtain ⟨t, ht, h⟩ := Option.bind_eq_some_iff.1 h
    rw [ih h, eventBuffer_step ht, and_assoc]
    refine and_congr_right fun _ => ⟨fun hg u hu => ?_, fun hg => hg t ht⟩
    obtain rfl := Option.some.inj (ht.symm.trans hu)
    exact hg

theorem eventBuffer_nil_iff (poolSize : ℕ) (retryPolicy : RetryPolicy) {events : List Event}
    {s : HttpSubscriber}
    (hrun : run HttpSubscriber.step (start poolSize retryPolicy) events = some s) :
    s.eventBuffer = [] ↔
      Guarded HttpSubscriber.step SessionFound (start poolSize retryPolicy) events := by
  rw [eventBuffer_run hrun]
  exact and_iff_right rfl

/-- In a reachable state with nothing pending the buffer is empty if and only if
every event of the run found a session. This is so in every reachable state. -/
theorem none_stranded_iff_session_found (poolSize : ℕ) (retryPolicy : RetryPolicy)
    {events : List Event} {s : HttpSubscriber}
    (hrun : run HttpSubscriber.step (start poolSize retryPolicy) events = some s)
    (_hquiet : Quiescent s) : s.eventBuffer = [] ↔
      Guarded HttpSubscriber.step SessionFound (start poolSize retryPolicy) events :=
  eventBuffer_nil_iff poolSize retryPolicy hrun

def exchange : List Event :=
  [.succeeds 0 .resolve false, .succeeds 0 .connect false, .succeeds 0 .handshake false,
    .succeeds 0 .write false, .succeeds 0 .read false, .shutDown 0]

theorem none_stranded_iff_session_found_sample : ∃ s,
    run HttpSubscriber.step (start 1 {}) (.sendEvent :: exchange) = some s ∧ Quiescent s ∧
      (s.eventBuffer = [] ↔
        Guarded HttpSubscriber.step SessionFound (start 1 {}) (.sendEvent :: exchange)) := by
  obtain ⟨s, hrun, hquiet⟩ : ∃ s,
      run HttpSubscriber.step (start 1 {}) (.sendEvent :: exchange) = some s ∧ Quiescent s := by
    refine ⟨_, rfl, ?_, fun r => ⟨rfl, rfl⟩⟩
    rintro (_ | i) <;> exact ⟨rfl, rfl, rfl⟩
  exact ⟨s, hrun, hquiet, none_stranded_iff_session_found 1 {} hrun hquiet⟩

/-- Two events and one session: the second event waits for ever. -/
theorem event_stranded : ∃ s,
    run HttpSubscriber.step (start 1 {}) (.sendEvent :: .sendEvent :: exchange) = some s ∧
      Quiescent s ∧ s.eventBuffer = [1] := by
  refine ⟨_, rfl, ⟨?_, fun r => ⟨rfl, rfl⟩⟩, rfl⟩
  rintro (_ | i) <;> exact ⟨rfl, rfl, rfl⟩

end CrowCore.StrandedEvents
