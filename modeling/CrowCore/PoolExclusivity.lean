import CrowCore.SessionStates
import CrowCore.Subscriber

set_option autoImplicit false

/-!
# Sessions of the pool

A session is in use from its `run` on, and a failed one leaves the pool. So the
pool never hands out a session whose exchange is outstanding.
-/
namespace CrowCore.PoolExclusivity
open GuardedRuns ClientSession SessionStates Subscriber

/-- What `acquire` returns, and the size of the pool. -/
structure Exclusive (s : HttpSubscriber) : Prop where
  acquired_rest : ∀ handler s' i, s.acquire handler = (s', some i) →
    (s'.sessions i).outstanding = []
  pool_length : s.pool.length ≤ s.poolSize
  pool_nodup : s.pool.Nodup

/-- A step keeps the request of an exchange that goes on, and runs an event only
on a session with nothing outstanding. -/
structure KeepsRequests (s s' : HttpSubscriber) : Prop where
  in_flight : ∀ i, (s.sessions i).outstanding ≠ [] → (s'.sessions i).outstanding ≠ [] →
    (s'.sessions i).req = (s.sessions i).req
  starts : ∀ e, s'.log = s.log ++ [.run e] → ∃ i ∈ s'.pool, (s.sessions i).outstanding = [] ∧
    (s'.sessions i).outstanding ≠ [] ∧ (s'.sessions i).req = some e

def NoIdleError : Event → Prop
  | .idleWait _ error => error = false
  | _ => True

structure Pooled (s : HttpSubscriber) : Prop where
  engaged : ∀ i, Engaged (s.sessions i)
  uncreated : ∀ i, s.created ≤ i → (s.sessions i).outstanding = []
  handled : ∀ i ∈ s.pool, (s.sessions i).responseHandler.isSome
  pool_lt : ∀ i ∈ s.pool, i < s.created
  pool_length : s.pool.length ≤ s.poolSize
  pool_nodup : s.pool.Nodup

theorem pooled_start (poolSize : ℕ) (retryPolicy : RetryPolicy) :
    Pooled (start poolSize retryPolicy) :=
  ⟨fun _ => engaged_new .asyncSsl none, fun _ _ => rfl, by simp [start], by simp [start],
    Nat.zero_le _, List.nodup_nil⟩

theorem Pooled.acquire {s s' : HttpSubscriber} (h : Pooled s) {handler : ResponseHandler} {i : ℕ}
    (hacq : s.acquire handler = (s', some i)) : Pooled s' ∧ i ∈ s'.pool ∧
      (s'.sessions i).inUse = false ∧ (s.sessions i).outstanding = [] ∧ s'.log = s.log ∧
      ∀ j, j ≠ i → s'.sessions j = s.sessions j := by
  rcases acquire_some hacq with ⟨hi, hfree, rfl⟩ | ⟨rfl, rfl⟩
  · exact ⟨h, hi, hfree, (h.engaged i).atRest hfree, rfl, fun _ _ => rfl⟩
  · have hnew : s.created ∉ s.pool := fun hi => lt_irrefl _ (h.pool_lt _ hi)
    have hlen : s.pool.length < s.poolSize := by
      unfold HttpSubscriber.acquire at hacq
      split at hacq
      · have hpool := congrArg (fun u => u.1.pool.length) hacq
        simp at hpool
      · split_ifs at hacq with hlt
        · exact hlt
        · cases (Prod.mk.inj hacq).2
    refine ⟨⟨?_, ?_, ?_, ?_, ?_, ?_⟩, by simp, by simp [HttpSession.inUse],
      h.uncreated _ (le_refl _), rfl, fun j hj => Function.update_of_ne hj _ _⟩
    · intro j
      by_cases hj : j = s.created
      · subst hj
        simpa using engaged_new .asyncSsl (some handler)
      · simpa [hj] using h.engaged j
    · intro j hj
      have hne : j ≠ s.created := Nat.ne_of_gt hj
      simpa [hne] using h.uncreated j (Nat.le_of_succ_le hj)
    · intro j hj
      by_cases hne : j = s.created
      · simp [hne]
      · simpa [hne] using h.handled j (by simpa [hne] using hj)
    · intro j hj
      rcases List.mem_append.1 hj with hj | hj
      · exact Nat.lt_succ_of_lt (h.pool_lt j hj)
      · rw [List.mem_singleton.1 hj]
        exact Nat.lt_succ_self _
    · simpa using hlen
    · exact List.nodup_append.2 ⟨h.pool_nodup, List.nodup_singleton _, by
        simpa using fun a ha (heq : a = s.created) => hnew (heq ▸ ha)⟩

theorem Pooled.exclusive {s : HttpSubscriber} (h : Pooled s) : Exclusive s := by
  refine ⟨fun handler s' i hacq => ?_, h.pool_length, h.pool_nodup⟩
  obtain ⟨h', -, hfree, -⟩ := h.acquire hacq
  exact (h'.engaged i).atRest hfree

theorem Pooled.modifySession {s : HttpSubscriber} (h : Pooled s) {i : ℕ} {f : Session → Session}
    (hengaged : Engaged (f (s.sessions i)))
    (hout : (s.sessions i).outstanding = [] → i ∉ s.pool → (f (s.sessions i)).outstanding = [])
    (hhandler : (f (s.sessions i)).responseHandler = (s.sessions i).responseHandler) :
    Pooled (s.modifySession i f) := by
  refine { h with engaged := fun j => ?_, uncreated := fun j hj => ?_, handled := fun j hj => ?_ }
  · by_cases hji : j = i
    · subst hji
      simpa [HttpSubscriber.modifySession] using hengaged
    · simpa [HttpSubscriber.modifySession, hji] using h.engaged j
  · by_cases hji : j = i
    · subst hji
      have hnot : j ∉ s.pool := fun hi => absurd (h.pool_lt j hi) (not_lt.2 hj)
      simpa [HttpSubscriber.modifySession] using hout (h.uncreated j hj) hnot
    · simpa [HttpSubscriber.modifySession, hji] using h.uncreated j hj
  · by_cases hji : j = i
    · subst hji
      simpa [HttpSubscriber.modifySession, hhandler] using h.handled j hj
    · simpa [HttpSubscriber.modifySession, hji] using h.handled j hj

@[simp] theorem run_responseHandler {R H : Type} (session : HttpSession R H) (req : Option R) :
    (session.run req).responseHandler = session.responseHandler := by
  cases hstate : session.connectionState <;>
    simp [HttpSession.run, HttpSession.execute, HttpSession.write, HttpSession.start, hstate]

@[simp] theorem shutDown_responseHandler {R H : Type} (session : HttpSession R H) :
    session.shutDown.responseHandler = session.responseHandler := by
  unfold HttpSession.shutDown
  split <;> rfl

@[simp] theorem complete_responseHandler {R H : Type} (session : HttpSession R H) (op : Operation)
    (keepAlive : Bool) :
    (session.complete op keepAlive).responseHandler = session.responseHandler := by
  cases op <;> cases hstream : session.stream <;> cases keepAlive <;>
    simp [HttpSession.complete, HttpSession.on_connect, HttpSession.on_write, HttpSession.on_read,
      HttpSession.write, HttpSession.read, HttpSession.start, HttpSession.shutDown,
      HttpSession.monitorForError, hstream]

theorem Pooled.runSession {s : HttpSubscriber} (h : Pooled s) {i : ℕ} (hi : i ∈ s.pool)
    (hfree : (s.sessions i).inUse = false) (req : Option Request) :
    Pooled (s.runSession i req) ∧ ((s.runSession i req).sessions i).outstanding ≠ [] ∧
      ((s.runSession i req).sessions i).req = req := by
  have hrest := (h.engaged i).atRest hfree
  obtain ⟨op, state, heq⟩ := run_starts hfree req
  have hmod : Pooled (s.modifySession i (·.run req)) :=
    h.modifySession (engaged_run (h.engaged i) hrest req) (fun _ hnot => (hnot hi).elim)
      (run_responseHandler _ req)
  refine ⟨{ hmod with }, ?_, ?_⟩
  · simp [HttpSubscriber.runSession, HttpSubscriber.modifySession, heq, HttpSession.start]
  · simp [HttpSubscriber.runSession, HttpSubscriber.modifySession, heq, HttpSession.start]

structure Reported (s s' : HttpSubscriber) (i : ℕ) : Prop where
  others : ∀ j, j ≠ i → s'.sessions j = s.sessions j
  outstanding_eq : (s'.sessions i).outstanding = (s.sessions i).outstanding
  inUse_eq : (s'.sessions i).inUse = (s.sessions i).inUse
  handler_eq : (s'.sessions i).responseHandler = (s.sessions i).responseHandler
  pool_eq : s'.pool = if (s.sessions i).responseHandler.isSome then s.pool.erase i else s.pool
  poolSize_eq : s'.poolSize = s.poolSize
  created_eq : s'.created = s.created
  log_eq : s'.log = s.log

theorem reported_waitAndRetry {s s' : HttpSubscriber} {i : ℕ} (h : Reported s s' i) (r : ℕ) :
    Reported s (s'.waitAndRetry r) i := by
  unfold HttpSubscriber.waitAndRetry
  split_ifs
  · exact { h with }
  · exact h

theorem reported_respond (s : HttpSubscriber) (i : ℕ) : Reported s (s.respond i .error) i := by
  unfold HttpSubscriber.respond
  split
  · rename_i hh
    exact ⟨fun _ _ => rfl, rfl, rfl, rfl, by simp [hh], rfl, rfl, rfl⟩
  · rename_i hh
    have hreleased : Reported s (s.release i) i :=
      ⟨fun _ _ => rfl, rfl, rfl, rfl, by simp [hh, HttpSubscriber.release], rfl, rfl, rfl⟩
    simp only [HttpSubscriber.handleResponse, HttpSubscriber.retryIfNeeded]
    split_ifs
    · exact hreleased
    · refine reported_waitAndRetry ?_ _
      refine { hreleased with
        others := fun j hj => ?_, outstanding_eq := ?_, inUse_eq := ?_, handler_eq := ?_ }
      · simp [HttpSubscriber.modifySession, HttpSubscriber.release, hj]
      all_goals simp [HttpSubscriber.modifySession, HttpSubscriber.release,
        HttpSession.takeRequest, HttpSession.inUse]
  · rename_i r hh
    refine reported_waitAndRetry ?_ r
    refine ⟨fun j hj => ?_, ?_, ?_, ?_, by simp [hh, HttpSubscriber.release,
      HttpSubscriber.modifySession, HttpSubscriber.modifyRetry], rfl, rfl, rfl⟩
    · simp [HttpSubscriber.modifySession, HttpSubscriber.modifyRetry, HttpSubscriber.release, hj]
    all_goals simp [HttpSubscriber.modifySession, HttpSubscriber.modifyRetry,
      HttpSubscriber.release, HttpSession.takeRequest, HttpSession.inUse]

theorem reported_fail (s : HttpSubscriber) (i : ℕ) : Reported s (s.fail i) i := by
  have h := reported_respond s i
  refine { h with
    others := fun j hj => ?_, outstanding_eq := ?_, inUse_eq := ?_, handler_eq := ?_ }
  · rw [← h.others j hj]
    exact Function.update_of_ne hj _ _
  · rw [← h.outstanding_eq]
    simp [HttpSubscriber.fail, HttpSubscriber.modifySession]
  · rw [← h.inUse_eq]
    simp [HttpSubscriber.fail, HttpSubscriber.modifySession]
  · rw [← h.handler_eq]
    simp [HttpSubscriber.fail, HttpSubscriber.modifySession]

theorem Reported.pool_sublist {s s' : HttpSubscriber} {i : ℕ} (h : Reported s s' i) :
    s'.pool.Sublist s.pool := by
  rw [h.pool_eq]
  split_ifs
  · exact List.erase_sublist
  · exact List.Sublist.refl _

theorem Reported.pooled {s s' : HttpSubscriber} {i : ℕ} (hr : Reported s s' i) (h : Pooled s) :
    Pooled s' := by
  have hengaged : Engaged (s'.sessions i) := by
    refine ⟨?_, fun hne => ?_⟩
    · rw [hr.outstanding_eq]
      exact (h.engaged i).at_most_one
    · rw [hr.inUse_eq]
      rw [hr.outstanding_eq] at hne
      exact (h.engaged i).inUse hne
  refine ⟨fun j => ?_, fun j hj => ?_, fun j hj => ?_, fun j hj => ?_, ?_, ?_⟩
  · by_cases hji : j = i
    · exact hji ▸ hengaged
    · exact hr.others j hji ▸ h.engaged j
  · rw [hr.created_eq] at hj
    by_cases hji : j = i
    · subst hji
      rw [hr.outstanding_eq]
      exact h.uncreated j hj
    · rw [hr.others j hji]
      exact h.uncreated j hj
  · by_cases hji : j = i
    · subst hji
      rw [hr.handler_eq]
      exact h.handled j (hr.pool_sublist.subset hj)
    · rw [hr.others j hji]
      exact h.handled j (hr.pool_sublist.subset hj)
  · rw [hr.created_eq]
    exact h.pool_lt j (hr.pool_sublist.subset hj)
  · rw [hr.poolSize_eq]
    exact hr.pool_sublist.length_le.trans h.pool_length
  · exact hr.pool_sublist.nodup h.pool_nodup

theorem pooled_sendEvent {s : HttpSubscriber} (h : Pooled s) (event : Request) :
    Pooled (s.sendEvent event) := by
  rcases hacq : s.acquire .handleResponse with ⟨u, _ | i⟩
  · rw [sendEvent_none hacq]
    obtain rfl := acquire_same hacq
    exact { h with }
  · obtain ⟨hu, hi, hfree, -⟩ := h.acquire hacq
    rw [sendEvent_some hacq]
    exact (hu.runSession hi hfree _).1

theorem pooled_retryFunction {s : HttpSubscriber} (h : Pooled s) (r : ℕ) :
    Pooled (s.retryFunction r) := by
  unfold HttpSubscriber.retryFunction
  rcases hacq : s.acquire (.handleRetryResponse r) with ⟨u, _ | i⟩
  · obtain rfl := acquire_same hacq
    exact { h with }
  · obtain ⟨hu, hi, hfree, -⟩ := h.acquire hacq
    have hmod : Pooled (u.modifyRetry r fun retry => { retry with req := none }) := { hu with }
    exact (hmod.runSession hi hfree _).1

theorem pooled_complete {s : HttpSubscriber} (h : Pooled s) {i : ℕ} {op : Operation}
    (hop : op ∈ (s.sessions i).outstanding) (keepAlive : Bool) :
    Pooled (s.modifySession i (·.complete op keepAlive)) :=
  h.modifySession (engaged_complete (h.engaged i) hop keepAlive)
    (fun hnil => (List.ne_nil_of_mem hop hnil).elim) (complete_responseHandler _ op keepAlive)

theorem pooled_failing {s : HttpSubscriber} (h : Pooled s) {i : ℕ} {op : Operation}
    (hop : op ∈ (s.sessions i).outstanding) :
    Pooled { s.modifySession i fun session =>
      { session with outstanding := session.outstanding.erase op } with
        log := s.log ++ ((s.sessions i).req.map LogEntry.failedRun).toList } := by
  have herased : Pooled (s.modifySession i fun session =>
      { session with outstanding := session.outstanding.erase op }) :=
    h.modifySession (engaged_erase (h.engaged i) op)
      (fun hnil => (List.ne_nil_of_mem hop hnil).elim) rfl
  exact { herased with }

theorem pooled_waited {s : HttpSubscriber} (h : Pooled s) (i : ℕ) :
    Pooled (s.modifySession i fun session => { session with idleWaits := session.idleWaits - 1 }) :=
  h.modifySession { h.engaged i with } (fun hnil _ => hnil) rfl

theorem pooled_step {s s' : HttpSubscriber} {event : Event} (h : Pooled s)
    (hstep : s.step event = some s') : Pooled s' := by
  cases steps_of_step hstep with
  | sendEvent =>
    have hnext : Pooled { s with nextEvent := s.nextEvent + 1 } := { h with }
    exact pooled_sendEvent hnext s.nextEvent
  | @succeeds i op keepAlive hop =>
    have hdone := pooled_complete h hop keepAlive
    unfold HttpSubscriber.succeeds
    dsimp only
    split_ifs
    · exact { hdone with }
    · exact hdone
  | @fails i op hop => exact (reported_fail _ i).pooled (pooled_failing h hop)
  | @idleWait i error hwait =>
    have hwaited := pooled_waited h i
    unfold HttpSubscriber.idleWait
    dsimp only
    split_ifs
    · exact (reported_fail _ i).pooled hwaited
    · exact { hwaited with }
    · exact hwaited
  | @shutDown i hshut => exact h.modifySession { h.engaged i with } (fun hnil _ => hnil) rfl
  | timerExpires harmed => exact { h with }
  | @timerHandler r hdue =>
    have hrun : Pooled (s.modifyRetry r fun retry => { retry with due := retry.due - 1 }) :=
      { h with }
    exact pooled_retryFunction hrun r

theorem always_pooled (poolSize : ℕ) (retryPolicy : RetryPolicy) (events : List Event) :
    Always HttpSubscriber.step Pooled (start poolSize retryPolicy) events :=
  always_of_step (fun _ _ _ => pooled_step) (pooled_start poolSize retryPolicy) events

theorem keepsRequests_of_same {s s' : HttpSubscriber} (hlog : s'.log = s.log)
    (hreq : ∀ i, (s'.sessions i).req = (s.sessions i).req) : KeepsRequests s s' := by
  refine ⟨fun i _ _ => hreq i, fun e he => ?_⟩
  rw [hlog, List.self_eq_append_right] at he
  cases he

theorem keepsRequests_run {s u v : HttpSubscriber} (h : Pooled s) {handler : ResponseHandler}
    {i : ℕ} (hacq : s.acquire handler = (u, some i)) (hsessions : v.sessions = u.sessions)
    (hpool : v.pool = u.pool) (hlog : v.log = u.log) (req : Option Request) :
    KeepsRequests s (v.runSession i req) := by
  obtain ⟨hu, hi, hfree, hrest, hlog', hothers⟩ := h.acquire hacq
  obtain ⟨op, state, hrun⟩ := run_starts hfree req
  constructor
  · intro j hj _
    have hji : j ≠ i := fun heq => hj (heq ▸ hrest)
    simp [HttpSubscriber.runSession, HttpSubscriber.modifySession, hji, hsessions, hothers j hji]
  · intro e he
    have hlog'' : (req.map LogEntry.run).toList = [LogEntry.run e] := by
      simpa [HttpSubscriber.runSession, HttpSubscriber.modifySession, hlog, hlog'] using he
    obtain rfl : req = some e := by
      cases req with
      | none => cases hlog''
      | some x => simpa using hlog''
    refine ⟨i, hpool ▸ hi, hrest, ?_, ?_⟩
    · simp [HttpSubscriber.runSession, HttpSubscriber.modifySession, hsessions, hrun,
        HttpSession.start]
    · simp [HttpSubscriber.runSession, HttpSubscriber.modifySession, hsessions, hrun,
        HttpSession.start]

theorem keepsRequests_step {s s' : HttpSubscriber} {event : Event} (h : Pooled s)
    (hguard : NoIdleError event) (hstep : s.step event = some s') : KeepsRequests s s' := by
  cases steps_of_step hstep with
  | sendEvent =>
    have hnext : Pooled { s with nextEvent := s.nextEvent + 1 } := { h with }
    rcases hacq : { s with nextEvent := s.nextEvent + 1 }.acquire .handleResponse with ⟨u, _ | i⟩
    · rw [sendEvent_none hacq]
      obtain rfl := acquire_same hacq
      exact keepsRequests_of_same rfl fun _ => rfl
    · rw [sendEvent_some hacq]
      have hkeeps := keepsRequests_run hnext hacq rfl rfl rfl (some s.nextEvent)
      exact ⟨hkeeps.in_flight, hkeeps.starts⟩
  | @succeeds i op keepAlive hop =>
    constructor
    · intro j _ _
      have hsessions : (s.succeeds i op keepAlive).sessions =
          (s.modifySession i (·.complete op keepAlive)).sessions := by
        unfold HttpSubscriber.succeeds
        dsimp only
        split_ifs <;> rfl
      rw [hsessions]
      by_cases hji : j = i
      · simp [HttpSubscriber.modifySession, hji]
      · simp [HttpSubscriber.modifySession, hji]
    · intro e he
      unfold HttpSubscriber.succeeds at he
      dsimp only at he
      split_ifs at he
      · rw [List.append_cancel_left_eq] at he
        cases hreq : (s.sessions i).req <;> simp [hreq] at he
      · rw [HttpSubscriber.modifySession, List.self_eq_append_right] at he
        cases he
  | @fails i op hop =>
    have hr := reported_fail { s.modifySession i fun session =>
      { session with outstanding := session.outstanding.erase op } with
        log := s.log ++ ((s.sessions i).req.map LogEntry.failedRun).toList } i
    constructor
    · intro j _ hj
      by_cases hji : j = i
      · subst hji
        have hlen := List.length_erase_of_mem hop
        have hle := (h.engaged j).at_most_one
        have hout := hr.outstanding_eq
        simp only [HttpSubscriber.modifySession, Function.update_self] at hout
        exact (hj (hout.trans (List.length_eq_zero_iff.1 (by omega)))).elim
      · rw [HttpSubscriber.fails, hr.others j hji]
        simp [HttpSubscriber.modifySession, hji]
    · intro e he
      rw [HttpSubscriber.fails, hr.log_eq, List.append_cancel_left_eq] at he
      cases hreq : (s.sessions i).req <;> simp [hreq] at he
  | @idleWait i error hwait =>
    obtain rfl : error = false := hguard
    refine keepsRequests_of_same rfl fun j => ?_
    by_cases hji : j = i <;> simp [HttpSubscriber.idleWait, HttpSubscriber.modifySession, hji]
  | @shutDown i hshut =>
    refine keepsRequests_of_same rfl fun j => ?_
    by_cases hji : j = i <;> simp [HttpSubscriber.modifySession, hji]
  | timerExpires harmed => exact keepsRequests_of_same rfl fun _ => rfl
  | @timerHandler r hdue =>
    have hrun : Pooled (s.modifyRetry r fun retry => { retry with due := retry.due - 1 }) :=
      { h with }
    unfold HttpSubscriber.retryFunction
    rcases hacq : (s.modifyRetry r fun retry => { retry with due := retry.due - 1 }).acquire
      (.handleRetryResponse r) with ⟨u, _ | i⟩
    · obtain rfl := acquire_same hacq
      exact keepsRequests_of_same rfl fun _ => rfl
    · have hkeeps :=
        keepsRequests_run (v := u.modifyRetry r fun retry => { retry with req := none })
        hrun hacq rfl rfl rfl (u.retryRequests r).req
      exact ⟨hkeeps.in_flight, hkeeps.starts⟩

/-- In every run without an error of an idle wait, the pool is bounded and only
hands out sessions with nothing outstanding, and no request is replaced while it
is in flight. -/
theorem pool_exclusive (poolSize : ℕ) (retryPolicy : RetryPolicy) {events : List Event}
    (h : Guarded HttpSubscriber.step (fun _ => NoIdleError) (start poolSize retryPolicy) events) :
    Always HttpSubscriber.step Exclusive (start poolSize retryPolicy) events ∧
      Guarded HttpSubscriber.step
        (fun s event => ∀ s', s.step event = some s' → KeepsRequests s s')
        (start poolSize retryPolicy) events := by
  have hpooled := always_pooled poolSize retryPolicy events
  refine ⟨hpooled.mono fun _ => Pooled.exclusive, h.imp (fun s event _ hs hguard _ s' hstep => ?_)
    hpooled⟩
  exact keepsRequests_step hs hguard hstep

def sampleEvents : List Event :=
  [.sendEvent, .sendEvent, .succeeds 0 .resolve true, .fails 1 .resolve, .timerExpires 0,
    .sendEvent, .timerHandler 0]

theorem pool_exclusive_sample : (run HttpSubscriber.step (start 3 {}) sampleEvents).isSome ∧
    Always HttpSubscriber.step Exclusive (start 3 {}) sampleEvents :=
  ⟨rfl, (pool_exclusive 3 {} (guarded_of_forall (by simp [sampleEvents, NoIdleError]))).1⟩

end CrowCore.PoolExclusivity
