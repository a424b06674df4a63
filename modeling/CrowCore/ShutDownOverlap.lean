import CrowCore.PoolExclusivity

set_option autoImplicit false

/-!
# Shutdowns and newer connections

A response without keep-alive starts the shutdown of the TLS stream and makes the
session free at once. A run may then open a connection on the stream that the end
of the shutdown closes.
-/
namespace CrowCore.ShutDownOverlap
open GuardedRuns ClientSession SessionStates Subscriber PoolExclusivity

/-- While a shutdown is outstanding the session is as `on_read` left it, so that
`on_shutdown` closes no newer connection. -/
def ClosesOwn (s : HttpSubscriber) : Prop :=
  ∀ i ∈ s.pool, 0 < (s.sessions i).shutDowns →
    (s.sessions i).connectionState = .monostate ∧ (s.sessions i).outstanding = []

/-- The first session of the pool that is free has no shutdown outstanding. -/
def ShutDownDone (s : HttpSubscriber) : Event → Prop
  | .sendEvent | .timerHandler _ =>
    ∀ i, s.pool.find? (fun i => !(s.sessions i).inUse) = some i → (s.sessions i).shutDowns = 0
  | _ => True

theorem acquire_find {s s' : HttpSubscriber} {handler : ResponseHandler} {found : Option ℕ}
    (h : s.acquire handler = (s', found)) :
    (∃ i, s.pool.find? (fun i => !(s.sessions i).inUse) = some i ∧ s' = s ∧ found = some i) ∨
      s.pool.find? (fun i => !(s.sessions i).inUse) = none ∧
        (s' = s ∧ found = none ∨ found = some s.created ∧ s' = { s with
          sessions := Function.update s.sessions s.created
            { stream := .asyncSsl, responseHandler := some handler }
          created := s.created + 1
          pool := s.pool ++ [s.created] }) := by
  unfold HttpSubscriber.acquire at h
  split at h
  · rename_i i hi
    obtain ⟨rfl, rfl⟩ := Prod.mk.inj h
    exact .inl ⟨i, hi, rfl, rfl⟩
  · rename_i hnone
    refine .inr ⟨hnone, ?_⟩
    split_ifs at h
    · obtain ⟨rfl, rfl⟩ := Prod.mk.inj h
      exact .inr ⟨rfl, rfl⟩
    · obtain ⟨rfl, rfl⟩ := Prod.mk.inj h
      exact .inl ⟨rfl, rfl⟩

@[simp] theorem run_shutDowns {R H : Type} (session : HttpSession R H) (req : Option R) :
    (session.run req).shutDowns = session.shutDowns := by
  cases hstate : session.connectionState <;>
    simp [HttpSession.run, HttpSession.execute, HttpSession.write, HttpSession.start, hstate]

theorem run_connectionState {R H : Type} {session : HttpSession R H}
    (hfree : session.inUse = false) (req : Option R) :
    (session.run req).connectionState = .inUse := by
  obtain ⟨op, state, heq⟩ := run_starts hfree req
  rw [heq]
  rfl

theorem complete_shutDowns {R H : Type} {session : HttpSession R H} {op : Operation}
    {keepAlive : Bool} (hzero : session.shutDowns = 0)
    (hpos : 0 < (session.complete op keepAlive).shutDowns) :
    op = .read ∧ (session.complete op keepAlive).connectionState = .monostate := by
  cases op <;> cases hstream : session.stream <;> cases keepAlive <;>
    simp_all [HttpSession.complete, HttpSession.on_connect, HttpSession.on_write,
      HttpSession.on_read, HttpSession.write, HttpSession.read, HttpSession.start,
      HttpSession.shutDown, HttpSession.monitorForError]

theorem ClosesOwn.modifySession {s : HttpSubscriber} (h : ClosesOwn s) {i : ℕ}
    {f : Session → Session} (hf : i ∈ s.pool → 0 < (f (s.sessions i)).shutDowns →
      (f (s.sessions i)).connectionState = .monostate ∧ (f (s.sessions i)).outstanding = []) :
    ClosesOwn (s.modifySession i f) := by
  intro j hj
  by_cases hji : j = i
  · subst hji
    simpa only [modifySession_self] using hf hj
  · simpa only [modifySession_other s f hji] using h j hj

theorem closesOwn_runSession_iff {s u v : HttpSubscriber} (hpooled : Pooled s) (h : ClosesOwn s)
    {handler : ResponseHandler} {i : ℕ} (hacq : s.acquire handler = (u, some i))
    (hsessions : v.sessions = u.sessions) (hpool : v.pool = u.pool) (req : Option Request) :
    ClosesOwn (v.runSession i req) ↔ ∀ j,
      s.pool.find? (fun j => !(s.sessions j).inUse) = some j → (s.sessions j).shutDowns = 0 := by
  obtain ⟨-, hi, hfree, -, -, hothers⟩ := hpooled.acquire hacq
  have hself : (v.runSession i req).sessions i = (u.sessions i).run req := by
    rw [runSession_self, hsessions]
  have hother : ∀ j, j ≠ i → (v.runSession i req).sessions j = s.sessions j := by
    intro j hji
    rw [runSession_other v req hji, hsessions, hothers j hji]
  have hkeeps : ClosesOwn (v.runSession i req) ↔ (u.sessions i).shutDowns = 0 := by
    constructor
    · intro hc
      by_contra hne
      have hstate := hc i (show i ∈ v.pool from hpool ▸ hi)
      rw [hself, run_shutDowns, run_connectionState hfree] at hstate
      cases (hstate (Nat.pos_of_ne_zero hne)).1
    · intro hzero j hj hpos
      by_cases hji : j = i
      · rw [hji, hself, run_shutDowns, hzero] at hpos
        exact (lt_irrefl 0 hpos).elim
      · rw [hother j hji] at hpos ⊢
        refine h j ?_ hpos
        have hj' : j ∈ u.pool := hpool ▸ hj
        rcases acquire_some hacq with ⟨-, -, rfl⟩ | ⟨rfl, rfl⟩
        · exact hj'
        · simpa [hji] using hj'
  rw [hkeeps]
  rcases acquire_find hacq with ⟨j, hfind, rfl, hji⟩ | ⟨hnone, ⟨-, hfound⟩ | ⟨hfound, rfl⟩⟩
  · obtain rfl := Option.some.inj hji
    simp [hfind]
  · cases hfound
  · obtain rfl := Option.some.inj hfound
    simp [hnone]

theorem closesOwn_reported {s s' : HttpSubscriber} {i : ℕ} (hr : Reported s s' i) (h : Pooled s)
    (hothers : ∀ j ∈ s.pool, j ≠ i → 0 < (s.sessions j).shutDowns →
      (s.sessions j).connectionState = .monostate ∧ (s.sessions j).outstanding = []) :
    ClosesOwn s' := by
  intro j hj
  have hji : j ≠ i := by
    rintro rfl
    have hleft := hr.pool_eq
    rw [if_pos (h.handled j (hr.pool_sublist.subset hj))] at hleft
    rw [hleft] at hj
    exact h.pool_nodup.not_mem_erase hj
  rw [hr.others j hji]
  exact hothers j (hr.pool_sublist.subset hj) hji

theorem closesOwn_step_iff {s s' : HttpSubscriber} {event : Event} (hpooled : Pooled s)
    (h : ClosesOwn s) (hstep : s.step event = some s') : ClosesOwn s' ↔ ShutDownDone s event := by
  cases steps_of_step hstep with
  | sendEvent =>
    have hnext : Pooled { s with nextEvent := s.nextEvent + 1 } := { hpooled with }
    rcases hacq : { s with nextEvent := s.nextEvent + 1 }.acquire .handleResponse with ⟨u, _ | i⟩
    · rw [sendEvent_none hacq]
      rcases acquire_find hacq with ⟨i, -, -, hfound⟩ | ⟨hnone, -⟩
      · cases hfound
      · obtain rfl := acquire_same hacq
        refine iff_of_true h fun i hi => ?_
        rw [hnone] at hi
        cases hi
    · rw [sendEvent_some hacq]
      exact closesOwn_runSession_iff hnext h hacq rfl rfl (some s.nextEvent)
  | @succeeds i op keepAlive hop =>
    have hbusy := (hpooled.engaged i).inUse (List.ne_nil_of_mem hop)
    have hdone : ClosesOwn (s.modifySession i (·.complete op keepAlive)) := by
      refine h.modifySession fun hi hpos => ?_
      have hzero : (s.sessions i).shutDowns = 0 := by
        by_contra hne
        rw [HttpSession.inUse, (h i hi (Nat.pos_of_ne_zero hne)).1] at hbusy
        cases hbusy
      obtain ⟨hread, hstate⟩ := complete_shutDowns hzero hpos
      refine ⟨hstate, ?_⟩
      have htruthful := (hpooled.engaged i).truthful (List.ne_nil_of_mem hop)
      exact (complete_spec htruthful hop keepAlive).2.2 hread
    refine iff_of_true ?_ trivial
    unfold HttpSubscriber.succeeds
    dsimp only
    split_ifs <;> exact hdone
  | @fails i op hop =>
    refine iff_of_true (closesOwn_reported (reported_fail _ i) (pooled_failing hpooled hop) ?_)
      trivial
    intro j hj hji
    simpa only [modifySession_other _ _ hji] using h j hj
  | @idleWait i error hwait =>
    have hwaited : ClosesOwn (s.modifySession i fun session =>
        { session with idleWaits := session.idleWaits - 1 }) := h.modifySession (h i)
    refine iff_of_true ?_ trivial
    unfold HttpSubscriber.idleWait
    dsimp only
    split_ifs
    · exact closesOwn_reported (reported_fail _ i) (pooled_waited hpooled i) fun j hj _ =>
        hwaited j hj
    · exact hwaited
    · exact hwaited
  | @shutDown i hshut =>
    exact iff_of_true (h.modifySession fun hi hpos => h i hi hshut) trivial
  | timerExpires harmed => exact iff_of_true h trivial
  | @timerHandler r hdue =>
    have hrun : Pooled (s.modifyRetry r fun retry => { retry with due := retry.due - 1 }) :=
      { hpooled with }
    unfold HttpSubscriber.retryFunction
    rcases hacq : (s.modifyRetry r fun retry => { retry with due := retry.due - 1 }).acquire
      (.handleRetryResponse r) with ⟨u, _ | i⟩
    · rcases acquire_find hacq with ⟨i, -, -, hfound⟩ | ⟨hnone, -⟩
      · cases hfound
      · obtain rfl := acquire_same hacq
        refine iff_of_true h fun i hi => ?_
        have hnone' : s.pool.find? (fun i => !(s.sessions i).inUse) = none := hnone
        rw [hnone'] at hi
        cases hi
    · exact closesOwn_runSession_iff (v := u.modifyRetry r fun retry => { retry with req := none })
        hrun h hacq rfl rfl (u.retryRequests r).req

/-- No shutdown of a run hits a newer connection if and only if every run takes a
session without an outstanding shutdown. -/
theorem closes_own_iff_shutDown_done (poolSize : ℕ) (retryPolicy : RetryPolicy)
    (events : List Event) :
    Always HttpSubscriber.step ClosesOwn (start poolSize retryPolicy) events ↔
      Guarded HttpSubscriber.step ShutDownDone (start poolSize retryPolicy) events := by
  rw [← always_iff_guarded (I := fun s => Pooled s ∧ ClosesOwn s) ?_
    ⟨pooled_start poolSize retryPolicy, fun i hi => by simp [start] at hi⟩]
  · have hpooled := always_pooled poolSize retryPolicy events
    exact ⟨fun h => hpooled.and h, fun h => h.mono fun _ hs => hs.2⟩
  · intro s event s' hs hstep
    obtain ⟨hpooled, hcloses⟩ := hs
    rw [← closesOwn_step_iff hpooled hcloses hstep]
    exact and_iff_right (pooled_step hpooled hstep)

/-- The second event resolves and connects while the first connection is shut
down. -/
theorem newer_connection_closed :
    let events : List Event := [.sendEvent, .succeeds 0 .resolve false, .succeeds 0 .connect false,
      .succeeds 0 .handshake false, .succeeds 0 .write false, .succeeds 0 .read false, .sendEvent,
      .succeeds 0 .resolve false]
    (run HttpSubscriber.step (start 1 {}) events).map (fun s =>
        ((s.sessions 0).outstanding, (s.sessions 0).shutDowns)) = some ([.connect], 1) ∧
      ¬Always HttpSubscriber.step ClosesOwn (start 1 {}) events := by
  intro events
  refine ⟨rfl, fun h => ?_⟩
  have hrun : ∃ s, run HttpSubscriber.step (start 1 {}) events = some s ∧
      0 ∈ s.pool ∧ (s.sessions 0).outstanding = [.connect] ∧ (s.sessions 0).shutDowns = 1 :=
    ⟨_, rfl, by decide, rfl, rfl⟩
  obtain ⟨s, hs, hpool, hout, hshut⟩ := hrun
  have hcloses : ClosesOwn s := h.last hs
  have hrest := (hcloses 0 hpool (by omega)).2
  rw [hout] at hrest
  cases hrest

end CrowCore.ShutDownOverlap
