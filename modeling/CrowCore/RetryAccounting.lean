import CrowCore.StrandedEvents

set_option autoImplicit false

/-!
# Counting the runs of an event

A retry counter belongs to the handler of a session, and sessions are used for
other events. Where each failure is reported to the handler of its own event,
no event is run more than `1 + maxRetries` times, nor given up before.
-/
namespace CrowCore.RetryAccounting
open GuardedRuns ClientSession Subscriber StrandedEvents

def runs (s : HttpSubscriber) (e : Request) : ℕ := s.log.count (.run e)

def failedRuns (s : HttpSubscriber) (e : Request) : ℕ := s.log.count (.failedRun e)

def deliveries (s : HttpSubscriber) (e : Request) : ℕ := s.log.count (.delivered e)

/-- The waits on the timer of a retry request that are still to run its function. -/
def pending (retry : RetryRequest) : ℕ := (if retry.armed then 1 else 0) + retry.due

/-- Sent, not delivered, and nothing is left that would run its request. -/
structure Abandoned (s : HttpSubscriber) (e : Request) : Prop where
  sent : e < s.nextEvent
  undelivered : deliveries s e = 0
  not_buffered : e ∉ s.eventBuffer
  not_running : ∀ i, (s.sessions i).outstanding ≠ [] → (s.sessions i).req ≠ some e
  not_waiting : ∀ r, pending (s.retryRequests r) ≠ 0 → (s.retryRequests r).req ≠ some e

structure Counted (m : ℕ) (s : HttpSubscriber) : Prop where
  runs_le : ∀ e, runs s e ≤ 1 + m
  abandoned_late : ∀ e, Abandoned s e → 1 + m ≤ failedRuns s e

/-- The handler of the session is the one for its request: the first handler for
the first run, then the one with the retry request made for it. -/
def OwnHandler (s : HttpSubscriber) (i : ℕ) : Prop :=
  match (s.sessions i).responseHandler with
  | none => False
  | some .handleResponse => ∀ e, (s.sessions i).req = some e → runs s e = 1
  | some (.handleRetryResponse r) => (s.retryRequests r).madeFor = (s.sessions i).req

/-- Failures are reported to their own handlers, nothing is pushed out of the
buffer, and a due retry finds a session. -/
def ChargesOwn (s : HttpSubscriber) : Event → Prop
  | .sendEvent => SessionFound s .sendEvent ∨ s.eventBuffer.length < eventBufferCapacity
  | .fails i _ => OwnHandler s i
  | .idleWait i true => i ∈ s.pool ∧ (s.sessions i).outstanding = [] ∧ OwnHandler s i
  | .timerHandler _ => SessionFound s .sendEvent
  | _ => True

inductive Place where
  | nowhere
  | buffer
  | session (i : ℕ)
  | retry (r : ℕ)
deriving DecidableEq

/-- Requests are moved, never copied: each event is in one place. -/
structure Holds (s : HttpSubscriber) (place : Request → Place) : Prop where
  session_iff : ∀ i e, (s.sessions i).req = some e ↔ place e = .session i
  retry_iff : ∀ r e, (s.retryRequests r).req = some e ↔ place e = .retry r
  buffer_iff : ∀ e, e ∈ s.eventBuffer ↔ place e = .buffer

def Account (m : ℕ) (s : HttpSubscriber) (e : Request) : Place → Prop
  | .nowhere => runs s e ≤ 1 + m ∧ (e < s.nextEvent → 1 ≤ deliveries s e) ∧
      (s.nextEvent ≤ e → runs s e = 0 ∧ failedRuns s e = 0 ∧ deliveries s e = 0 ∧
        ∀ r, (s.retryRequests r).madeFor ≠ some e)
  | .buffer => e < s.nextEvent ∧ runs s e = 0
  | .session i => e < s.nextEvent ∧ runs s e ≤ 1 + m ∧
      (∀ r, (s.retryRequests r).madeFor = some e →
        (s.retryRequests r).policy.retryCount + 1 = runs s e) ∧
      if (s.sessions i).outstanding ≠ [] then runs s e = failedRuns s e + deliveries s e + 1
      else runs s e = failedRuns s e + deliveries s e ∧
        (1 ≤ deliveries s e ∨ i ∉ s.pool ∧ runs s e = 1 + m)
  | .retry r => e < s.nextEvent ∧ (s.retryRequests r).madeFor = some e ∧
      runs s e = failedRuns s e + deliveries s e ∧
      (pending (s.retryRequests r) = 1 ∧ (s.retryRequests r).policy.retryCount = runs s e ∧
          runs s e ≤ m ∨
        pending (s.retryRequests r) = 0 ∧ runs s e = 1 + m)

structure WellFormed (m : ℕ) (s : HttpSubscriber) : Prop where
  policy_eq : s.retryPolicy.maxRetries = m ∧ s.retryPolicy.retryCount = 0
  pool_nodup : s.pool.Nodup
  pool_lt : ∀ i ∈ s.pool, i < s.created
  truthful : ∀ i ∈ s.pool, Truthful (s.sessions i)
  released : ∀ i, i ∉ s.pool → (s.sessions i).outstanding = []
  uncreated : ∀ i, s.created ≤ i → (s.sessions i).req = none
  running : ∀ i, (s.sessions i).outstanding ≠ [] → (s.sessions i).req ≠ none
  monitored : ∀ i ∈ s.pool, (s.sessions i).idleWaits ≠ 0 → (s.sessions i).req ≠ none
  unmade : ∀ r, s.made ≤ r → (s.retryRequests r).req = none ∧
    (s.retryRequests r).madeFor = none ∧ pending (s.retryRequests r) = 0
  made_for : ∀ r, r < s.made → (s.retryRequests r).madeFor ≠ none
  made_once : ∀ r r' e, (s.retryRequests r).madeFor = some e →
    (s.retryRequests r').madeFor = some e → r = r'
  retries : ∀ r, r < s.made → (s.retryRequests r).policy.maxRetries = m ∧
    1 ≤ (s.retryRequests r).policy.retryCount ∧ (s.retryRequests r).policy.retryCount ≤ m
  waiting : ∀ r, pending (s.retryRequests r) ≠ 0 → (s.retryRequests r).req ≠ none

/-- The invariant, for the events of a set. -/
structure Accounted (m : ℕ) (s : HttpSubscriber) (place : Request → Place)
    (known : Request → Prop) : Prop where
  wf : WellFormed m s
  holds : Holds s place
  account : ∀ e, known e → Account m s e (place e)

theorem counted_of_accounted {m : ℕ} {s : HttpSubscriber} {place : Request → Place}
    (h : Accounted m s place fun _ => True) : Counted m s := by
  constructor
  · intro e
    have ha := h.account e trivial
    rcases hp : place e with _ | _ | i | r <;> rw [hp] at ha
    · exact ha.1
    · rw [ha.2]
      exact Nat.zero_le _
    · exact ha.2.1
    · rcases ha.2.2.2 with ⟨-, -, hle⟩ | ⟨-, heq⟩ <;> omega
  · intro e hab
    have ha := h.account e trivial
    rcases hp : place e with _ | _ | i | r <;> rw [hp] at ha
    · have := ha.2.1 hab.sent
      have := hab.undelivered
      omega
    · exact (hab.not_buffered ((h.holds.buffer_iff e).2 hp)).elim
    · obtain ⟨-, -, -, ha⟩ := ha
      split_ifs at ha with hrun
      · exact (hab.not_running i hrun ((h.holds.session_iff i e).2 hp)).elim
      · have := hab.undelivered
        rcases ha with ⟨hsum, hdel | ⟨-, hruns⟩⟩ <;> omega
    · rcases ha.2.2.2 with ⟨hpend, -, -⟩ | ⟨-, hruns⟩
      · exact (hab.not_waiting r (by omega) ((h.holds.retry_iff r e).2 hp)).elim
      · have := hab.undelivered
        have := ha.2.2.1
        omega

theorem WellFormed.made_lt {m : ℕ} {s : HttpSubscriber} (h : WellFormed m s) {r : ℕ} {e : Request}
    (hfor : (s.retryRequests r).madeFor = some e) : r < s.made := by
  by_contra hge
  rw [(h.unmade r (not_lt.1 hge)).2.1] at hfor
  cases hfor

theorem WellFormed.update {m : ℕ} {s : HttpSubscriber} (h : WellFormed m s) {i : ℕ}
    {session : Session} (htruth : i ∈ s.pool → Truthful session)
    (hreleased : i ∉ s.pool → session.outstanding = [])
    (huncreated : s.created ≤ i → session.req = none)
    (hrunning : session.outstanding ≠ [] → session.req ≠ none)
    (hmonitored : i ∈ s.pool → session.idleWaits ≠ 0 → session.req ≠ none) :
    WellFormed m { s with sessions := Function.update s.sessions i session } := by
  refine { h with
    truthful := ?_, released := ?_, uncreated := ?_, running := ?_, monitored := ?_ }
  · intro j hj
    by_cases hji : j = i
    · subst hji
      simpa using htruth hj
    · simpa [hji] using h.truthful j hj
  · intro j hj
    by_cases hji : j = i
    · subst hji
      simpa using hreleased hj
    · simpa [hji] using h.released j hj
  · intro j hj
    by_cases hji : j = i
    · subst hji
      simpa using huncreated hj
    · simpa [hji] using h.uncreated j hj
  · intro j hj
    by_cases hji : j = i
    · subst hji
      simp only [Function.update_self] at hj ⊢
      exact hrunning hj
    · simp only [Function.update_of_ne hji] at hj ⊢
      exact h.running j hj
  · intro j hj hne
    by_cases hji : j = i
    · subst hji
      simp only [Function.update_self] at hne ⊢
      exact hmonitored hj hne
    · simp only [Function.update_of_ne hji] at hne ⊢
      exact h.monitored j hj hne

theorem WellFormed.release {m : ℕ} {s : HttpSubscriber} (h : WellFormed m s) {i : ℕ}
    (hi : i ∈ s.pool) {sessions : ℕ → Session} (hother : ∀ j, j ≠ i → sessions j = s.sessions j)
    (hout : (sessions i).outstanding = []) :
    WellFormed m { s with pool := s.pool.erase i, sessions } := by
  have hnotin : i ∉ s.pool.erase i := h.pool_nodup.not_mem_erase
  refine { h with
    pool_nodup := h.pool_nodup.erase i
    pool_lt := fun j hj => h.pool_lt j (List.mem_of_mem_erase hj)
    truthful := ?_, released := ?_, uncreated := ?_, running := ?_, monitored := ?_ }
  · intro j hj
    have hji : j ≠ i := fun heq => hnotin (heq ▸ hj)
    simp only [hother j hji]
    exact h.truthful j (List.mem_of_mem_erase hj)
  · intro j hj
    by_cases hji : j = i
    · exact hji ▸ hout
    · simp only [hother j hji]
      exact h.released j fun hmem => hj ((List.mem_erase_of_ne hji).2 hmem)
  · intro j hj
    have hji : j ≠ i := fun heq => absurd (h.pool_lt i hi) (not_lt.2 (heq ▸ hj))
    simp only [hother j hji]
    exact h.uncreated j hj
  · intro j hj
    by_cases hji : j = i
    · exact (hj (hji ▸ hout)).elim
    · simp only [hother j hji] at hj ⊢
      exact h.running j hj
  · intro j hj
    have hji : j ≠ i := fun heq => hnotin (heq ▸ hj)
    simp only [hother j hji]
    exact h.monitored j (List.mem_of_mem_erase hj)

section Alone
variable {s : HttpSubscriber} {place : Request → Place} {e x : Request}

theorem Holds.session_alone (h : Holds s place) {i : ℕ} (he : place e = .session i) (hx : x ≠ e) :
    place x ≠ .session i := by
  intro hpx
  have hreq := (h.session_iff i x).2 hpx
  rw [(h.session_iff i e).2 he] at hreq
  exact hx (Option.some.inj hreq).symm

theorem Holds.retry_alone (h : Holds s place) {r : ℕ} (he : place e = .retry r) (hx : x ≠ e) :
    place x ≠ .retry r := by
  intro hpx
  have hreq := (h.retry_iff r x).2 hpx
  rw [(h.retry_iff r e).2 he] at hreq
  exact hx (Option.some.inj hreq).symm

end Alone

theorem Accounted.busy {m : ℕ} {s : HttpSubscriber} {place : Request → Place}
    {known : Request → Prop} (h : Accounted m s place known) {i : ℕ} {op : Operation}
    (hop : op ∈ (s.sessions i).outstanding) :
    i ∈ s.pool ∧ ∃ e, (s.sessions i).req = some e ∧ place e = .session i := by
  have hne : (s.sessions i).outstanding ≠ [] := List.ne_nil_of_mem hop
  refine ⟨by_contra fun hi => hne (h.wf.released i hi), ?_⟩
  obtain ⟨e, he⟩ := Option.ne_none_iff_exists'.1 (h.wf.running i hne)
  exact ⟨e, he, (h.holds.session_iff i e).1 he⟩

/-- What the account of an event at this place reads is the same in both states. -/
structure Untouched (s s' : HttpSubscriber) (e : Request) (p : Place) : Prop where
  runs_eq : runs s' e = runs s e
  failed_eq : failedRuns s' e = failedRuns s e
  deliveries_eq : deliveries s' e = deliveries s e
  next_eq : s'.nextEvent = s.nextEvent
  session_same : ∀ i, p = .session i → ((s'.sessions i).outstanding = [] ↔
    (s.sessions i).outstanding = []) ∧ (i ∈ s'.pool → i ∈ s.pool)
  retry_same : ∀ r, p = .retry r → (s'.retryRequests r).policy = (s.retryRequests r).policy ∧
    pending (s'.retryRequests r) = pending (s.retryRequests r) ∧
    (s'.retryRequests r).madeFor = (s.retryRequests r).madeFor
  made_same : ∀ r, (s'.retryRequests r).madeFor = some e → p ≠ .retry r →
    (s.retryRequests r).madeFor = some e ∧
      (s'.retryRequests r).policy = (s.retryRequests r).policy

theorem Untouched.account {m : ℕ} {s s' : HttpSubscriber} {e : Request} {p : Place}
    (h : Untouched s s' e p) (ha : Account m s e p) : Account m s' e p := by
  obtain ⟨hruns, hfailed, hdel, hnext, hsession, hretry, hmade⟩ := h
  cases p with
  | nowhere =>
    simp only [Account, hruns, hfailed, hdel, hnext]
    refine ⟨ha.1, ha.2.1, fun hge => ?_⟩
    obtain ⟨h1, h2, h3, h4⟩ := ha.2.2 hge
    exact ⟨h1, h2, h3, fun r hr => h4 r (hmade r hr (by simp)).1⟩
  | buffer =>
    rw [Account, hruns, hnext]
    exact ha
  | session i =>
    obtain ⟨hlt, hle, hown, hrun⟩ := ha
    obtain ⟨hout, hpool⟩ := hsession i rfl
    simp only [Account, hruns, hfailed, hdel, hnext, ne_eq, hout]
    refine ⟨hlt, hle, fun r hr => ?_, ?_⟩
    · obtain ⟨hr', hpolicy⟩ := hmade r hr (by simp)
      rw [hpolicy]
      exact hown r hr'
    · by_cases hrest : (s.sessions i).outstanding = []
      · simp only [hrest, not_true_eq_false, if_false, ne_eq] at hrun ⊢
        exact ⟨hrun.1, hrun.2.imp_right fun hc => ⟨fun hi => hc.1 (hpool hi), hc.2⟩⟩
      · simpa [hrest] using hrun
  | retry r =>
    obtain ⟨hpolicy, hpend, hfor⟩ := hretry r rfl
    rw [Account, hruns, hfailed, hdel, hnext, hpolicy, hpend, hfor]
    exact ha

theorem accounted_acquire {m : ℕ} {s s' : HttpSubscriber} {place : Request → Place}
    {known : Request → Prop} (h : Accounted m s place known) {handler : ResponseHandler} {i : ℕ}
    (hacq : s.acquire handler = (s', some i)) : Accounted m s' place known ∧ i ∈ s'.pool ∧
      (s'.sessions i).inUse = false ∧ s'.retryRequests = s.retryRequests ∧
      s'.nextEvent = s.nextEvent ∧ s'.log = s.log := by
  rcases acquire_some hacq with ⟨hi, hfree, rfl⟩ | ⟨rfl, rfl⟩
  · exact ⟨h, hi, hfree, rfl, rfl, rfl⟩
  · have hnew : s.created ∉ s.pool := fun hi => lt_irrefl _ (h.wf.pool_lt _ hi)
    have hout := h.wf.released _ hnew
    have hreq := h.wf.uncreated _ (le_refl _)
    refine ⟨⟨?_, ?_, ?_⟩, by simp, by simp [HttpSession.inUse], rfl, rfl, rfl⟩
    · refine { h.wf with
        pool_nodup := ?_, pool_lt := ?_, truthful := ?_, released := ?_, uncreated := ?_
        running := ?_, monitored := ?_ }
      · exact List.nodup_append.2 ⟨h.wf.pool_nodup, List.nodup_singleton _, by
          simpa using fun a ha (heq : a = s.created) => hnew (heq ▸ ha)⟩
      · intro j hj
        rcases List.mem_append.1 hj with hj | hj
        · exact Nat.lt_succ_of_lt (h.wf.pool_lt j hj)
        · rw [List.mem_singleton.1 hj]
          exact Nat.lt_succ_self _
      · intro j hj
        by_cases heq : j = s.created
        · subst heq
          simp [truthful_iff, HttpSession.inUse]
        · simp only [Function.update_of_ne heq]
          exact h.wf.truthful j (by simpa [heq] using hj)
      · intro j hj
        by_cases heq : j = s.created
        · simp [heq]
        · simp only [Function.update_of_ne heq]
          exact h.wf.released j (by simp at hj; exact hj.1)
      · intro j hj
        have heq : j ≠ s.created := Nat.ne_of_gt hj
        simp only [Function.update_of_ne heq]
        exact h.wf.uncreated j (Nat.le_of_succ_le hj)
      · intro j
        by_cases heq : j = s.created
        · simp [heq]
        · simp only [Function.update_of_ne heq]
          exact h.wf.running j
      · intro j hj
        by_cases heq : j = s.created
        · simp [heq]
        · simp only [Function.update_of_ne heq]
          exact h.wf.monitored j (by simpa [heq] using hj)
    · refine { h.holds with session_iff := fun j e => ?_ }
      rw [← h.holds.session_iff j e]
      by_cases heq : j = s.created
      · simp [heq, hreq]
      · simp only [Function.update_of_ne heq]
    · intro e he
      refine Untouched.account (s := s) ?_ (h.account e he)
      refine ⟨rfl, rfl, rfl, rfl, ?_, fun _ _ => ⟨rfl, rfl, rfl⟩, fun r hr _ => ⟨hr, rfl⟩⟩
      intro j hj
      have heq : j ≠ s.created := by
        rintro rfl
        rw [(h.holds.session_iff _ e).2 hj] at hreq
        cases hreq
      simp [heq]

theorem runs_runSession (s : HttpSubscriber) (i : ℕ) (e x : Request) :
    runs (s.runSession i (some e)) x = runs s x + if e = x then 1 else 0 := by
  simp [runs, HttpSubscriber.runSession, HttpSubscriber.modifySession, List.count_append,
    List.count_singleton]

theorem failedRuns_runSession (s : HttpSubscriber) (i : ℕ) (e x : Request) :
    failedRuns (s.runSession i (some e)) x = failedRuns s x := by
  simp [failedRuns, HttpSubscriber.runSession, HttpSubscriber.modifySession, List.count_append]

theorem deliveries_runSession (s : HttpSubscriber) (i : ℕ) (e x : Request) :
    deliveries (s.runSession i (some e)) x = deliveries s x := by
  simp [deliveries, HttpSubscriber.runSession, HttpSubscriber.modifySession, List.count_append]

/-- An event that is nowhere, but may be run once more, goes to a free session.
What the session held before was delivered. -/
theorem accounted_runSession {m : ℕ} {s : HttpSubscriber} {place : Request → Place} {e : Request}
    {i : ℕ} (h : Accounted m s place (· ≠ e)) (hplace : place e = .nowhere) (hi : i ∈ s.pool)
    (hfree : (s.sessions i).inUse = false) (hsent : e < s.nextEvent) (hle : runs s e ≤ m)
    (heq : runs s e = failedRuns s e + deliveries s e)
    (hown : ∀ r, (s.retryRequests r).madeFor = some e →
      (s.retryRequests r).policy.retryCount = runs s e) :
    ∃ place', Accounted m (s.runSession i (some e)) place' fun _ => True := by
  have hrest := (h.wf.truthful i hi).atRest hfree
  obtain ⟨op, state, hrun⟩ := run_starts hfree (some e)
  have hself : (s.runSession i (some e)).sessions i = (s.sessions i).run (some e) := by
    simp [HttpSubscriber.runSession, HttpSubscriber.modifySession]
  have hother : ∀ j, j ≠ i → (s.runSession i (some e)).sessions j = s.sessions j := by
    intro j hj
    simp [HttpSubscriber.runSession, HttpSubscriber.modifySession, hj]
  have hreq : ((s.runSession i (some e)).sessions i).req = some e := by rw [hself, hrun]; rfl
  have hout : ((s.runSession i (some e)).sessions i).outstanding ≠ [] := by
    rw [hself, hrun]
    simp [HttpSession.start]
  let place' : Request → Place := fun x =>
    if x = e then .session i else if place x = .session i then .nowhere else place x
  refine ⟨place', ⟨?_, ?_, ?_⟩⟩
  · have hrest' : AtRest { s.sessions i with req := some e, connectionState := state } := hrest
    have htruth : Truthful ((s.sessions i).run (some e)) := hrun ▸ truthful_start hrest' op
    have hsome : ((s.sessions i).run (some e)).req ≠ none := by
      rw [hrun]
      exact Option.some_ne_none e
    exact { h.wf.update (fun _ => htruth) (fun hnot => (hnot hi).elim)
      (fun hge => absurd (h.wf.pool_lt i hi) (not_lt.2 hge)) (fun _ => hsome)
      (fun _ _ => hsome) with }
  · constructor
    · intro j x
      by_cases hji : j = i
      · subst hji
        rw [hreq]
        by_cases hx : x = e
        · simp [place', hx]
        · by_cases hpx : place x = .session j <;> simp [place', hx, hpx, Ne.symm hx]
      · rw [hother j hji, h.holds.session_iff j x]
        by_cases hx : x = e
        · simp [place', hx, hplace, Ne.symm hji]
        · by_cases hpx : place x = .session i <;> simp [place', hx, hpx, Ne.symm hji]
    · intro r x
      rw [show (s.runSession i (some e)).retryRequests = s.retryRequests from rfl,
        h.holds.retry_iff r x]
      by_cases hx : x = e
      · simp [place', hx, hplace]
      · by_cases hpx : place x = .session i <;> simp [place', hx, hpx]
    · intro x
      rw [show (s.runSession i (some e)).eventBuffer = s.eventBuffer from rfl,
        h.holds.buffer_iff x]
      by_cases hx : x = e
      · simp [place', hx, hplace]
      · by_cases hpx : place x = .session i <;> simp [place', hx, hpx]
  · intro x _
    by_cases hx : x = e
    · subst hx
      simp only [place', if_pos]
      refine ⟨hsent, ?_, fun r hr => ?_, ?_⟩
      · rw [runs_runSession, if_pos rfl]
        omega
      · rw [runs_runSession, if_pos rfl]
        exact congrArg (· + 1) (hown r hr)
      · rw [if_pos hout, runs_runSession, failedRuns_runSession, deliveries_runSession, if_pos rfl,
          heq]
    · have ha := h.account x hx
      by_cases hpx : place x = .session i
      · rw [hpx] at ha
        obtain ⟨hlt, hle', -, ha⟩ := ha
        have hout' : (s.sessions i).outstanding = [] := hrest
        rw [if_neg (not_not.2 hout')] at ha
        have hdel : 1 ≤ deliveries s x := ha.2.resolve_right fun hc => hc.1 hi
        simp only [place', hx, if_false, hpx, if_true]
        refine ⟨?_, fun _ => ?_, fun hge => absurd hlt (not_lt.2 hge)⟩
        · rw [runs_runSession, if_neg (Ne.symm hx)]
          exact hle'
        · rw [deliveries_runSession]
          exact hdel
      · simp only [place', hx, if_false, hpx]
        refine Untouched.account (s := s) ?_ ha
        refine ⟨?_, failedRuns_runSession s i e x, deliveries_runSession s i e x, rfl, ?_,
          fun _ _ => ⟨rfl, rfl, rfl⟩, fun r hr _ => ⟨hr, rfl⟩⟩
        · rw [runs_runSession, if_neg (Ne.symm hx), add_zero]
        · intro j hj
          have hji : j ≠ i := fun heq => hpx (heq ▸ hj)
          rw [hother j hji]
          exact ⟨Iff.rfl, id⟩

def givenToRetry (s : HttpSubscriber) (i r : ℕ) (retry : RetryRequest) : HttpSubscriber :=
  { s with
    pool := s.pool.erase i
    sessions := Function.update s.sessions i
      { s.sessions i with req := none }.shutDown
    retryRequests := Function.update s.retryRequests r retry
    made := max s.made (r + 1) }

theorem fail_first {s : HttpSubscriber} {i : ℕ}
    (hh : (s.sessions i).responseHandler = some .handleResponse) : s.fail i =
      if s.retryPolicy.retryNeeded then
        givenToRetry s i s.made
          { req := (s.sessions i).req, policy := s.retryPolicy.incrementRetryCount, armed := true
            madeFor := (s.sessions i).req }
      else (s.release i).modifySession i HttpSession.shutDown := by
  simp only [HttpSubscriber.fail, HttpSubscriber.respond, hh, HttpSubscriber.handleResponse,
    HttpSubscriber.retryIfNeeded, HttpSubscriber.waitAndRetry, HttpSubscriber.modifyRetry,
    HttpSubscriber.modifySession, HttpSubscriber.release, HttpSession.takeRequest, givenToRetry,
    Function.update_self, Function.update_idem, Nat.le_add_right, Nat.max_eq_right]
  by_cases hneeded : s.retryPolicy.retryNeeded <;> simp [hneeded]

theorem fail_retry {s : HttpSubscriber} {i r : ℕ} (hr : r < s.made)
    (hh : (s.sessions i).responseHandler = some (.handleRetryResponse r)) : s.fail i =
      givenToRetry s i r
        (if (s.retryRequests r).policy.retryNeeded then
          { s.retryRequests r with
            req := (s.sessions i).req
            policy := (s.retryRequests r).policy.incrementRetryCount
            armed := true }
        else { s.retryRequests r with req := (s.sessions i).req }) := by
  have hmax : max s.made (r + 1) = s.made := Nat.max_eq_left hr
  simp only [HttpSubscriber.fail, HttpSubscriber.respond, hh, HttpSubscriber.handleRetryResponse,
    HttpSubscriber.waitAndRetry, HttpSubscriber.modifyRetry, HttpSubscriber.modifySession,
    HttpSubscriber.release, HttpSession.takeRequest, givenToRetry, hmax, Function.update_self]
  by_cases hneeded : (s.retryRequests r).policy.retryNeeded <;> simp [hneeded]

/-- The counters of all events but one, and of that one but for its failures. -/
structure SameCounts (s : HttpSubscriber) (log : List LogEntry) (e : Request) : Prop where
  runs_eq : ∀ x, log.count (.run x) = runs s x
  deliveries_eq : ∀ x, log.count (.delivered x) = deliveries s x
  failed_eq : ∀ x, x ≠ e → log.count (.failedRun x) = failedRuns s x

/-- The retry request of an event may run it again, or has run it often enough. -/
structure Chargeable (m : ℕ) (s : HttpSubscriber) (e : Request) (retry : RetryRequest) : Prop where
  req_eq : retry.req = some e
  made_for : retry.madeFor = some e
  policy_eq : retry.policy.maxRetries = m
  count_pos : 1 ≤ retry.policy.retryCount
  count_le : retry.policy.retryCount ≤ m
  charged : pending retry = 1 ∧ retry.policy.retryCount = runs s e ∧ runs s e ≤ m ∨
    pending retry = 0 ∧ runs s e = 1 + m

theorem accounted_givenToRetry {m : ℕ} {s : HttpSubscriber} {place : Request → Place}
    (h : Accounted m s place fun _ => True) {e : Request} {i r : ℕ} {session : Session}
    {log : List LogEntry} {retry : RetryRequest} (hplace : place e = .session i) (hi : i ∈ s.pool)
    (hout : session.outstanding = []) (hlog : SameCounts s log e)
    (hsum : runs s e = log.count (.failedRun e) + deliveries s e)
    (hown : r < s.made ∧ (s.retryRequests r).madeFor = some e ∨ r = s.made ∧ runs s e = 1)
    (hcharge : Chargeable m s e retry) : ∃ place', Accounted m
      (givenToRetry { s with sessions := Function.update s.sessions i session, log } i r retry)
      place' fun _ => True := by
  obtain ⟨hlt, hle, hmade, -⟩ := hplace ▸ h.account e trivial
  have hfor : ∀ q, (s.retryRequests q).madeFor = some e → q = r := by
    intro q hq
    rcases hown with ⟨-, hr⟩ | ⟨rfl, hruns⟩
    · exact h.wf.made_once q r e hq hr
    · have := (h.wf.retries q (h.wf.made_lt hq)).2.1
      have := hmade q hq
      omega
  have hfor' : ∀ x, x ≠ e → (s.retryRequests r).madeFor ≠ some x := by
    intro x hx hr
    rcases hown with ⟨-, hr'⟩ | ⟨rfl, -⟩
    · exact hx (Option.some.inj (hr.symm.trans hr'))
    · exact lt_irrefl _ (h.wf.made_lt hr)
  have hothers : ∀ x, x ≠ e → place x ≠ .retry r := by
    intro x hx hpx
    have ha := h.account x trivial
    rw [hpx] at ha
    exact hfor' x hx ha.2.1
  have halone : ∀ x, x ≠ e → place x ≠ .session i := fun x => h.holds.session_alone hplace
  refine ⟨fun x => if x = e then .retry r else place x, ⟨?_, ?_, ?_⟩⟩
  · have hreleased : WellFormed m { s with
        pool := s.pool.erase i
        sessions := (givenToRetry { s with
          sessions := Function.update s.sessions i session, log } i r retry).sessions } :=
      h.wf.release hi (fun j hji => by simp [givenToRetry, hji]) (by simp [givenToRetry, hout])
    refine { hreleased with
      unmade := ?_, made_for := ?_, made_once := ?_, retries := ?_, waiting := ?_ }
    · intro q hq
      have hqm : s.made ≤ q ∧ r + 1 ≤ q := by simpa [givenToRetry] using hq
      have hqr : q ≠ r := by omega
      simp only [givenToRetry, Function.update_of_ne hqr]
      exact h.wf.unmade q hqm.1
    · intro q hq
      by_cases hqr : q = r
      · simp [givenToRetry, hqr, hcharge.made_for]
      · have hqm : q < s.made := by
          have : q < max s.made (r + 1) := hq
          rcases hown with ⟨hr, -⟩ | ⟨rfl, -⟩ <;> omega
        simp only [givenToRetry, Function.update_of_ne hqr]
        exact h.wf.made_for q hqm
    · intro q q' x hq hq'
      by_cases hqr : q = r <;> by_cases hqr' : q' = r
      · rw [hqr, hqr']
      · simp only [givenToRetry, hqr, Function.update_self, Function.update_of_ne hqr',
          hcharge.made_for] at hq hq'
        obtain rfl := Option.some.inj hq
        exact (hqr' (hfor q' hq')).elim
      · simp only [givenToRetry, hqr', Function.update_self, Function.update_of_ne hqr,
          hcharge.made_for] at hq hq'
        obtain rfl := Option.some.inj hq'
        exact (hqr (hfor q hq)).elim
      · simp only [givenToRetry, Function.update_of_ne hqr, Function.update_of_ne hqr'] at hq hq'
        exact h.wf.made_once q q' x hq hq'
    · intro q hq
      by_cases hqr : q = r
      · simp only [givenToRetry, hqr, Function.update_self]
        exact ⟨hcharge.policy_eq, hcharge.count_pos, hcharge.count_le⟩
      · have hqm : q < s.made := by
          have : q < max s.made (r + 1) := hq
          rcases hown with ⟨hr, -⟩ | ⟨rfl, -⟩ <;> omega
        simp only [givenToRetry, Function.update_of_ne hqr]
        exact h.wf.retries q hqm
    · intro q hq
      by_cases hqr : q = r
      · simp [givenToRetry, hqr, hcharge.req_eq]
      · simp only [givenToRetry, Function.update_of_ne hqr] at hq ⊢
        exact h.wf.waiting q hq
  · constructor
    · intro j x
      by_cases hji : j = i
      · subst hji
        by_cases hx : x = e <;> simp [givenToRetry, hx, halone]
      · simp only [givenToRetry, Function.update_of_ne hji]
        rw [h.holds.session_iff j x]
        by_cases hx : x = e
        · simp [hx, hplace, Ne.symm hji]
        · simp [hx]
    · intro q x
      by_cases hqr : q = r
      · subst hqr
        by_cases hx : x = e
        · simp [givenToRetry, hx, hcharge.req_eq]
        · simp [givenToRetry, hx, hcharge.req_eq, hothers x hx, Ne.symm hx]
      · simp only [givenToRetry, Function.update_of_ne hqr]
        rw [h.holds.retry_iff q x]
        by_cases hx : x = e
        · simp [hx, hplace, Ne.symm hqr]
        · simp [hx]
    · intro x
      change x ∈ s.eventBuffer ↔ _
      rw [h.holds.buffer_iff x]
      by_cases hx : x = e <;> simp [hx, hplace]
  · intro x _
    by_cases hx : x = e
    · subst hx
      simp only [if_true]
      refine ⟨hlt, ?_, ?_, ?_⟩
      · simp [givenToRetry, hcharge.made_for]
      · change log.count (.run x) = log.count (.failedRun x) + log.count (.delivered x)
        rw [hlog.runs_eq, hlog.deliveries_eq, hsum]
      · have hruns := hlog.runs_eq x
        simp only [givenToRetry, Function.update_self, runs] at hruns ⊢
        rw [hruns]
        exact hcharge.charged
    · simp only [hx, if_false]
      refine Untouched.account (s := s) ?_ (h.account x trivial)
      refine ⟨hlog.runs_eq x, hlog.failed_eq x hx, hlog.deliveries_eq x, rfl, ?_, ?_, ?_⟩
      · intro j hj
        have hji : j ≠ i := fun heq => halone x hx (heq ▸ hj)
        simp only [givenToRetry, Function.update_of_ne hji]
        exact ⟨trivial, List.mem_of_mem_erase⟩
      · intro q hq
        have hqr : q ≠ r := fun heq => hothers x hx (heq ▸ hq)
        simp only [givenToRetry, Function.update_of_ne hqr]
        exact ⟨trivial, trivial, trivial⟩
      · intro q hq _
        by_cases hqr : q = r
        · simp only [givenToRetry, hqr, Function.update_self, hcharge.made_for] at hq
          exact (hx (Option.some.inj hq).symm).elim
        · simp only [givenToRetry, Function.update_of_ne hqr] at hq ⊢
          exact ⟨hq, trivial⟩

theorem accounted_givenUp {m : ℕ} {s : HttpSubscriber} {place : Request → Place}
    (h : Accounted m s place fun _ => True) {e : Request} {i : ℕ} {session : Session}
    {log : List LogEntry} (hplace : place e = .session i) (hi : i ∈ s.pool)
    (hout : session.outstanding = []) (hreq : session.req = some e) (hlog : SameCounts s log e)
    (hsum : runs s e = log.count (.failedRun e) + deliveries s e) (hruns : runs s e = 1 + m) :
    Accounted m { s with
      pool := s.pool.erase i, sessions := Function.update s.sessions i session, log } place
      fun _ => True := by
  have halone : ∀ x, x ≠ e → place x ≠ .session i := fun x => h.holds.session_alone hplace
  have hnotin : i ∉ s.pool.erase i := h.wf.pool_nodup.not_mem_erase
  refine ⟨?_, ?_, ?_⟩
  · have hreleased := h.wf.release hi (fun j hji => Function.update_of_ne hji session s.sessions)
      (by simpa using hout)
    exact { hreleased with }
  · refine { h.holds with session_iff := fun j x => ?_ }
    by_cases hji : j = i
    · subst hji
      simp only [Function.update_self, hreq]
      rw [← h.holds.session_iff j x, (h.holds.session_iff j e).2 hplace]
    · simp only [Function.update_of_ne hji]
      exact h.holds.session_iff j x
  · intro x _
    by_cases hx : x = e
    · subst hx
      obtain ⟨hlt, hle, hmade, -⟩ := hplace ▸ h.account x trivial
      have hruns' := hlog.runs_eq x
      have hdel := hlog.deliveries_eq x
      rw [hplace]
      simp only [Account, runs, failedRuns, deliveries, Function.update_self, hout] at *
      rw [hruns', hdel]
      exact ⟨hlt, hle, hmade, by simp [hsum, hnotin, ← hruns]⟩
    · refine Untouched.account (s := s) ?_ (h.account x trivial)
      refine ⟨hlog.runs_eq x, hlog.failed_eq x hx, hlog.deliveries_eq x, rfl, ?_,
        fun _ _ => ⟨rfl, rfl, rfl⟩, fun q hq _ => ⟨hq, rfl⟩⟩
      intro j hj
      have hji : j ≠ i := fun heq => halone x hx (heq ▸ hj)
      simp only [Function.update_of_ne hji]
      exact ⟨trivial, List.mem_of_mem_erase⟩

theorem retryNeeded_iff {m : ℕ} {policy : RetryPolicy} (h : policy.maxRetries = m) :
    policy.retryNeeded ↔ policy.retryCount < m := by
  simp only [RetryPolicy.retryNeeded, h, Bool.or_eq_true, decide_eq_true_eq]
  omega

theorem accounted_fail {m : ℕ} {s : HttpSubscriber} {place : Request → Place}
    (h : Accounted m s place fun _ => True) {e : Request} {i : ℕ} {session : Session}
    {log : List LogEntry} (hplace : place e = .session i) (hi : i ∈ s.pool)
    (hout : session.outstanding = []) (hreq : session.req = some e)
    (hhandler : session.responseHandler = (s.sessions i).responseHandler)
    (hlog : SameCounts s log e) (hsum : runs s e = log.count (.failedRun e) + deliveries s e)
    (hown : OwnHandler s i) : ∃ place', Accounted m
      ({ s with sessions := Function.update s.sessions i session, log }.fail i) place'
      fun _ => True := by
  obtain ⟨hlt, hle, hmade, -⟩ := hplace ▸ h.account e trivial
  have hreq' : (s.sessions i).req = some e := (h.holds.session_iff i e).2 hplace
  unfold OwnHandler at hown
  rcases hh : (s.sessions i).responseHandler with _ | _ | r
  · rw [hh] at hown
    exact hown.elim
  · rw [hh] at hown
    have hruns := hown e hreq'
    rw [fail_first (by simp [hhandler, hh])]
    dsimp only
    split_ifs with hneeded
    · have hm : 0 < m := by
        have := (retryNeeded_iff h.wf.policy_eq.1).1 hneeded
        omega
      refine accounted_givenToRetry h hplace hi hout hlog hsum (.inr ⟨rfl, hruns⟩) ?_
      have hcount : s.retryPolicy.incrementRetryCount.retryCount = 1 := by
        simp [RetryPolicy.incrementRetryCount, h.wf.policy_eq.2]
      exact ⟨by simp [hreq], by simp [hreq], h.wf.policy_eq.1, hcount.ge, hcount.le.trans hm,
        .inl ⟨rfl, hcount.trans hruns.symm, by omega⟩⟩
    · have hm : m = 0 := by
        by_contra hne
        refine hneeded ((retryNeeded_iff h.wf.policy_eq.1).2 ?_)
        have := h.wf.policy_eq.2
        omega
      have hout' : session.shutDown.outstanding = [] := by simpa using hout
      have hgiven := accounted_givenUp h hplace hi hout' (by simpa using hreq) hlog hsum (by omega)
      refine ⟨place, ?_⟩
      simpa [HttpSubscriber.release, HttpSubscriber.modifySession,
        Function.update_idem] using hgiven
  · rw [hh] at hown
    have hfor : (s.retryRequests r).madeFor = some e := by rw [hown, hreq']
    have hrm : r < s.made := h.wf.made_lt hfor
    have hcount := hmade r hfor
    obtain ⟨hpolicy, hpos, hcle⟩ := h.wf.retries r hrm
    have hnone : (s.retryRequests r).req = none := by
      rcases hr : (s.retryRequests r).req with _ | x
      · rfl
      · have hpx := (h.holds.retry_iff r x).1 hr
        have hx : x = e := by
          have ha := h.account x trivial
          rw [hpx] at ha
          exact Option.some.inj (ha.2.1.symm.trans hfor)
        rw [hx, hplace] at hpx
        cases hpx
    have hpend : pending (s.retryRequests r) = 0 := by
      by_contra hne
      exact h.wf.waiting r hne hnone
    have hfail := fail_retry
      (s := { s with sessions := Function.update s.sessions i session, log }) (i := i) hrm
      (by simp [hhandler, hh])
    rw [hfail]
    refine accounted_givenToRetry h hplace hi hout hlog hsum (.inl ⟨hrm, hfor⟩) ?_
    dsimp only
    split_ifs with hneeded
    · have hlt' := (retryNeeded_iff hpolicy).1 hneeded
      have hdue : (s.retryRequests r).due = 0 := by
        unfold pending at hpend
        omega
      exact ⟨by simp [hreq], hfor, hpolicy, by simp [RetryPolicy.incrementRetryCount],
        by simpa [RetryPolicy.incrementRetryCount] using hlt',
        .inl ⟨by simp [pending, hdue], by simpa [RetryPolicy.incrementRetryCount] using hcount,
          by omega⟩⟩
    · have hge : ¬ (s.retryRequests r).policy.retryCount < m := fun hlt' =>
        hneeded ((retryNeeded_iff hpolicy).2 hlt')
      exact ⟨by simp [hreq], hfor, hpolicy, hpos, hcle, .inr ⟨hpend, by omega⟩⟩

theorem accounted_session {m : ℕ} {s : HttpSubscriber} {place : Request → Place}
    (h : Accounted m s place fun _ => True) {i : ℕ} {session : Session} {log : List LogEntry}
    (hreq : session.req = (s.sessions i).req) (htruth : i ∈ s.pool → Truthful session)
    (hout : session.outstanding ≠ [] → (s.sessions i).outstanding ≠ [])
    (hwait : session.idleWaits ≠ 0 →
      (s.sessions i).idleWaits ≠ 0 ∨ (s.sessions i).outstanding ≠ [])
    (hlog : ∀ x, place x ≠ .session i → log.count (.run x) = runs s x ∧
      log.count (.failedRun x) = failedRuns s x ∧ log.count (.delivered x) = deliveries s x)
    (haccount : ∀ x, place x = .session i → Account m
      { s with sessions := Function.update s.sessions i session, log } x (.session i)) :
    Accounted m { s with sessions := Function.update s.sessions i session, log } place
      fun _ => True := by
  refine ⟨?_, ?_, ?_⟩
  · have hreleased : i ∉ s.pool → session.outstanding = [] := fun hi =>
      by_contra fun hne => hout hne (h.wf.released i hi)
    have hrunning : session.outstanding ≠ [] → session.req ≠ none := fun hne =>
      hreq ▸ h.wf.running i (hout hne)
    have hmonitored : i ∈ s.pool → session.idleWaits ≠ 0 → session.req ≠ none := fun hi hne =>
      hreq ▸ (hwait hne).elim (h.wf.monitored i hi) (h.wf.running i)
    exact { h.wf.update htruth hreleased (fun hge => hreq ▸ h.wf.uncreated i hge) hrunning
      hmonitored with }
  · refine { h.holds with session_iff := fun j x => ?_ }
    by_cases hji : j = i
    · subst hji
      simp only [Function.update_self, hreq]
      exact h.holds.session_iff j x
    · simpa [hji] using h.holds.session_iff j x
  · intro x _
    by_cases hpx : place x = .session i
    · rw [hpx]
      exact haccount x hpx
    · obtain ⟨hruns, hfailed, hdel⟩ := hlog x hpx
      refine Untouched.account (s := s) ?_ (h.account x trivial)
      refine ⟨hruns, hfailed, hdel, rfl, ?_, fun _ _ => ⟨rfl, rfl, rfl⟩, fun q hq _ => ⟨hq, rfl⟩⟩
      intro j hj
      have hji : j ≠ i := fun heq => hpx (heq ▸ hj)
      simp [hji]

theorem accounted_idle {m : ℕ} {s : HttpSubscriber} {place : Request → Place}
    (h : Accounted m s place fun _ => True) {i : ℕ} {session : Session}
    (hreq : session.req = (s.sessions i).req)
    (hstate : session.connectionState = (s.sessions i).connectionState)
    (hout : session.outstanding = (s.sessions i).outstanding)
    (hwait : session.idleWaits ≤ (s.sessions i).idleWaits) :
    Accounted m { s with sessions := Function.update s.sessions i session } place
      fun _ => True := by
  refine accounted_session h hreq ?_ (by simp [hout]) (by omega) (fun _ _ => ⟨rfl, rfl, rfl⟩) ?_
  · intro hi
    have ht := h.wf.truthful i hi
    rw [truthful_iff, HttpSession.inUse] at ht ⊢
    rwa [hstate, hout]
  · intro x hpx
    refine Untouched.account (s := s) ?_ (hpx ▸ h.account x trivial)
    refine ⟨rfl, rfl, rfl, rfl, ?_, fun _ _ => ⟨rfl, rfl, rfl⟩, fun q hq _ => ⟨hq, rfl⟩⟩
    intro j hj
    obtain rfl := Place.session.inj hj
    simp [hout]

theorem accounted_succeeds {m : ℕ} {s : HttpSubscriber} {place : Request → Place}
    (h : Accounted m s place fun _ => True) {i : ℕ} {op : Operation} (keepAlive : Bool)
    (hop : op ∈ (s.sessions i).outstanding) :
    Accounted m (s.succeeds i op keepAlive) place fun _ => True := by
  have hne : (s.sessions i).outstanding ≠ [] := List.ne_nil_of_mem hop
  obtain ⟨hi, e, he, hplace⟩ := h.busy hop
  obtain ⟨htruth, hrest⟩ := complete_spec (h.wf.truthful i hi) hop keepAlive
  have hall : ∀ x, place x = .session i → x = e := fun x hx =>
    by_contra fun hxe => h.holds.session_alone hplace hxe hx
  obtain ⟨hlt, hle, hmade, hsum⟩ := hplace ▸ h.account e trivial
  rw [if_pos hne] at hsum
  unfold HttpSubscriber.succeeds HttpSubscriber.modifySession
  dsimp only
  split_ifs with hread
  · refine accounted_session h (complete_req ..) (fun _ => htruth) (fun _ => hne)
      (fun _ => .inr hne) ?_ ?_
    · intro x hx
      have hxe : e ≠ x := fun heq => hx (heq ▸ hplace)
      simp [he, List.count_append, hxe, runs, failedRuns, deliveries]
    · intro x hx
      obtain rfl := hall x hx
      have hdone : ((s.sessions i).complete op keepAlive).outstanding = [] := hrest.2 hread
      simp only [Account, runs, failedRuns, deliveries, Function.update_self, hdone, he,
        Option.map_some, Option.toList_some, List.count_append, List.count_singleton] at *
      refine ⟨hlt, by simpa using hle, by simpa using hmade, ?_⟩
      simp
      omega
  · refine accounted_session h (complete_req ..) (fun _ => htruth) (fun _ => hne)
      (fun _ => .inr hne) (fun x _ => ⟨rfl, rfl, rfl⟩) ?_
    intro x hx
    obtain rfl := hall x hx
    have hgoes : ((s.sessions i).complete op keepAlive).outstanding ≠ [] :=
      fun hnil => hread (hrest.1 hnil)
    refine ⟨hlt, hle, hmade, ?_⟩
    simp only [Function.update_self]
    rw [if_pos hgoes]
    exact hsum

theorem accounted_fails {m : ℕ} {s : HttpSubscriber} {place : Request → Place}
    (h : Accounted m s place fun _ => True) {i : ℕ} {op : Operation}
    (hop : op ∈ (s.sessions i).outstanding) (hown : OwnHandler s i) :
    ∃ place', Accounted m (s.fails i op) place' fun _ => True := by
  have hne : (s.sessions i).outstanding ≠ [] := List.ne_nil_of_mem hop
  obtain ⟨hi, e, he, hplace⟩ := h.busy hop
  obtain ⟨-, -, -, hsum⟩ := hplace ▸ h.account e trivial
  rw [if_pos hne] at hsum
  obtain ⟨op', hout⟩ := List.length_eq_one_iff.1
    (le_antisymm (h.wf.truthful i hi).at_most_one (List.length_pos_iff.2 hne))
  rw [hout, List.mem_singleton] at hop
  subst hop
  have hdone : { s.sessions i with
      outstanding := (s.sessions i).outstanding.erase op }.outstanding = [] := by simp [hout]
  refine accounted_fail h hplace hi hdone he rfl ?_ ?_ hown
  · constructor
    · intro x
      simp [he, runs, List.count_append]
    · intro x
      simp [he, deliveries, List.count_append]
    · intro x hx
      simp [he, failedRuns, List.count_append, Ne.symm hx]
  · simp only [he, Option.map_some, Option.toList_some, List.count_append, List.count_singleton,
      failedRuns] at hsum ⊢
    simp
    omega

theorem accounted_idleError {m : ℕ} {s : HttpSubscriber} {place : Request → Place}
    (h : Accounted m s place fun _ => True) {i : ℕ} (hwait : 0 < (s.sessions i).idleWaits)
    (hi : i ∈ s.pool) (hrest : (s.sessions i).outstanding = []) (hown : OwnHandler s i) :
    ∃ place', Accounted m (s.idleWait i true) place' fun _ => True := by
  obtain ⟨e, he⟩ := Option.ne_none_iff_exists'.1 (h.wf.monitored i hi (Nat.ne_of_gt hwait))
  have hplace := (h.holds.session_iff i e).1 he
  obtain ⟨-, -, -, hsum⟩ := hplace ▸ h.account e trivial
  rw [if_neg (not_not.2 hrest)] at hsum
  have halive : s.alive i = true := by simp [HttpSubscriber.alive, hi]
  unfold HttpSubscriber.idleWait
  rw [if_pos rfl, if_pos halive]
  have hrest' : { s.sessions i with
      idleWaits := (s.sessions i).idleWaits - 1 }.outstanding = [] := hrest
  exact accounted_fail h hplace hi hrest' he rfl
    ⟨fun _ => rfl, fun _ => rfl, fun _ _ => rfl⟩ hsum.1 hown

theorem wellFormed_retry {m : ℕ} {s : HttpSubscriber} (h : WellFormed m s) {r : ℕ}
    {retry : RetryRequest} (hfor : retry.madeFor = (s.retryRequests r).madeFor)
    (hpolicy : retry.policy = (s.retryRequests r).policy)
    (hreq : (s.retryRequests r).req = none → retry.req = none)
    (hpend : pending retry ≠ 0 → pending (s.retryRequests r) ≠ 0 ∧ retry.req ≠ none) :
    WellFormed m { s with retryRequests := Function.update s.retryRequests r retry } := by
  have hmade : ∀ q, (Function.update s.retryRequests r retry q).madeFor =
      (s.retryRequests q).madeFor := by
    intro q
    by_cases hqr : q = r
    · rw [hqr, Function.update_self, hfor]
    · rw [Function.update_of_ne hqr]
  refine { h with
    unmade := ?_, made_for := ?_, made_once := ?_, retries := ?_, waiting := ?_ }
  · intro q hq
    obtain ⟨h1, h2, h3⟩ := h.unmade q hq
    by_cases hqr : q = r
    · subst hqr
      simp only [Function.update_self]
      exact ⟨hreq h1, hfor.trans h2, by_contra fun hne => (hpend hne).1 h3⟩
    · simpa [hqr] using ⟨h1, h2, h3⟩
  · intro q hq
    simpa only [hmade] using h.made_for q hq
  · intro q q' x hq hq'
    simp only [hmade] at hq hq'
    exact h.made_once q q' x hq hq'
  · intro q hq
    by_cases hqr : q = r
    · subst hqr
      simpa [hpolicy] using h.retries q hq
    · simpa [hqr] using h.retries q hq
  · intro q hq
    by_cases hqr : q = r
    · subst hqr
      simp only [Function.update_self] at hq ⊢
      exact (hpend hq).2
    · simp only [Function.update_of_ne hqr] at hq ⊢
      exact h.waiting q hq

theorem accounted_timerExpires {m : ℕ} {s : HttpSubscriber} {place : Request → Place}
    (h : Accounted m s place fun _ => True) {r : ℕ} (harmed : (s.retryRequests r).armed) :
    Accounted m (s.modifyRetry r fun retry => { retry with armed := false, due := retry.due + 1 })
      place fun _ => True := by
  have hpend : pending { s.retryRequests r with
      armed := false, due := (s.retryRequests r).due + 1 } = pending (s.retryRequests r) := by
    simp [pending, harmed, Nat.add_comm]
  refine ⟨wellFormed_retry h.wf rfl rfl id ?_, ?_, ?_⟩
  · intro hne
    exact ⟨hpend ▸ hne, h.wf.waiting r (hpend ▸ hne)⟩
  · refine { h.holds with retry_iff := fun q x => ?_ }
    by_cases hqr : q = r
    · subst hqr
      simpa [HttpSubscriber.modifyRetry] using h.holds.retry_iff q x
    · simpa [HttpSubscriber.modifyRetry, hqr] using h.holds.retry_iff q x
  · intro x _
    refine Untouched.account (s := s) ?_ (h.account x trivial)
    refine ⟨rfl, rfl, rfl, rfl, fun _ _ => ⟨Iff.rfl, id⟩, ?_, ?_⟩
    · intro q hq
      by_cases hqr : q = r
      · subst hqr
        simp [HttpSubscriber.modifyRetry, hpend]
      · simp [HttpSubscriber.modifyRetry, hqr]
    · intro q hq _
      by_cases hqr : q = r
      · subst hqr
        simpa [HttpSubscriber.modifyRetry] using hq
      · simpa [HttpSubscriber.modifyRetry, hqr] using hq

theorem accounted_taken {m : ℕ} {s : HttpSubscriber} {place : Request → Place}
    (h : Accounted m s place fun _ => True) {e : Request} {r : ℕ} (hplace : place e = .retry r)
    (retry : RetryRequest) (hfor : retry.madeFor = (s.retryRequests r).madeFor)
    (hpolicy : retry.policy = (s.retryRequests r).policy) (hreq : retry.req = none)
    (hpend : pending retry = 0) :
    Accounted m { s with retryRequests := Function.update s.retryRequests r retry }
      (fun x => if x = e then .nowhere else place x) (· ≠ e) := by
  have hothers : ∀ x, x ≠ e → place x ≠ .retry r := fun x => h.holds.retry_alone hplace
  refine ⟨wellFormed_retry h.wf hfor hpolicy (fun _ => hreq) fun hne => (hne hpend).elim, ?_, ?_⟩
  · constructor
    · intro j x
      change (s.sessions j).req = some x ↔ _
      rw [h.holds.session_iff j x]
      by_cases hx : x = e <;> simp [hx, hplace]
    · intro q x
      by_cases hqr : q = r
      · subst hqr
        by_cases hx : x = e <;> simp [hreq, hx, hothers]
      · simp only [Function.update_of_ne hqr]
        rw [h.holds.retry_iff q x]
        by_cases hx : x = e
        · simp [hx, hplace, Ne.symm hqr]
        · simp [hx]
    · intro x
      change x ∈ s.eventBuffer ↔ _
      rw [h.holds.buffer_iff x]
      by_cases hx : x = e <;> simp [hx, hplace]
  · intro x hx
    simp only [if_neg hx]
    refine Untouched.account (s := s) ?_ (h.account x trivial)
    refine ⟨rfl, rfl, rfl, rfl, fun _ _ => ⟨Iff.rfl, id⟩, ?_, ?_⟩
    · intro q hq
      have hqr : q ≠ r := fun heq => hothers x hx (heq ▸ hq)
      simp [hqr]
    · intro q hq _
      by_cases hqr : q = r
      · subst hqr
        simp only [Function.update_self] at hq ⊢
        exact ⟨hfor ▸ hq, hpolicy⟩
      · simpa [hqr] using hq

theorem accounted_timerHandler {m : ℕ} {s : HttpSubscriber} {place : Request → Place}
    (h : Accounted m s place fun _ => True) {r : ℕ} (hdue : 0 < (s.retryRequests r).due)
    (hfound : SessionFound s .sendEvent) : ∃ place', Accounted m
      ((s.modifyRetry r fun retry => { retry with due := retry.due - 1 }).retryFunction r)
      place' fun _ => True := by
  have hpend : pending (s.retryRequests r) ≠ 0 := by
    unfold pending
    omega
  obtain ⟨e, he⟩ := Option.ne_none_iff_exists'.1 (h.wf.waiting r hpend)
  have hplace := (h.holds.retry_iff r e).1 he
  obtain ⟨hlt, hfor, hsum, hcharge⟩ := hplace ▸ h.account e trivial
  obtain ⟨hone, hcount, hle⟩ := hcharge.resolve_right fun hc => hpend hc.1
  have htaken := accounted_taken h hplace { s.retryRequests r with
    due := (s.retryRequests r).due - 1, req := none } rfl rfl rfl (by
      unfold pending at hone ⊢
      dsimp only
      omega)
  obtain ⟨i, hi⟩ := Option.isSome_iff_exists.1
    ((acquire_isSome_iff s (.handleRetryResponse r)).2 hfound)
  have hacq := acquire_modifyRetry s (.handleRetryResponse r) r fun retry =>
    { retry with due := retry.due - 1, req := none }
  rw [hi] at hacq
  have hsame : (s.acquire (.handleRetryResponse r)).1.retryRequests = s.retryRequests := by
    unfold HttpSubscriber.acquire
    split
    · rfl
    · split_ifs <;> rfl
  have hfun : (s.modifyRetry r fun retry => { retry with due := retry.due - 1 }).retryFunction r =
      ((s.acquire (.handleRetryResponse r)).1.modifyRetry r fun retry =>
        { retry with due := retry.due - 1, req := none }).runSession i (some e) := by
    unfold HttpSubscriber.retryFunction
    rw [acquire_modifyRetry, hi]
    simp [HttpSubscriber.modifyRetry, hsame, he]
  rw [hfun]
  obtain ⟨hacc, hpool, hfree, hretries, hnext, hlog⟩ := accounted_acquire htaken hacq
  generalize (s.acquire (.handleRetryResponse r)).1.modifyRetry r (fun retry =>
    { retry with due := retry.due - 1, req := none }) = u at *
  have hruns : runs u e = runs s e := by rw [runs, hlog]; rfl
  refine accounted_runSession hacc (if_pos rfl) hpool hfree (hnext ▸ hlt) (hruns ▸ hle) ?_ ?_
  · rw [hruns, hsum, failedRuns, failedRuns, deliveries, deliveries, hlog]
  · intro q hq
    rw [hretries] at hq ⊢
    by_cases hqr : q = r
    · subst hqr
      simpa [hruns] using hcount
    · simp only [Function.update_of_ne hqr] at hq
      exact (hqr (h.wf.made_once q r e hq hfor)).elim

theorem accounted_next {m : ℕ} {s : HttpSubscriber} {place : Request → Place}
    (h : Accounted m s place fun _ => True) : place s.nextEvent = .nowhere ∧
      Accounted m { s with nextEvent := s.nextEvent + 1 } place (· ≠ s.nextEvent) := by
  constructor
  · have ha := h.account s.nextEvent trivial
    rcases hp : place s.nextEvent with _ | _ | i | r <;> rw [hp] at ha
    all_goals exact (lt_irrefl _ ha.1).elim
  · refine ⟨{ h.wf with }, { h.holds with }, fun x hx => ?_⟩
    have ha := h.account x trivial
    rcases hp : place x with _ | _ | i | r <;> rw [hp] at ha
    · exact ⟨ha.1, fun hlt => ha.2.1 (lt_of_le_of_ne (Nat.lt_succ_iff.1 hlt) hx),
        fun hge => ha.2.2 (Nat.le_of_succ_le hge)⟩
    all_goals exact ⟨Nat.lt_succ_of_lt ha.1, ha.2⟩

theorem accounted_sendEvent {m : ℕ} {s : HttpSubscriber} {place : Request → Place}
    (h : Accounted m s place fun _ => True)
    (hroom : SessionFound s .sendEvent ∨ s.eventBuffer.length < eventBufferCapacity) :
    ∃ place', Accounted m ({ s with nextEvent := s.nextEvent + 1 }.sendEvent s.nextEvent)
      place' fun _ => True := by
  obtain ⟨hplace, hacc⟩ := accounted_next h
  have hunsent := h.account s.nextEvent trivial
  rw [hplace] at hunsent
  obtain ⟨hruns, hfailed, hdel, hfor⟩ := hunsent.2.2 (le_refl _)
  rcases hacq : { s with nextEvent := s.nextEvent + 1 }.acquire .handleResponse with ⟨u, _ | i⟩
  · obtain ⟨rfl, hfull⟩ := acquire_none hacq
    have hlen : s.eventBuffer.length < eventBufferCapacity := hroom.resolve_left hfull
    have hpush : pushBack s.eventBuffer s.nextEvent = s.eventBuffer ++ [s.nextEvent] := by
      rw [pushBack, Nat.sub_eq_zero_of_le hlen, List.drop_zero]
    rw [sendEvent_none hacq, hpush]
    refine ⟨fun x => if x = s.nextEvent then .buffer else place x, { hacc.wf with }, ?_, ?_⟩
    · constructor
      · intro j x
        refine (hacc.holds.session_iff j x).trans ?_
        by_cases hx : x = s.nextEvent <;> simp [hx, hplace]
      · intro r x
        refine (hacc.holds.retry_iff r x).trans ?_
        by_cases hx : x = s.nextEvent <;> simp [hx, hplace]
      · intro x
        rw [List.mem_append, List.mem_singleton, h.holds.buffer_iff x]
        by_cases hx : x = s.nextEvent <;> simp [hx]
    · intro x _
      by_cases hx : x = s.nextEvent
      · subst hx
        simp only [if_true]
        exact ⟨Nat.lt_succ_self _, hruns⟩
      · simp only [if_neg hx]
        refine Untouched.account (s := { s with nextEvent := s.nextEvent + 1 }) ?_
          (hacc.account x hx)
        exact ⟨rfl, rfl, rfl, rfl, fun _ _ => ⟨Iff.rfl, id⟩, fun _ _ => ⟨rfl, rfl, rfl⟩,
          fun q hq _ => ⟨hq, rfl⟩⟩
  · obtain ⟨hacc', hpool, hfree, hretries, hnext, hlog⟩ := accounted_acquire hacc hacq
    have hruns' : runs u s.nextEvent = 0 := by rw [runs, hlog]; exact hruns
    have hfailed' : failedRuns u s.nextEvent = 0 := by rw [failedRuns, hlog]; exact hfailed
    have hdel' : deliveries u s.nextEvent = 0 := by rw [deliveries, hlog]; exact hdel
    rw [sendEvent_some hacq]
    refine accounted_runSession hacc' hplace hpool hfree ?_ (hruns' ▸ Nat.zero_le m) ?_ ?_
    · rw [hnext]
      exact Nat.lt_succ_self _
    · rw [hruns', hfailed', hdel']
    · intro r hr
      rw [hretries] at hr
      exact (hfor r hr).elim

theorem accounted_step {m : ℕ} {s s' : HttpSubscriber} {event : Event} {place : Request → Place}
    (h : Accounted m s place fun _ => True) (hguard : ChargesOwn s event)
    (hstep : s.step event = some s') : ∃ place', Accounted m s' place' fun _ => True := by
  cases steps_of_step hstep with
  | sendEvent => exact accounted_sendEvent h hguard
  | succeeds keepAlive hop => exact ⟨place, accounted_succeeds h keepAlive hop⟩
  | fails hop => exact accounted_fails h hop hguard
  | @idleWait i error hwait =>
    cases error with
    | true => exact accounted_idleError h hwait hguard.1 hguard.2.1 hguard.2.2
    | false => exact ⟨place, accounted_idle h rfl rfl rfl (Nat.sub_le _ _)⟩
  | shutDown hshut => exact ⟨place, accounted_idle h rfl rfl rfl (le_refl _)⟩
  | timerExpires harmed => exact ⟨place, accounted_timerExpires h harmed⟩
  | timerHandler hdue => exact accounted_timerHandler h hdue hguard

theorem accounted_start (poolSize m : ℕ) (retryDelay : ℕ) :
    Accounted m (start poolSize { maxRetries := m, retryDelay }) (fun _ => .nowhere)
      fun _ => True := by
  refine ⟨?_, ⟨fun _ _ => by simp [start], fun _ _ => by simp [start], fun _ => by simp [start]⟩,
    fun e _ => ?_⟩
  · constructor <;> simp [start, pending]
  · simp [Account, runs, failedRuns, deliveries, start]

/-- In a run whose failures are all charged to their own events, no event is
run more than `1 + m` times, and none is given up before `1 + m` runs failed. -/
theorem counted_of_charges_own (poolSize m retryDelay : ℕ) {events : List Event}
    (h : Guarded HttpSubscriber.step ChargesOwn
      (start poolSize { maxRetries := m, retryDelay }) events) :
    Always HttpSubscriber.step (Counted m)
      (start poolSize { maxRetries := m, retryDelay }) events := by
  refine Always.mono (fun s hs => ?_) (always_of_guarded
    (I := fun s => ∃ place, Accounted m s place fun _ => True) ?_
    ⟨_, accounted_start poolSize m retryDelay⟩ h)
  · obtain ⟨place, hs⟩ := hs
    exact counted_of_accounted hs
  · rintro s event s' ⟨place, hs⟩ hguard hstep
    exact accounted_step hs hguard hstep

def failures : List Event :=
  [.sendEvent, .fails 0 .resolve, .timerExpires 0, .timerHandler 0, .fails 1 .resolve]

theorem counted_of_charges_own_sample :
    Guarded HttpSubscriber.step ChargesOwn (start 1 { maxRetries := 1 }) failures ∧
      Always HttpSubscriber.step (Counted 1) (start 1 { maxRetries := 1 }) failures := by
  have h : Guarded HttpSubscriber.step ChargesOwn (start 1 { maxRetries := 1 }) failures := by
    intro s hs
    obtain rfl := Option.some.inj hs
    refine ⟨.inl (.inr (by decide)), fun s hs => ?_⟩
    obtain rfl := Option.some.inj hs
    refine ⟨fun e he => ?_, fun s hs => ?_⟩
    · obtain rfl := Option.some.inj he
      rfl
    obtain rfl := Option.some.inj hs
    refine ⟨trivial, fun s hs => ?_⟩
    obtain rfl := Option.some.inj hs
    refine ⟨.inr (by decide), fun s hs => ?_⟩
    exact ⟨rfl, trivial⟩
  exact ⟨h, counted_of_charges_own 1 1 15 h⟩

/-- The retry of event 0 takes the session of event 1, whose handler starts to
count again. -/
theorem retried_too_often : ∃ s, run HttpSubscriber.step (start 2 { maxRetries := 1 })
    [.sendEvent, .fails 0 .resolve, .sendEvent, .succeeds 1 .resolve true,
      .succeeds 1 .connect true, .succeeds 1 .handshake true, .succeeds 1 .write true,
      .succeeds 1 .read true, .timerExpires 0, .timerHandler 0, .fails 1 .write,
      .timerExpires 1, .timerHandler 1] = some s ∧ 1 + 1 < runs s 0 := by
  exact ⟨_, rfl, by decide⟩

end CrowCore.RetryAccounting
