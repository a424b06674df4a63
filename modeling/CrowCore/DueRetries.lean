import CrowCore.PoolExclusivity
import CrowCore.StrandedEvents

set_option autoImplicit false

/-!
# Sessions for due retries

The slot of a failed session is open to any event during the delay of its retry.
A retry finds a session when its timer has expired if no step takes the last place
of the pool while a retry is pending. Where one does, the timer is enough to make
the retry find none.
-/
namespace CrowCore.DueRetries
open GuardedRuns ClientSession SessionStates Subscriber PoolExclusivity StrandedEvents

/-- A retry that runs gets a session from the pool. -/
def RetryFinds (s : HttpSubscriber) : Event → Prop
  | .timerHandler r => (s.acquire (.handleRetryResponse r)).2.isSome
  | _ => True

/-- The requests that the pool can take at once. -/
def free (s : HttpSubscriber) : ℕ :=
  (s.pool.countP fun i => !(s.sessions i).inUse) + (s.poolSize - s.pool.length)

def Pending (s : HttpSubscriber) : Prop :=
  ∃ r, (s.retryRequests r).armed ∨ 0 < (s.retryRequests r).due

/-- A failure of the session starts the timer of a retry. -/
def Retries (s : HttpSubscriber) (i : ℕ) : Prop :=
  match (s.sessions i).responseHandler with
  | none => False
  | some .handleResponse => s.retryPolicy.retryNeeded
  | some (.handleRetryResponse r) => (s.retryRequests r).policy.retryNeeded

/-- The step leaves a place to the retries that are pending after it. A session that fails
gives its own place back, unless it has left the pool before. -/
def LeavesPlace (s : HttpSubscriber) : Event → Prop
  | .sendEvent => Pending s → 2 ≤ free s
  | .timerHandler r =>
    Pending (s.modifyRetry r fun retry => { retry with due := retry.due - 1 }) → 2 ≤ free s
  | .fails i _ => i ∉ s.pool → Retries s i → 1 ≤ free s
  | .idleWait i error => error → s.alive i → i ∉ s.pool → Retries s i → 1 ≤ free s
  | _ => True

def PlaceLeft (s : HttpSubscriber) : Prop := Pending s → 0 < free s

theorem found_iff_free (s : HttpSubscriber) (handler : ResponseHandler) :
    (s.acquire handler).2.isSome ↔ 0 < free s := by
  rw [acquire_isSome_iff, free, Nat.add_pos_iff_pos_or_pos, List.countP_pos_iff, Nat.sub_pos_iff_lt,
    List.find?_isSome]

theorem countP_change {l : List ℕ} (hl : l.Nodup) {i : ℕ} (hi : i ∈ l) {p q : ℕ → Bool} (hp : p i)
    (hq : q i = false) (hsame : ∀ j, j ≠ i → q j = p j) : l.countP q + 1 = l.countP p := by
  have hperm := List.perm_cons_erase hi
  have hrest : (l.erase i).countP q = (l.erase i).countP p := by
    refine List.countP_congr fun j hj => ?_
    rw [hsame j ((List.Nodup.mem_erase_iff hl).1 hj).1]
  rw [hperm.countP_eq, hperm.countP_eq, List.countP_cons, List.countP_cons, hrest, hp, hq]
  simp

theorem inUse_run {R H : Type} {session : HttpSession R H} (hfree : session.inUse = false)
    (req : Option R) : (session.run req).inUse := by
  obtain ⟨op, state, heq⟩ := run_starts hfree req
  rw [heq]
  rfl

theorem free_run {s u v : HttpSubscriber} (h : Pooled s) {handler : ResponseHandler} {i : ℕ}
    (hacq : s.acquire handler = (u, some i)) (hsessions : v.sessions = u.sessions)
    (hpool : v.pool = u.pool) (hsize : v.poolSize = u.poolSize) (req : Option Request) :
    free (v.runSession i req) + 1 = free s := by
  have hself : ∀ j, ((v.runSession i req).sessions j).inUse =
      if j = i then ((u.sessions i).run req).inUse else (u.sessions j).inUse := by
    intro j
    by_cases hji : j = i
    · rw [hji, runSession_self, hsessions, if_pos rfl]
    · rw [runSession_other v req hji, hsessions, if_neg hji]
  have hfree : free (v.runSession i req) =
      (u.pool.countP fun j => !((v.runSession i req).sessions j).inUse) +
        (u.poolSize - u.pool.length) := by
    rw [← hpool, ← hsize]
    rfl
  rw [hfree]
  rcases acquire_some hacq with ⟨hi, hnot, rfl⟩ | ⟨rfl, rfl⟩
  · have hcount := countP_change h.pool_nodup hi (p := fun j => !(u.sessions j).inUse)
      (q := fun j => !((v.runSession i req).sessions j).inUse) (by simp [hnot])
      (by rw [hself, if_pos rfl, inUse_run hnot]; rfl)
      (fun j hj => by simp [hself, hj])
    unfold free
    omega
  · have hnew : ∀ j ∈ s.pool, j ≠ s.created := fun j hj => Nat.ne_of_lt (h.pool_lt j hj)
    obtain ⟨hu, -, hnot, -⟩ := h.acquire hacq
    have hlen := hu.pool_length
    simp only [List.length_append, List.length_singleton] at hlen
    have hcount : (s.pool.countP fun j => !((v.runSession s.created req).sessions j).inUse) =
        s.pool.countP fun j => !(s.sessions j).inUse := by
      refine List.countP_congr fun j hj => ?_
      simp [hself, hnew j hj]
    have hlast : ((v.runSession s.created req).sessions s.created).inUse = true := by
      rw [hself, if_pos rfl, inUse_run hnot]
    unfold free
    simp only [List.countP_append, List.countP_singleton, List.length_append,
      List.length_singleton, hcount, hlast]
    simp
    omega

theorem free_modifySession {s : HttpSubscriber} {i : ℕ} {f : Session → Session}
    (h : (s.sessions i).inUse = false → (f (s.sessions i)).inUse = false) :
    free s ≤ free (s.modifySession i f) := by
  refine Nat.add_le_add_right (List.countP_mono_left fun j _ hj => ?_) _
  by_cases hji : j = i
  · subst hji
    simpa [HttpSubscriber.modifySession] using h (by simpa using hj)
  · simpa [HttpSubscriber.modifySession, hji] using hj

theorem free_busy {s : HttpSubscriber} {i : ℕ} {f : Session → Session}
    (h : (f (s.sessions i)).inUse = (s.sessions i).inUse) :
    free (s.modifySession i f) = free s := by
  have hsame : ∀ j, ((s.modifySession i f).sessions j).inUse = (s.sessions j).inUse := by
    intro j
    by_cases hji : j = i
    · rw [hji, modifySession_self, h]
    · rw [modifySession_other s f hji]
  unfold free
  simp only [hsame]
  rfl

theorem free_fail_of_mem {s : HttpSubscriber} (h : Pooled s) {i : ℕ} (hi : i ∈ s.pool) :
    0 < free (s.fail i) := by
  have hr := reported_fail s i
  have hlen := List.length_erase_of_mem hi
  have hpos := List.length_pos_of_mem hi
  have hle := h.pool_length
  unfold free
  rw [hr.poolSize_eq, hr.pool_eq, if_pos (h.handled i hi)]
  omega

theorem free_fail_of_notMem {s : HttpSubscriber} {i : ℕ} (hi : i ∉ s.pool) :
    free (s.fail i) = free s := by
  have hr := reported_fail s i
  have hpool : (s.fail i).pool = s.pool := by
    rw [hr.pool_eq]
    split_ifs
    · exact List.erase_of_not_mem hi
    · rfl
  have hcount : (s.pool.countP fun j => !((s.fail i).sessions j).inUse) =
      s.pool.countP fun j => !(s.sessions j).inUse := by
    refine List.countP_congr fun j hj => ?_
    rw [hr.others j fun heq => hi (heq ▸ hj)]
  rw [free, hpool, hr.poolSize_eq, hcount, free]

theorem pending_waitAndRetry (s : HttpSubscriber) (r : ℕ) :
    Pending (s.waitAndRetry r) ↔ Pending s ∨ (s.retryRequests r).policy.retryNeeded := by
  unfold HttpSubscriber.waitAndRetry
  split_ifs with hneeded
  · refine iff_of_true ⟨r, .inl ?_⟩ (.inr hneeded)
    simp [HttpSubscriber.modifyRetry]
  · exact (or_iff_left hneeded).symm

theorem Pending.of_update {s s' : HttpSubscriber} {r : ℕ} {retry : RetryRequest}
    (hupdate : s'.retryRequests = Function.update s.retryRequests r retry)
    (hidle : retry.armed = true ∨ 0 < retry.due → Pending s) (h : Pending s') : Pending s := by
  obtain ⟨q, hq⟩ := h
  rw [hupdate] at hq
  by_cases hqr : q = r
  · rw [hqr, Function.update_self] at hq
    exact hidle hq
  · rw [Function.update_of_ne hqr] at hq
    exact ⟨q, hq⟩

theorem Pending.of_fail {s : HttpSubscriber} {i : ℕ} (h : Pending (s.fail i)) :
    Pending s ∨ Retries s i := by
  change Pending (s.respond i .error) at h
  unfold Retries
  unfold HttpSubscriber.respond at h
  generalize (s.sessions i).responseHandler = handler at h ⊢
  rcases handler with - | - | r
  · exact .inl h
  · simp only [HttpSubscriber.handleResponse, HttpSubscriber.retryIfNeeded] at h
    split_ifs at h with hneeded
    · exact .inl h
    · rw [pending_waitAndRetry] at h
      refine h.imp (fun h => ?_) fun _ => by simpa [HttpSubscriber.release] using hneeded
      exact h.of_update rfl (by simp)
  · simp only [HttpSubscriber.handleRetryResponse] at h
    rw [pending_waitAndRetry] at h
    refine h.imp (fun h => ?_) fun hneeded => ?_
    · have hupdate : (((s.modifySession i fun _ => (s.sessions i).takeRequest.2).modifyRetry r
          fun retry =>
            { retry with req := (s.sessions i).takeRequest.1 }).release i).retryRequests =
            Function.update s.retryRequests r
              { s.retryRequests r with req := (s.sessions i).takeRequest.1 } := rfl
      exact h.of_update hupdate fun hwaits => ⟨r, hwaits⟩
    · simpa [HttpSubscriber.release, HttpSubscriber.modifyRetry, HttpSubscriber.modifySession]
        using hneeded

theorem pending_fail_of_retries {s : HttpSubscriber} {i : ℕ} (h : Retries s i) :
    Pending (s.fail i) := by
  change Pending (s.respond i .error)
  unfold Retries at h
  unfold HttpSubscriber.respond
  generalize (s.sessions i).responseHandler = handler at h ⊢
  rcases handler with - | - | r
  · exact h.elim
  · simp only [HttpSubscriber.handleResponse, HttpSubscriber.retryIfNeeded]
    rw [if_neg (by simpa [HttpSubscriber.release] using h), pending_waitAndRetry]
    refine .inr ?_
    simpa [HttpSubscriber.release] using h
  · simp only [HttpSubscriber.handleRetryResponse]
    rw [pending_waitAndRetry]
    refine .inr ?_
    simpa [HttpSubscriber.release, HttpSubscriber.modifyRetry, HttpSubscriber.modifySession] using h

theorem retries_modifySession {s : HttpSubscriber} {i : ℕ} {f : Session → Session}
    (h : (f (s.sessions i)).responseHandler = (s.sessions i).responseHandler) :
    Retries (s.modifySession i f) i ↔ Retries s i := by
  unfold Retries
  rw [modifySession_self, h]
  rfl

theorem PlaceLeft.of_le {s s' : HttpSubscriber} (h : PlaceLeft s)
    (hpending : Pending s' → Pending s) (hfree : free s ≤ free s') : PlaceLeft s' :=
  fun hs' => (h (hpending hs')).trans_le hfree

theorem placeLeft_sendEvent_iff {s : HttpSubscriber} (h : Pooled s) (hleft : PlaceLeft s)
    (event : Request) : PlaceLeft (s.sendEvent event) ↔ (Pending s → 2 ≤ free s) := by
  rcases hacq : s.acquire .handleResponse with ⟨u, _ | i⟩
  · obtain rfl := acquire_same hacq
    have hnone : ¬ 0 < free u := by
      rw [← found_iff_free u .handleResponse, hacq]
      simp
    have hquiet : ¬ Pending u := fun hpending => hnone (hleft hpending)
    rw [sendEvent_none hacq]
    exact iff_of_true (fun hpending => (hquiet hpending).elim) fun hpending =>
      (hquiet hpending).elim
  · have hfree := free_run h hacq rfl rfl rfl (some event)
    have hpending : Pending (u.runSession i (some event)) ↔ Pending s := by
      unfold Pending
      rw [← acquire_retryRequests hacq]
      rfl
    rw [sendEvent_some hacq, PlaceLeft, hpending]
    refine imp_congr_right fun _ => ?_
    omega

theorem placeLeft_retryFunction_iff {s : HttpSubscriber} (h : Pooled s) {r : ℕ}
    (hfound : 0 < free s) : PlaceLeft (s.retryFunction r) ↔ (Pending s → 2 ≤ free s) := by
  rcases hacq : s.acquire (.handleRetryResponse r) with ⟨u, _ | i⟩
  · have hsome := (found_iff_free s (.handleRetryResponse r)).2 hfound
    rw [hacq] at hsome
    cases hsome
  · have hfun : s.retryFunction r = (u.modifyRetry r fun retry =>
        { retry with req := none }).runSession i (u.retryRequests r).req := by
      rw [HttpSubscriber.retryFunction, hacq]
    have hfree := free_run (v := u.modifyRetry r fun retry => { retry with req := none }) h hacq
      rfl rfl rfl (u.retryRequests r).req
    have hpending : Pending (s.retryFunction r) ↔ Pending s := by
      have hsame := acquire_retryRequests hacq
      rw [hfun]
      refine exists_congr fun q => ?_
      by_cases hqr : q = r
      · subst hqr
        simp [HttpSubscriber.runSession, HttpSubscriber.modifySession, HttpSubscriber.modifyRetry,
          hsame]
      · simp [HttpSubscriber.runSession, HttpSubscriber.modifySession, HttpSubscriber.modifyRetry,
          hsame, hqr]
    rw [PlaceLeft, hpending]
    refine imp_congr_right fun _ => ?_
    rw [← hfun] at hfree
    omega

theorem placeLeft_fail_iff {s : HttpSubscriber} (h : Pooled s) (hleft : PlaceLeft s) (i : ℕ) :
    PlaceLeft (s.fail i) ↔ (i ∉ s.pool → Retries s i → 1 ≤ free s) := by
  by_cases hi : i ∈ s.pool
  · exact iff_of_true (fun _ => free_fail_of_mem h hi) fun hnot => (hnot hi).elim
  · rw [PlaceLeft, free_fail_of_notMem hi]
    constructor
    · exact fun hs _ hretries => hs (pending_fail_of_retries hretries)
    · intro hs hpending
      rcases hpending.of_fail with hold | hretries
      · exact hleft hold
      · exact hs hi hretries

theorem placeLeft_step_iff {s s' : HttpSubscriber} {event : Event} (h : Pooled s)
    (hleft : PlaceLeft s) (hstep : s.step event = some s') :
    PlaceLeft s' ↔ LeavesPlace s event := by
  cases steps_of_step hstep with
  | sendEvent =>
    have hnext : Pooled { s with nextEvent := s.nextEvent + 1 } := { h with }
    exact placeLeft_sendEvent_iff hnext hleft s.nextEvent
  | @succeeds i op keepAlive hop =>
    refine iff_of_true ?_ trivial
    have hbusy := (h.engaged i).inUse (List.ne_nil_of_mem hop)
    have hfree : free s ≤ free (s.modifySession i (·.complete op keepAlive)) := by
      refine free_modifySession fun hfree => ?_
      rw [hbusy] at hfree
      cases hfree
    unfold HttpSubscriber.succeeds
    dsimp only
    split_ifs
    · exact hleft.of_le id hfree
    · exact hleft.of_le id hfree
  | @fails i op hop =>
    have hfree : free (s.modifySession i fun session =>
        { session with outstanding := session.outstanding.erase op }) = free s := free_busy rfl
    have hretries : Retries (s.modifySession i fun session =>
        { session with outstanding := session.outstanding.erase op }) i ↔ Retries s i :=
      retries_modifySession rfl
    have hfail := placeLeft_fail_iff (pooled_failing h hop) (hleft.of_le id hfree.ge) i
    exact hfail.trans (forall_congr' fun _ => imp_congr hretries (iff_of_eq (by rw [← hfree]; rfl)))
  | @idleWait i error hwait =>
    have hfree : free (s.modifySession i fun session =>
        { session with idleWaits := session.idleWaits - 1 }) = free s := free_busy rfl
    have hretries : Retries (s.modifySession i fun session =>
        { session with idleWaits := session.idleWaits - 1 }) i ↔ Retries s i :=
      retries_modifySession rfl
    have hfail := placeLeft_fail_iff (pooled_waited h i) (hleft.of_le id hfree.ge) i
    rw [hfree, hretries] at hfail
    unfold HttpSubscriber.idleWait LeavesPlace
    dsimp only
    split_ifs with herror halive
    · rw [hfail]
      exact ⟨fun hs _ _ => hs, fun hs => hs herror halive⟩
    · exact iff_of_true (hleft.of_le id hfree.ge) fun _ ha => (halive ha).elim
    · exact iff_of_true (hleft.of_le id hfree.ge) fun he => (herror he).elim
  | @shutDown i hshut => exact iff_of_true (hleft.of_le id (free_busy rfl).ge) trivial
  | @timerExpires r harmed =>
    refine iff_of_true (hleft.of_le (fun hs => hs.of_update rfl fun _ => ⟨r, .inl harmed⟩) ?_)
      trivial
    exact le_refl _
  | @timerHandler r hdue =>
    have hrun : Pooled (s.modifyRetry r fun retry => { retry with due := retry.due - 1 }) :=
      { h with }
    exact placeLeft_retryFunction_iff hrun (hleft ⟨r, .inr hdue⟩)

theorem retryFinds_of_placeLeft {s s' : HttpSubscriber} {event : Event} (hleft : PlaceLeft s)
    (hstep : s.step event = some s') : RetryFinds s event := by
  cases steps_of_step hstep with
  | timerHandler hdue => exact (found_iff_free s _).2 (hleft ⟨_, .inr hdue⟩)
  | _ => trivial

theorem fault_fail (s : HttpSubscriber) (i : ℕ) : (s.fail i).fault = s.fault := by
  have hwait : ∀ (s : HttpSubscriber) (r : ℕ), (s.waitAndRetry r).fault = s.fault := by
    intro s r
    unfold HttpSubscriber.waitAndRetry
    split_ifs <;> rfl
  change (s.respond i .error).fault = s.fault
  unfold HttpSubscriber.respond
  split
  · rfl
  · simp only [HttpSubscriber.handleResponse, HttpSubscriber.retryIfNeeded]
    split_ifs
    · rfl
    · exact hwait _ _
  · exact hwait _ _

theorem fault_sendEvent (s : HttpSubscriber) (event : Request) :
    (s.sendEvent event).fault = s.fault := by
  rcases hacq : s.acquire .handleResponse with ⟨u, _ | i⟩
  · rw [sendEvent_none hacq, acquire_same hacq]
  · rw [sendEvent_some hacq]
    rcases acquire_some hacq with ⟨-, -, rfl⟩ | ⟨-, rfl⟩ <;> rfl

theorem fault_retryFunction {s : HttpSubscriber} {r : ℕ} (hfound : 0 < free s) :
    (s.retryFunction r).fault = s.fault := by
  unfold HttpSubscriber.retryFunction
  rcases hacq : s.acquire (.handleRetryResponse r) with ⟨u, _ | i⟩
  · have hsome := (found_iff_free s (.handleRetryResponse r)).2 hfound
    rw [hacq] at hsome
    cases hsome
  · rcases acquire_some hacq with ⟨-, -, rfl⟩ | ⟨-, rfl⟩ <;> rfl

theorem fault_of_step {s s' : HttpSubscriber} {event : Event} (h : s.step event = some s') :
    s.fault = false := by
  unfold HttpSubscriber.step at h
  split_ifs at h with hfault
  exact Bool.eq_false_of_not_eq_true hfault

/-- A step that takes the last place uses no session that is null or destroyed itself. -/
theorem fault_of_not_leaves {s s' : HttpSubscriber} {event : Event} (hleft : PlaceLeft s)
    (hstep : s.step event = some s') (hnot : ¬ LeavesPlace s event) : s'.fault = false := by
  have hfault := fault_of_step hstep
  cases steps_of_step hstep with
  | sendEvent => exact (fault_sendEvent _ _).trans hfault
  | succeeds keepAlive hop => exact absurd trivial hnot
  | fails hop => exact (fault_fail _ _).trans hfault
  | @idleWait i error hwait =>
    unfold HttpSubscriber.idleWait
    dsimp only
    split_ifs with herror halive
    · exact (fault_fail _ _).trans hfault
    · exact absurd (fun _ ha => absurd ha halive) hnot
    · exact hfault
  | shutDown hshut => exact absurd trivial hnot
  | timerExpires harmed => exact absurd trivial hnot
  | @timerHandler r hdue =>
    have hfound : 0 < free (s.modifyRetry r fun retry => { retry with due := retry.due - 1 }) :=
      hleft ⟨r, .inr hdue⟩
    exact (fault_retryFunction hfound).trans hfault

theorem not_finds_of_not_leaves {s s' : HttpSubscriber} {event : Event} (h : Pooled s)
    (hleft : PlaceLeft s) (hstep : s.step event = some s') (hnot : ¬ LeavesPlace s event) :
    ∃ r, ¬ Guarded HttpSubscriber.step RetryFinds s' [.timerHandler r] ∨
      ¬ Guarded HttpSubscriber.step RetryFinds s' [.timerExpires r, .timerHandler r] := by
  have hfault := fault_of_not_leaves hleft hstep hnot
  rw [← placeLeft_step_iff h hleft hstep, PlaceLeft, Classical.not_imp] at hnot
  obtain ⟨⟨r, hr⟩, hfull⟩ := hnot
  have hnone : ∀ t : HttpSubscriber, free t = free s' → t.fault = false →
      0 < (t.retryRequests r).due →
        ¬ Guarded HttpSubscriber.step RetryFinds t [.timerHandler r] := by
    intro t hfree hfault hdue hguarded
    have hstep : t.step (.timerHandler r) = some ((t.modifyRetry r fun retry =>
        { retry with due := retry.due - 1 }).retryFunction r) := by
      rw [HttpSubscriber.step, if_neg (by simp [hfault])]
      exact if_pos hdue
    have hfinds := (hguarded _ hstep).1
    exact hfull (hfree ▸ (found_iff_free t _).1 hfinds)
  by_cases hdue : 0 < (s'.retryRequests r).due
  · exact ⟨r, .inl (hnone s' rfl hfault hdue)⟩
  · have harmed := hr.resolve_right hdue
    have hexpires : s'.step (.timerExpires r) = some (s'.modifyRetry r fun retry =>
        { retry with armed := false, due := retry.due + 1 }) := by
      rw [HttpSubscriber.step, if_neg (by simp [hfault])]
      exact if_pos harmed
    have hfails := hnone (s'.modifyRetry r fun retry =>
      { retry with armed := false, due := retry.due + 1 }) rfl hfault
      (by simp [HttpSubscriber.modifyRetry])
    exact ⟨r, .inr fun hguarded => hfails (hguarded _ hexpires).2⟩

theorem placeLeft_start (poolSize : ℕ) (retryPolicy : RetryPolicy) :
    PlaceLeft (start poolSize retryPolicy) := by
  rintro ⟨r, harmed | hdue⟩
  · cases harmed
  · exact absurd hdue (lt_irrefl 0)

theorem always_placeLeft (poolSize : ℕ) (retryPolicy : RetryPolicy) {events : List Event}
    (h : Guarded HttpSubscriber.step LeavesPlace (start poolSize retryPolicy) events) :
    Always HttpSubscriber.step (fun s => Pooled s ∧ PlaceLeft s) (start poolSize retryPolicy)
      events := by
  refine always_of_guarded ?_ ⟨pooled_start poolSize retryPolicy,
    placeLeft_start poolSize retryPolicy⟩ h
  intro s event s' ⟨hpooled, hleft⟩ hleaves hstep
  exact ⟨pooled_step hpooled hstep, (placeLeft_step_iff hpooled hleft hstep).2 hleaves⟩

/-- Every retry of a run finds a session if every step leaves a place to the retries that are
pending after it. From a step that does not, the timer alone leads to a retry that finds none. -/
theorem retries_find_of_leavesPlace (poolSize : ℕ) (retryPolicy : RetryPolicy) {events : List Event}
    (h : Guarded HttpSubscriber.step LeavesPlace (start poolSize retryPolicy) events) :
    Guarded HttpSubscriber.step RetryFinds (start poolSize retryPolicy) events ∧
      ∀ s event s', run HttpSubscriber.step (start poolSize retryPolicy) events = some s →
        s.step event = some s' → ¬ LeavesPlace s event →
          ∃ r, ¬ Guarded HttpSubscriber.step RetryFinds s' [.timerHandler r] ∨
            ¬ Guarded HttpSubscriber.step RetryFinds s' [.timerExpires r, .timerHandler r] := by
  have halways := always_placeLeft poolSize retryPolicy h
  constructor
  · refine h.imp (fun s event s' hs _ hstep => ?_) halways
    exact retryFinds_of_placeLeft hs.2 hstep
  · intro s event s' hrun hstep hnot
    obtain ⟨hpooled, hleft⟩ := halways.last hrun
    exact not_finds_of_not_leaves hpooled hleft hstep hnot

def sampleEvents : List Event :=
  [.sendEvent, .fails 0 .resolve, .sendEvent, .timerExpires 0, .timerHandler 0]

theorem retries_find_of_leavesPlace_sample :
    (run HttpSubscriber.step (start 3 {}) sampleEvents).map (fun s => s.fault) = some false ∧
      Guarded HttpSubscriber.step RetryFinds (start 3 {}) sampleEvents := by
  refine ⟨rfl, (retries_find_of_leavesPlace 3 {} ?_).1⟩
  intro s₁ h₁
  obtain rfl := Option.some.inj h₁
  refine ⟨fun _ => by decide, fun s₂ h₂ => ?_⟩
  obtain rfl := Option.some.inj h₂
  refine ⟨fun hi => absurd (by decide) hi, fun s₃ h₃ => ?_⟩
  obtain rfl := Option.some.inj h₃
  refine ⟨fun _ => by decide, fun s₄ h₄ => ?_⟩
  obtain rfl := Option.some.inj h₄
  exact ⟨trivial, fun s₅ _ => ⟨fun _ => by decide, trivial⟩⟩

/-- With one session, an event takes it during the delay of a retry. -/
theorem due_retry_finds_none :
    let events : List Event :=
      [.sendEvent, .fails 0 .resolve, .sendEvent, .timerExpires 0, .timerHandler 0]
    ¬ Guarded HttpSubscriber.step RetryFinds (start 1 {}) events ∧
      (run HttpSubscriber.step (start 1 {}) events).map (fun s => s.fault) = some true := by
  intro events
  refine ⟨fun h => ?_, rfl⟩
  obtain ⟨-, h⟩ := h _ rfl
  obtain ⟨-, h⟩ := h _ rfl
  obtain ⟨-, h⟩ := h _ rfl
  obtain ⟨-, h⟩ := h _ rfl
  obtain ⟨hfinds, -⟩ := h _ rfl
  cases hfinds

end CrowCore.DueRetries
