import CrowCore.PoolExclusivity

set_option autoImplicit false

/-!
# Delivered events

The request of an event is at one place at a time: with the session of its
exchange, or with the retry request whose timer is pending. A session that has
read the response keeps the request, and only an error of its idle wait can send
it again.
-/
namespace CrowCore.DeliveredOnce
open GuardedRuns ClientSession SessionStates Subscriber PoolExclusivity

/-- Nothing that was delivered is run later. -/
def Settled (log : List LogEntry) : Prop :=
  log.Pairwise fun a b => ∀ e, a = .delivered e → b ≠ .run e

def Waiting (retry : RetryRequest) : Prop := retry.armed ∨ 0 < retry.due

def Retries (s : HttpSubscriber) (i : ℕ) : Prop :=
  match (s.sessions i).responseHandler with
  | none => False
  | some .handleResponse => s.retryPolicy.retryNeeded
  | some (.handleRetryResponse r) =>
    (s.retryRequests r).policy.retryNeeded ∨ Waiting (s.retryRequests r)

/-- No error of an idle wait reaches a session whose request would be retried. -/
def NoneRetried (s : HttpSubscriber) : Event → Prop
  | .idleWait i error => error → s.alive i → (s.sessions i).req ≠ none → ¬Retries s i
  | _ => True

inductive Holder where
  | session (i : ℕ)
  | retry (r : ℕ)

def Holds (s : HttpSubscriber) (e : Request) : Holder → Prop
  | .session i => (s.sessions i).outstanding ≠ [] ∧ (s.sessions i).req = some e
  | .retry r => Waiting (s.retryRequests r) ∧ (s.retryRequests r).req = some e

structure Sole (s : HttpSubscriber) : Prop where
  one_holder : ∀ e p q, Holds s e p → Holds s e q → p = q
  sent : ∀ e p, Holds s e p → e < s.nextEvent
  delivered : ∀ e, .delivered e ∈ s.log → e < s.nextEvent ∧ ∀ p, ¬Holds s e p
  settled : Settled s.log

/-- Sent, not delivered, and with no holder. -/
structure Loose (s : HttpSubscriber) (e : Request) : Prop where
  sent : e < s.nextEvent
  not_delivered : .delivered e ∉ s.log
  not_held : ∀ p, ¬Holds s e p

theorem settled_append {log : List LogEntry} (h : Settled log) {entry : Option LogEntry}
    (hrun : ∀ e, entry = some (.run e) → .delivered e ∉ log) : Settled (log ++ entry.toList) := by
  cases entry with
  | none => simpa using h
  | some entry =>
    refine List.pairwise_append.2 ⟨h, List.pairwise_singleton _ _, fun a ha b hb e hae hbe => ?_⟩
    rw [Option.toList_some, List.mem_singleton] at hb
    exact hrun e (by rw [← hbe, hb]) (hae ▸ ha)

theorem Sole.not_delivered {s : HttpSubscriber} (h : Sole s) {e : Request} {p : Holder}
    (he : Holds s e p) : .delivered e ∉ s.log :=
  fun hd => (h.delivered e hd).2 p he

theorem Sole.shrink {s s' : HttpSubscriber} (h : Sole s)
    (hholds : ∀ e p, Holds s' e p → Holds s e p) (hnext : s.nextEvent ≤ s'.nextEvent)
    (hlog : ∀ e, .delivered e ∈ s'.log → .delivered e ∈ s.log) (hsettled : Settled s'.log) :
    Sole s' where
  one_holder e p q hp hq := h.one_holder e p q (hholds e p hp) (hholds e q hq)
  sent e p hp := (h.sent e p (hholds e p hp)).trans_le hnext
  delivered e he := by
    obtain ⟨hlt, hnone⟩ := h.delivered e (hlog e he)
    exact ⟨hlt.trans_le hnext, fun p hp => hnone p (hholds e p hp)⟩
  settled := hsettled

theorem Sole.assign {s s' : HttpSubscriber} (h : Sole s) {e : Request} {q : Holder}
    (hloose : Loose s e) (hholds : ∀ x p, Holds s' x p → Holds s x p ∨ x = e ∧ p = q)
    (hnext : s.nextEvent ≤ s'.nextEvent)
    (hlog : ∀ x, .delivered x ∈ s'.log → .delivered x ∈ s.log) (hsettled : Settled s'.log) :
    Sole s' where
  one_holder x p p' hp hp' := by
    rcases hholds x p hp with hp | ⟨rfl, rfl⟩
    · rcases hholds x p' hp' with hp' | ⟨rfl, rfl⟩
      · exact h.one_holder x p p' hp hp'
      · exact (hloose.not_held p hp).elim
    · rcases hholds x p' hp' with hp' | ⟨-, rfl⟩
      · exact (hloose.not_held p' hp').elim
      · rfl
  sent x p hp := by
    rcases hholds x p hp with hp | ⟨rfl, -⟩
    · exact (h.sent x p hp).trans_le hnext
    · exact hloose.sent.trans_le hnext
  delivered x hx := by
    obtain ⟨hlt, hnone⟩ := h.delivered x (hlog x hx)
    refine ⟨hlt.trans_le hnext, fun p hp => ?_⟩
    rcases hholds x p hp with hp | ⟨rfl, -⟩
    · exact hnone p hp
    · exact hloose.not_delivered (hlog x hx)
  settled := hsettled

theorem holds_acquire {s s' : HttpSubscriber} {handler : ResponseHandler} {i : ℕ}
    (hacq : s.acquire handler = (s', some i)) {e : Request} {p : Holder} (h : Holds s' e p) :
    Holds s e p := by
  rcases acquire_some hacq with ⟨-, -, rfl⟩ | ⟨-, rfl⟩
  · exact h
  · cases p with
    | session j =>
      by_cases hj : j = s.created
      · subst hj
        simp [Holds] at h
      · simpa [Holds, hj] using h
    | retry r => exact h

theorem holds_runSession {s : HttpSubscriber} {i : ℕ} {req : Option Request} {e : Request}
    {p : Holder} (h : Holds (s.runSession i req) e p) :
    Holds s e p ∨ req = some e ∧ p = .session i := by
  cases p with
  | retry r => exact .inl h
  | session j =>
    by_cases hji : j = i
    · subst hji
      have hreq := h.2
      rw [runSession_self, run_req] at hreq
      exact .inr ⟨hreq, rfl⟩
    · left
      rwa [Holds, runSession_other s req hji] at h

theorem Sole.runSession {s : HttpSubscriber} (h : Sole s) (i : ℕ) {req : Option Request}
    (hloose : ∀ e, req = some e → Loose s e) : Sole (s.runSession i req) := by
  have hlog : ∀ e, .delivered e ∈ (s.runSession i req).log → .delivered e ∈ s.log := by
    intro e he
    rcases List.mem_append.1 he with he | he
    · exact he
    · simp at he
  have hsettled : Settled (s.runSession i req).log := by
    refine settled_append h.settled fun e he => (hloose e ?_).not_delivered
    simpa using he
  cases req with
  | none =>
    refine h.shrink (fun e p hp => ?_) (le_refl _) hlog hsettled
    exact (holds_runSession hp).resolve_right fun hc => by cases hc.1
  | some x =>
    refine h.assign (q := .session i) (hloose x rfl) (fun e p hp => ?_) (le_refl _) hlog hsettled
    exact (holds_runSession hp).imp_right fun hc => ⟨(Option.some.inj hc.1).symm, hc.2⟩

theorem sole_sendEvent {s : HttpSubscriber} (h : Sole s) :
    Sole ({ s with nextEvent := s.nextEvent + 1 }.sendEvent s.nextEvent) := by
  rcases hacq : { s with nextEvent := s.nextEvent + 1 }.acquire .handleResponse with ⟨u, _ | i⟩
  · rw [sendEvent_none hacq]
    obtain rfl := acquire_same hacq
    exact h.shrink (fun _ _ => id) (Nat.le_succ _) (fun _ => id) h.settled
  · rw [sendEvent_some hacq]
    have hlog := acquire_log hacq
    have hnext := acquire_nextEvent hacq
    dsimp only at hlog hnext
    have hu : Sole u := by
      refine h.shrink (fun e p hp => holds_acquire hacq hp) ?_ ?_ ?_
      · rw [hnext]
        exact Nat.le_succ _
      · rw [hlog]
        exact fun _ => id
      · rw [hlog]
        exact h.settled
    refine hu.runSession i fun e he => ?_
    obtain rfl := Option.some.inj he
    refine ⟨?_, fun hd => ?_, fun p hp => ?_⟩
    · rw [hnext]
      exact Nat.lt_succ_self _
    · rw [hlog] at hd
      exact lt_irrefl _ (h.delivered _ hd).1
    · exact lt_irrefl _ (h.sent _ p (holds_acquire hacq hp))

theorem sole_retryFunction {s : HttpSubscriber} (h : Sole s) {r : ℕ}
    (hdue : 0 < (s.retryRequests r).due) :
    Sole ((s.modifyRetry r fun retry => { retry with due := retry.due - 1 }).retryFunction r) := by
  have hwaiting : Waiting (s.retryRequests r) := .inr hdue
  generalize ht : s.modifyRetry r (fun retry => { retry with due := retry.due - 1 }) = t
  have hreq : (t.retryRequests r).req = (s.retryRequests r).req := by
    subst ht
    simp [HttpSubscriber.modifyRetry]
  have hholds : ∀ e p, Holds t e p → Holds s e p := by
    subst ht
    intro e p hp
    cases p with
    | session j => exact hp
    | retry q =>
      by_cases hqr : q = r
      · subst hqr
        exact ⟨hwaiting, hreq ▸ hp.2⟩
      · simpa [Holds, HttpSubscriber.modifyRetry, hqr] using hp
  have hsole : Sole t := by
    subst ht
    exact h.shrink hholds (le_refl _) (fun _ => id) h.settled
  unfold HttpSubscriber.retryFunction
  rcases hacq : t.acquire (.handleRetryResponse r) with ⟨u, _ | i⟩
  · obtain rfl := acquire_same hacq
    exact hsole.shrink (fun _ _ => id) (le_refl _) (fun _ => id) hsole.settled
  · have hlog : u.log = t.log := acquire_log hacq
    have hnext : u.nextEvent = t.nextEvent := acquire_nextEvent hacq
    have htaken : ∀ e p, Holds (u.modifyRetry r fun retry => { retry with req := none }) e p →
        Holds u e p ∧ p ≠ .retry r := by
      intro e p hp
      cases p with
      | session j => exact ⟨hp, Holder.noConfusion⟩
      | retry q =>
        by_cases hqr : q = r
        · subst hqr
          simp [Holds, HttpSubscriber.modifyRetry] at hp
        · exact ⟨by simpa [Holds, HttpSubscriber.modifyRetry, hqr] using hp, by simpa using hqr⟩
    have hu : Sole (u.modifyRetry r fun retry => { retry with req := none }) := by
      refine hsole.shrink (fun e p hp => holds_acquire hacq (htaken e p hp).1) hnext.ge ?_ ?_
      · intro e he
        exact hlog ▸ he
      · exact hlog ▸ hsole.settled
    refine hu.runSession i fun e he => ?_
    rw [acquire_retryRequests hacq, hreq] at he
    have hold : Holds s e (.retry r) := ⟨hwaiting, he⟩
    refine ⟨?_, fun hd => ?_, fun p hp => ?_⟩
    · subst ht
      exact (h.sent e _ hold).trans_eq hnext.symm
    · subst ht
      exact h.not_delivered hold (hlog ▸ hd)
    · obtain ⟨hp, hne⟩ := htaken e p hp
      exact hne (h.one_holder e p _ (hholds e p (holds_acquire hacq hp)) hold)

theorem holds_waitAndRetry {s : HttpSubscriber} {r : ℕ} {e : Request} {p : Holder}
    (h : Holds (s.waitAndRetry r) e p) : Holds s e p ∨
      (s.retryRequests r).policy.retryNeeded ∧ (s.retryRequests r).req = some e ∧
        p = .retry r := by
  unfold HttpSubscriber.waitAndRetry at h
  split_ifs at h with hneeded
  · cases p with
    | session j => exact .inl h
    | retry q =>
      by_cases hqr : q = r
      · subst hqr
        refine .inr ⟨hneeded, ?_, rfl⟩
        simpa [HttpSubscriber.modifyRetry] using h.2
      · left
        simpa [Holds, HttpSubscriber.modifyRetry, hqr] using h
  · exact .inl h

def target (s : HttpSubscriber) (i : ℕ) : Holder :=
  match (s.sessions i).responseHandler with
  | some (.handleRetryResponse r) => .retry r
  | _ => .retry s.made

theorem holds_respond {s : HttpSubscriber} {i : ℕ} {e : Request} {p : Holder}
    (h : Holds (s.respond i .error) e p) : Holds s e p ∨
      (Retries s i ∧ (s.sessions i).req = some e) ∧ p = target s i := by
  unfold HttpSubscriber.respond at h
  unfold Retries target
  split at h
  · exact .inl h
  · rename_i hhandler
    rw [hhandler]
    simp only [HttpSubscriber.handleResponse, HttpSubscriber.retryIfNeeded] at h
    split_ifs at h with hneeded
    · exact .inl h
    · rcases holds_waitAndRetry h with h | ⟨-, hreq, rfl⟩
      · left
        cases p with
        | session j =>
          by_cases hji : j = i
          · subst hji
            simp [Holds, HttpSubscriber.modifySession, HttpSession.takeRequest] at h
          · simpa [Holds, HttpSubscriber.modifySession, HttpSubscriber.release, hji] using h
        | retry q =>
          by_cases hq : q = s.made
          · subst hq
            simp [Holds, Waiting, HttpSubscriber.release] at h
          · simpa [Holds, HttpSubscriber.release, HttpSubscriber.modifySession, hq] using h
      · refine .inr ⟨⟨by simpa [HttpSubscriber.release] using hneeded, ?_⟩, rfl⟩
        simpa [HttpSubscriber.release, HttpSession.takeRequest] using hreq
  · rename_i r hhandler
    rw [hhandler]
    rw [HttpSubscriber.handleRetryResponse] at h
    rcases holds_waitAndRetry h with h | ⟨hneeded, hreq, rfl⟩
    · cases p with
      | session j =>
        by_cases hji : j = i
        · subst hji
          simp [Holds, HttpSubscriber.modifySession, HttpSubscriber.modifyRetry,
            HttpSubscriber.release, HttpSession.takeRequest] at h
        · left
          simpa [Holds, HttpSubscriber.modifySession, HttpSubscriber.modifyRetry,
            HttpSubscriber.release, hji] using h
      | retry q =>
        by_cases hqr : q = r
        · subst hqr
          simp [Holds, Waiting, HttpSubscriber.modifySession, HttpSubscriber.modifyRetry,
            HttpSubscriber.release, HttpSession.takeRequest] at h
          exact .inr ⟨⟨.inr h.1, h.2⟩, rfl⟩
        · left
          simpa [Holds, HttpSubscriber.modifySession, HttpSubscriber.modifyRetry,
            HttpSubscriber.release, hqr] using h
    · refine .inr ⟨⟨.inl ?_, ?_⟩, rfl⟩
      · simpa [HttpSubscriber.modifySession, HttpSubscriber.modifyRetry,
          HttpSubscriber.release] using hneeded
      · simpa [HttpSubscriber.modifySession, HttpSubscriber.modifyRetry,
          HttpSubscriber.release, HttpSession.takeRequest] using hreq

theorem holds_fail {s : HttpSubscriber} {i : ℕ} {e : Request} {p : Holder}
    (h : Holds (s.fail i) e p) : Holds s e p ∨
      (Retries s i ∧ (s.sessions i).req = some e) ∧ p = target s i := by
  refine holds_respond ?_
  cases p with
  | session j =>
    by_cases hji : j = i
    · subst hji
      rw [Holds, HttpSubscriber.fail, modifySession_self] at h
      simpa [Holds] using h
    · rwa [Holds, HttpSubscriber.fail, modifySession_other _ _ hji] at h
  | retry r => exact h

theorem nextEvent_fail (s : HttpSubscriber) (i : ℕ) : (s.fail i).nextEvent = s.nextEvent := by
  have hwait : ∀ (t : HttpSubscriber) r, (t.waitAndRetry r).nextEvent = t.nextEvent := by
    intro t r
    unfold HttpSubscriber.waitAndRetry
    split_ifs <;> rfl
  change (s.respond i .error).nextEvent = s.nextEvent
  unfold HttpSubscriber.respond
  split
  · rfl
  · simp only [HttpSubscriber.handleResponse, HttpSubscriber.retryIfNeeded]
    split_ifs
    · rfl
    · exact hwait _ _
  · exact hwait _ _

theorem Sole.fail {s : HttpSubscriber} (h : Sole s) (i : ℕ)
    (hloose : ∀ e, (s.sessions i).req = some e → Retries s i → Loose s e) : Sole (s.fail i) := by
  have hlog := (reported_fail s i).log_eq
  have hnext := (nextEvent_fail s i).ge
  by_cases hretried : ∃ e, (s.sessions i).req = some e ∧ Retries s i
  · obtain ⟨e, hreq, hretries⟩ := hretried
    refine h.assign (q := target s i) (hloose e hreq hretries) (fun x p hp => ?_) hnext
      (fun x hx => hlog ▸ hx) (hlog ▸ h.settled)
    refine (holds_fail hp).imp_right fun hx => ⟨?_, hx.2⟩
    exact Option.some.inj (hx.1.2.symm.trans hreq)
  · refine h.shrink (fun x p hp => ?_) hnext (fun x hx => hlog ▸ hx) (hlog ▸ h.settled)
    exact (holds_fail hp).resolve_right fun hx => hretried ⟨x, hx.1.2, hx.1.1⟩

theorem complete_read_outstanding {R H : Type} (session : HttpSession R H) (keepAlive : Bool) :
    (session.complete .read keepAlive).outstanding = session.outstanding.erase .read := by
  cases keepAlive <;> simp [HttpSession.complete, HttpSession.on_read, HttpSession.monitorForError]

theorem holds_modifySession {s : HttpSubscriber} {i : ℕ} {f : Session → Session}
    (hreq : (f (s.sessions i)).req = (s.sessions i).req)
    (hbusy : (f (s.sessions i)).outstanding ≠ [] → (s.sessions i).outstanding ≠ []) {e : Request}
    {p : Holder} (h : Holds (s.modifySession i f) e p) : Holds s e p := by
  cases p with
  | session j =>
    by_cases hji : j = i
    · subst hji
      rw [Holds, modifySession_self, hreq] at h
      exact ⟨hbusy h.1, h.2⟩
    · rwa [Holds, modifySession_other s f hji] at h
  | retry r => exact h

theorem holds_ended {s : HttpSubscriber} (h : Sole s) {i : ℕ} {f : Session → Session}
    (hbusy : (s.sessions i).outstanding ≠ []) (hrest : (f (s.sessions i)).outstanding = [])
    (hreq : (f (s.sessions i)).req = (s.sessions i).req) {e : Request}
    (he : (s.sessions i).req = some e) (p : Holder) : ¬Holds (s.modifySession i f) e p := by
  intro hp
  have hold := h.one_holder e p (.session i)
    (holds_modifySession hreq (fun hne => (hne hrest).elim) hp) ⟨hbusy, he⟩
  subst hold
  rw [Holds, modifySession_self] at hp
  exact hp.1 hrest

theorem delivered_append {log : List LogEntry} {entry : Option LogEntry} {e : Request}
    (h : .delivered e ∈ log ++ entry.toList) :
    .delivered e ∈ log ∨ entry = some (.delivered e) := by
  rcases List.mem_append.1 h with h | h
  · exact .inl h
  · exact .inr (by simpa using h)

theorem sole_succeeds {s : HttpSubscriber} (h : Sole s) (hpooled : Pooled s) {i : ℕ}
    {op : Operation} (hop : op ∈ (s.sessions i).outstanding) (keepAlive : Bool) :
    Sole (s.succeeds i op keepAlive) := by
  have hbusy := List.ne_nil_of_mem hop
  have hreq := complete_req (s.sessions i) op keepAlive
  have hdone : Sole (s.modifySession i (·.complete op keepAlive)) :=
    h.shrink (fun e p => holds_modifySession hreq fun _ => hbusy) (le_refl _)
      (fun _ => id) h.settled
  unfold HttpSubscriber.succeeds
  dsimp only
  split_ifs with hread
  · subst hread
    have hrest : ((s.sessions i).complete .read keepAlive).outstanding = [] := by
      have hlen := List.length_erase_of_mem hop
      have hle := (hpooled.engaged i).at_most_one
      rw [complete_read_outstanding]
      exact List.length_eq_zero_iff.1 (by omega)
    refine { hdone with delivered := fun e he => ?_, settled := ?_ }
    · rcases delivered_append he with he | he
      · exact hdone.delivered e he
      · have heq : (s.sessions i).req = some e := by simpa using he
        have hnone := holds_ended (f := (·.complete .read keepAlive)) h hbusy hrest hreq heq
        exact ⟨h.sent e (.session i) ⟨hbusy, heq⟩, fun p hp => hnone p hp⟩
    · exact settled_append h.settled fun e he => by simp at he
  · exact hdone

theorem sole_fails {s : HttpSubscriber} (h : Sole s) (hpooled : Pooled s) {i : ℕ} {op : Operation}
    (hop : op ∈ (s.sessions i).outstanding) : Sole (s.fails i op) := by
  have hbusy := List.ne_nil_of_mem hop
  have hrest : (s.sessions i).outstanding.erase op = [] := by
    have hlen := List.length_erase_of_mem hop
    have hle := (hpooled.engaged i).at_most_one
    exact List.length_eq_zero_iff.1 (by omega)
  have hlog : ∀ e, .delivered e ∈ s.log ++ ((s.sessions i).req.map LogEntry.failedRun).toList →
      .delivered e ∈ s.log := by
    intro e he
    refine (delivered_append he).resolve_right fun he => ?_
    simp at he
  have hended : Sole { s.modifySession i fun session =>
      { session with outstanding := session.outstanding.erase op } with
        log := s.log ++ ((s.sessions i).req.map LogEntry.failedRun).toList } := by
    refine h.shrink (fun e p hp => ?_) (le_refl _) hlog
      (settled_append h.settled fun e he => by simp at he)
    exact holds_modifySession (f := fun session =>
      { session with outstanding := session.outstanding.erase op }) rfl (fun _ => hbusy) hp
  refine hended.fail i fun e he _ => ?_
  have heq : (s.sessions i).req = some e := by simpa using he
  have hold : Holds s e (.session i) := ⟨hbusy, heq⟩
  refine ⟨h.sent e _ hold, fun hd => h.not_delivered hold (hlog e hd), ?_⟩
  exact holds_ended (f := fun session =>
    { session with outstanding := session.outstanding.erase op }) h hbusy hrest rfl heq

theorem sole_step {s s' : HttpSubscriber} {event : Event} (h : Sole s) (hpooled : Pooled s)
    (hguard : NoneRetried s event) (hstep : s.step event = some s') : Sole s' := by
  cases steps_of_step hstep with
  | sendEvent => exact sole_sendEvent h
  | succeeds keepAlive hop => exact sole_succeeds h hpooled hop keepAlive
  | fails hop => exact sole_fails h hpooled hop
  | @idleWait i error hwait =>
    have hwaited : Sole (s.modifySession i fun session =>
        { session with idleWaits := session.idleWaits - 1 }) :=
      h.shrink (fun e p => holds_modifySession rfl id) (le_refl _) (fun _ => id) h.settled
    unfold HttpSubscriber.idleWait
    dsimp only
    split_ifs with herror halive
    · refine hwaited.fail i fun e he hretries => ?_
      rw [modifySession_self] at he
      have hne : (s.sessions i).req ≠ none := by
        rw [show (s.sessions i).req = some e from he]
        exact Option.some_ne_none e
      refine (hguard herror halive hne ?_).elim
      simpa [Retries, HttpSubscriber.modifySession] using hretries
    · exact hwaited.shrink (fun _ _ => id) (le_refl _) (fun _ => id) hwaited.settled
    · exact hwaited
  | shutDown hshut =>
    exact h.shrink (fun e p => holds_modifySession rfl id) (le_refl _) (fun _ => id) h.settled
  | @timerExpires r harmed =>
    refine h.shrink (fun e p hp => ?_) (le_refl _) (fun _ => id) h.settled
    cases p with
    | session j => exact hp
    | retry q =>
      by_cases hqr : q = r
      · subst hqr
        refine ⟨.inl harmed, ?_⟩
        simpa [HttpSubscriber.modifyRetry] using hp.2
      · simpa [Holds, HttpSubscriber.modifyRetry, hqr] using hp
  | timerHandler hdue => exact sole_retryFunction h hdue

theorem sole_start (poolSize : ℕ) (retryPolicy : RetryPolicy) :
    Sole (start poolSize retryPolicy) := by
  have hnone : ∀ e p, ¬Holds (start poolSize retryPolicy) e p := by
    rintro e (i | r) hp
    · exact hp.1 rfl
    · simp [Holds, start] at hp
  refine ⟨fun e p q hp => (hnone e p hp).elim, fun e p hp => (hnone e p hp).elim, ?_,
    List.Pairwise.nil⟩
  simp [start]

/-- In a run whose idle waits retry nothing, no delivered event is run again. -/
theorem delivered_once (poolSize : ℕ) (retryPolicy : RetryPolicy) {events : List Event}
    (h : Guarded HttpSubscriber.step NoneRetried (start poolSize retryPolicy) events) :
    Always HttpSubscriber.step (fun s => Settled s.log) (start poolSize retryPolicy) events := by
  have hstep : ∀ s event s', Pooled s ∧ Sole s → NoneRetried s event →
      HttpSubscriber.step s event = some s' → Pooled s' ∧ Sole s' :=
    fun s event s' ⟨hpooled, hsole⟩ hguard hs' =>
      ⟨pooled_step hpooled hs', sole_step hsole hpooled hguard hs'⟩
  have halways := always_of_guarded hstep
    ⟨pooled_start poolSize retryPolicy, sole_start poolSize retryPolicy⟩ h
  exact Always.mono (fun s hs => hs.2.settled) halways

def keptAlive : List Event :=
  [.sendEvent, .succeeds 0 .resolve true, .succeeds 0 .connect true, .succeeds 0 .handshake true,
    .succeeds 0 .write true, .succeeds 0 .read true]

/-- The second event of the session fails and is retried. -/
theorem delivered_once_sample :
    let events := keptAlive ++ [.sendEvent, .idleWait 0 false, .fails 0 .write, .timerExpires 0,
      .timerHandler 0]
    (run HttpSubscriber.step (start 1 {}) events).map (fun s => s.log) =
        some [.run 0, .delivered 0, .run 1, .failedRun 1, .run 1] ∧
      Always HttpSubscriber.step (fun s => Settled s.log) (start 1 {}) events := by
  intro events
  have hquiet : Guarded HttpSubscriber.step (fun _ => NoIdleError) (start 1 {}) events :=
    guarded_of_forall (by simp [events, keptAlive, NoIdleError])
  refine ⟨rfl, delivered_once 1 {} (hquiet.imp (fun s event _ _ hevent _ => ?_)
    (always_pooled 1 {} events))⟩
  cases event with
  | idleWait i error =>
    obtain rfl : error = false := hevent
    exact fun herror => by cases herror
  | _ => trivial

/-- The connection that was kept alive breaks, and event 0 is sent again. -/
theorem delivered_twice :
    let events := keptAlive ++ [.idleWait 0 true, .timerExpires 0, .timerHandler 0]
    (run HttpSubscriber.step (start 1 {}) events).map (fun s => s.log) =
        some [.run 0, .delivered 0, .run 0] ∧
      ¬Always HttpSubscriber.step (fun s => Settled s.log) (start 1 {}) events := by
  intro events
  refine ⟨rfl, fun h => ?_⟩
  have hrun : ∃ s, run HttpSubscriber.step (start 1 {}) events = some s ∧
      s.log = [.run 0, .delivered 0, .run 0] := ⟨_, rfl, rfl⟩
  obtain ⟨s, hs, hlog⟩ := hrun
  have hsettled := h.last hs
  rw [hlog] at hsettled
  simp [Settled] at hsettled

end CrowCore.DeliveredOnce
