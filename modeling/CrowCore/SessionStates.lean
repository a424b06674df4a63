import CrowCore.ClientSession
import CrowCore.GuardedRuns

set_option autoImplicit false

/-!
# The state of a session

The error handler of the stream leaves `connectionState` as it is. A session
whose operation has failed stays in use, and its next `run` does nothing.
-/
namespace CrowCore.SessionStates
open GuardedRuns ClientSession

variable {R H : Type}

/-- The error handler, with what the response handler does with the request. -/
def fail (session : HttpSession R H) (takes : Bool) : HttpSession R H :=
  (if takes then session.takeRequest.2 else session).shutDown

inductive Event (R : Type) where
  | run (req : R)
  | succeeds (op : Operation) (keepAlive : Bool)
  | fails (op : Operation) (takes : Bool)
  | idleWait (error takes : Bool)
  | shutDown
deriving DecidableEq, Repr

/-- `run` is only called at rest. -/
def step (session : HttpSession R H) : Event R → Option (HttpSession R H)
  | .run req => if session.outstanding = [] then some (session.run (some req)) else none
  | .succeeds op keepAlive =>
    if op ∈ session.outstanding then some (session.complete op keepAlive) else none
  | .fails op takes =>
    if op ∈ session.outstanding then
      some (fail { session with outstanding := session.outstanding.erase op } takes)
    else none
  | .idleWait error takes =>
    if 0 < session.idleWaits then
      let session := { session with idleWaits := session.idleWaits - 1 }
      some (if error then fail session takes else session)
    else none
  | .shutDown =>
    if 0 < session.shutDowns then some { session with shutDowns := session.shutDowns - 1 } else none

/-- In use exactly while one operation is outstanding, and a `run` at rest starts
one. -/
structure Honest (session : HttpSession R H) : Prop where
  inUse_iff : session.inUse ↔ session.outstanding.length = 1
  heeds : session.outstanding = [] → ∀ req, (session.run req).outstanding ≠ []

structure Engaged (session : HttpSession R H) : Prop where
  at_most_one : session.outstanding.length ≤ 1
  inUse : session.outstanding ≠ [] → session.inUse

theorem engaged_new (stream : Stream) (handler : Option H) :
    Engaged ({ stream, responseHandler := handler } : HttpSession R H) :=
  ⟨Nat.zero_le _, fun h => (h rfl).elim⟩

theorem Engaged.atRest {session : HttpSession R H} (h : Engaged session)
    (hfree : session.inUse = false) : session.outstanding = [] := by
  by_contra hne
  rw [h.inUse hne] at hfree
  cases hfree

theorem Engaged.truthful {session : HttpSession R H} (h : Engaged session)
    (hne : session.outstanding ≠ []) : Truthful session :=
  ⟨h.at_most_one, iff_of_true (h.inUse hne) hne⟩

theorem Truthful.engaged {session : HttpSession R H} (h : Truthful session) : Engaged session :=
  ⟨h.at_most_one, h.inUse_iff.2⟩

theorem run_of_inUse {session : HttpSession R H} (h : session.inUse) (req : Option R) :
    session.run req = { session with req := req } := by
  have hstate : session.connectionState = .inUse := by simpa [HttpSession.inUse] using h
  simp [HttpSession.run, HttpSession.execute, HttpSession.write, hstate]

theorem truthful_run {session : HttpSession R H} (hfree : session.inUse = false)
    (hrest : session.outstanding = []) (req : Option R) : Truthful (session.run req) := by
  obtain ⟨op, state, heq⟩ := run_starts hfree req
  have hrest' : AtRest { session with req := req, connectionState := state } := hrest
  rw [heq]
  exact truthful_start hrest' op

theorem Truthful.free {session : HttpSession R H} (h : Truthful session)
    (hrest : session.outstanding = []) : session.inUse = false := by
  rw [Bool.eq_false_iff]
  exact fun hinUse => h.inUse_iff.1 hinUse hrest

theorem engaged_run {session : HttpSession R H} (h : Engaged session)
    (hrest : session.outstanding = []) (req : Option R) : Engaged (session.run req) := by
  cases hinUse : session.inUse
  · exact Truthful.engaged (truthful_run hinUse hrest req)
  · rw [run_of_inUse hinUse]
    exact ⟨h.at_most_one, h.inUse⟩

theorem engaged_complete {session : HttpSession R H} (h : Engaged session) {op : Operation}
    (hop : op ∈ session.outstanding) (keepAlive : Bool) :
    Engaged (session.complete op keepAlive) :=
  Truthful.engaged (complete_spec (h.truthful (List.ne_nil_of_mem hop)) hop keepAlive).1

theorem engaged_erase {session : HttpSession R H} (h : Engaged session) (op : Operation) :
    Engaged { session with outstanding := session.outstanding.erase op } := by
  refine ⟨(List.length_erase_le).trans h.at_most_one, fun hne => h.inUse fun hnil => hne ?_⟩
  simp [hnil]

@[simp] theorem shutDown_inUse (session : HttpSession R H) :
    session.shutDown.inUse = session.inUse := by
  unfold HttpSession.shutDown
  split <;> rfl

theorem fail_same (session : HttpSession R H) (takes : Bool) :
    (fail session takes).outstanding = session.outstanding ∧
      (fail session takes).inUse = session.inUse := by
  cases takes <;> exact ⟨shutDown_outstanding _, shutDown_inUse _⟩

theorem engaged_fail {session : HttpSession R H} (h : Engaged session) (takes : Bool) :
    Engaged (fail session takes) := by
  obtain ⟨hout, hinUse⟩ := fail_same session takes
  exact ⟨hout ▸ h.at_most_one, fun hne => hinUse ▸ h.inUse (hout ▸ hne)⟩

theorem truthful_fail {session : HttpSession R H} (h : Truthful session) (takes : Bool) :
    Truthful (fail session takes) := by
  obtain ⟨hout, hinUse⟩ := fail_same session takes
  exact ⟨hout ▸ h.at_most_one, by rw [hout, hinUse]; exact h.inUse_iff⟩

theorem honest_iff_truthful {session : HttpSession R H} (h : Engaged session) :
    Honest session ↔ Truthful session := by
  have hone : session.outstanding.length = 1 ↔ session.outstanding ≠ [] := by
    rw [← List.length_pos_iff]
    have hle := h.at_most_one
    omega
  constructor
  · intro hh
    exact ⟨h.at_most_one, hh.inUse_iff.trans hone⟩
  · intro ht
    refine ⟨ht.inUse_iff.trans hone.symm, fun hrest req => ?_⟩
    obtain ⟨op, state, heq⟩ := run_starts (Truthful.free ht hrest) req
    simp [heq, HttpSession.start]

def NotFailed : Event R → Prop
  | .fails _ _ => False
  | _ => True

theorem engaged_step {session session' : HttpSession R H} {event : Event R} (h : Engaged session)
    (hstep : step session event = some session') : Engaged session' := by
  cases event with
  | run req =>
    obtain ⟨hrest, hstep⟩ := Option.ite_none_right_eq_some.1 hstep
    obtain rfl := Option.some.inj hstep
    exact engaged_run h hrest _
  | succeeds op keepAlive =>
    obtain ⟨hop, hstep⟩ := Option.ite_none_right_eq_some.1 hstep
    obtain rfl := Option.some.inj hstep
    exact engaged_complete h hop keepAlive
  | fails op takes =>
    obtain ⟨hop, hstep⟩ := Option.ite_none_right_eq_some.1 hstep
    obtain rfl := Option.some.inj hstep
    exact engaged_fail (engaged_erase h op) takes
  | idleWait error takes =>
    obtain ⟨-, hstep⟩ := Option.ite_none_right_eq_some.1 hstep
    obtain rfl := Option.some.inj hstep
    have hwait : Engaged { session with idleWaits := session.idleWaits - 1 } := { h with }
    cases error
    · exact hwait
    · exact engaged_fail hwait takes
  | shutDown =>
    obtain ⟨-, hstep⟩ := Option.ite_none_right_eq_some.1 hstep
    obtain rfl := Option.some.inj hstep
    exact { h with }

theorem truthful_step_iff {session session' : HttpSession R H} {event : Event R}
    (h : Truthful session) (hstep : step session event = some session') :
    Truthful session' ↔ NotFailed event := by
  cases event with
  | run req =>
    obtain ⟨hrest, hstep⟩ := Option.ite_none_right_eq_some.1 hstep
    obtain rfl := Option.some.inj hstep
    exact iff_of_true (truthful_run (Truthful.free h hrest) hrest _) trivial
  | succeeds op keepAlive =>
    obtain ⟨hop, hstep⟩ := Option.ite_none_right_eq_some.1 hstep
    obtain rfl := Option.some.inj hstep
    exact iff_of_true (complete_spec h hop keepAlive).1 trivial
  | fails op takes =>
    obtain ⟨hop, hstep⟩ := Option.ite_none_right_eq_some.1 hstep
    obtain rfl := Option.some.inj hstep
    refine iff_of_false (fun h' => ?_) id
    obtain ⟨hout, hinUse⟩ :=
      fail_same { session with outstanding := session.outstanding.erase op } takes
    have hbusy : session.inUse := h.inUse_iff.2 (List.ne_nil_of_mem hop)
    have hempty : session.outstanding.erase op = [] := by
      have hlen := List.length_erase_of_mem hop
      have hle := h.at_most_one
      exact List.length_eq_zero_iff.1 (by omega)
    exact h'.inUse_iff.1 (hinUse.trans hbusy) (hout.trans hempty)
  | idleWait error takes =>
    obtain ⟨-, hstep⟩ := Option.ite_none_right_eq_some.1 hstep
    obtain rfl := Option.some.inj hstep
    refine iff_of_true ?_ trivial
    have hwait : Truthful { session with idleWaits := session.idleWaits - 1 } := { h with }
    cases error
    · exact hwait
    · exact truthful_fail hwait takes
  | shutDown =>
    obtain ⟨-, hstep⟩ := Option.ite_none_right_eq_some.1 hstep
    obtain rfl := Option.some.inj hstep
    exact iff_of_true { h with } trivial

/-- The state of a session is honest throughout exactly the runs in which no
operation fails. -/
theorem honest_iff_not_failed (stream : Stream) (handler : Option H) (events : List (Event R)) :
    let session : HttpSession R H := { stream, responseHandler := handler }
    Always step Honest session events ↔ Guarded step (fun _ => NotFailed) session events := by
  intro session
  have hengaged : Always step Engaged session events :=
    always_of_step (fun _ _ _ => engaged_step) (engaged_new stream handler) events
  rw [← always_iff_guarded (I := Truthful) (fun _ _ _ => truthful_step_iff)
    ⟨Nat.zero_le _, by simp [session, HttpSession.inUse]⟩]
  constructor
  · intro h
    exact (h.and hengaged).mono fun _ hs => (honest_iff_truthful hs.2).1 hs.1
  · intro h
    exact h.mono fun _ hs => (honest_iff_truthful (Truthful.engaged hs)).2 hs

/-- After its name was not resolved, a session is in use with nothing outstanding,
and its next run is ignored. -/
theorem failed_session_in_use :
    let session : HttpSession ℕ Unit := { stream := .asyncSsl }
    ¬ Always step Honest session [.run 0, .fails .resolve false] ∧
      (run step session [.run 0, .fails .resolve false, .run 1]).map
        (fun s => (s.inUse, s.outstanding)) = some (true, []) := by
  intro session
  refine ⟨fun h => ?_, rfl⟩
  have hhonest := (h.2 _ rfl).2 _ rfl
  exact absurd (hhonest.inUse_iff.1 rfl) (by decide)

end CrowCore.SessionStates
