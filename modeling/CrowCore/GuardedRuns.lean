import Mathlib

set_option autoImplicit false

/-!
# Runs of a transition system

A run takes one step per event. `Always` says that a property holds in every
state of a run, `Guarded` that every step is taken under a condition on the
event and the state before it. An event that cannot happen ends the run.
-/
namespace CrowCore.GuardedRuns

variable {S E : Type}

section Runs
variable (step : S → E → Option S)

/-- The state after the events, `none` where one of them cannot happen. -/
def run (s : S) (events : List E) : Option S := events.foldlM step s

def Always (I : S → Prop) : S → List E → Prop
  | s, [] => I s
  | s, e :: events => I s ∧ ∀ s', step s e = some s' → Always I s' events

def Guarded (guard : S → E → Prop) : S → List E → Prop
  | _, [] => True
  | s, e :: events => ∀ s', step s e = some s' → guard s e ∧ Guarded guard s' events

end Runs

variable {step : S → E → Option S} {I : S → Prop} {guard : S → E → Prop}

@[simp] theorem run_nil (s : S) : run step s [] = some s := rfl

@[simp] theorem run_cons (s : S) (e : E) (events : List E) :
    run step s (e :: events) = (step s e).bind fun s' => run step s' events := rfl

theorem run_append (s : S) (events events' : List E) :
    run step s (events ++ events') = (run step s events).bind fun s' => run step s' events' :=
  List.foldlM_append

theorem Always.head {s : S} {events : List E} (h : Always step I s events) : I s := by
  cases events with
  | nil => exact h
  | cons e events => exact h.1

theorem Always.of_run {s s' : S} {events rest : List E} (h : Always step I s (events ++ rest))
    (hrun : run step s events = some s') : I s' := by
  induction events generalizing s with
  | nil =>
    obtain rfl := Option.some.inj hrun
    exact h.head
  | cons e events ih =>
    obtain ⟨t, ht, hrun⟩ := Option.bind_eq_some_iff.1 hrun
    exact ih (h.2 t ht) hrun

theorem Always.last {s s' : S} {events : List E} (h : Always step I s events)
    (hrun : run step s events = some s') : I s' := by
  rw [← List.append_nil events] at h
  exact h.of_run hrun

theorem Always.mono {J : S → Prop} (hIJ : ∀ s, I s → J s) {s : S} {events : List E}
    (h : Always step I s events) : Always step J s events := by
  induction events generalizing s with
  | nil => exact hIJ s h
  | cons e events ih => exact ⟨hIJ s h.1, fun s' hs' => ih (h.2 s' hs')⟩

theorem Always.and {J : S → Prop} {s : S} {events : List E} (hI : Always step I s events)
    (hJ : Always step J s events) : Always step (fun s => I s ∧ J s) s events := by
  induction events generalizing s with
  | nil => exact ⟨hI, hJ⟩
  | cons e events ih => exact ⟨⟨hI.1, hJ.1⟩, fun s' hs' => ih (hI.2 s' hs') (hJ.2 s' hs')⟩

/-- The invariant rule: what guarded steps preserve holds throughout a guarded run. -/
theorem always_of_guarded (hstep : ∀ s e s', I s → guard s e → step s e = some s' → I s') {s : S}
    {events : List E} (hs : I s) (h : Guarded step guard s events) : Always step I s events := by
  induction events generalizing s with
  | nil => exact hs
  | cons e events ih =>
    refine ⟨hs, fun s' hs' => ?_⟩
    obtain ⟨hguard, hrest⟩ := h s' hs'
    exact ih (hstep s e s' hs hguard hs') hrest

theorem always_of_step (hstep : ∀ s e s', I s → step s e = some s' → I s') {s : S}
    (hs : I s) (events : List E) : Always step I s events := by
  induction events generalizing s with
  | nil => exact hs
  | cons e events ih => exact ⟨hs, fun s' hs' => ih (hstep s e s' hs hs')⟩

theorem Always.and_of_step {J : S → Prop}
    (hstep : ∀ s e s', I s → J s → step s e = some s' → J s') {s : S} {events : List E}
    (h : Always step I s events) (hs : J s) : Always step (fun s => I s ∧ J s) s events := by
  induction events generalizing s with
  | nil => exact ⟨h, hs⟩
  | cons e events ih => exact ⟨⟨h.1, hs⟩, fun s' hs' => ih (h.2 s' hs') (hstep s e s' h.1 hs hs')⟩

theorem guarded_of_forall {p : E → Prop} {s : S} {events : List E} (h : ∀ e ∈ events, p e) :
    Guarded step (fun _ => p) s events := by
  induction events generalizing s with
  | nil => trivial
  | cons e events ih =>
    rw [List.forall_mem_cons] at h
    exact fun s' _ => ⟨h.1, ih h.2⟩

theorem Guarded.mono {guard' : S → E → Prop} (hguard : ∀ s e, guard s e → guard' s e) {s : S}
    {events : List E} (h : Guarded step guard s events) : Guarded step guard' s events := by
  induction events generalizing s with
  | nil => trivial
  | cons e events ih =>
    intro s' hs'
    obtain ⟨hg, hrest⟩ := h s' hs'
    exact ⟨hguard s e hg, ih hrest⟩

/-- A guard may use what holds of the states of the run. -/
theorem Guarded.imp {guard' : S → E → Prop}
    (hguard : ∀ s e s', I s → guard s e → step s e = some s' → guard' s e) {s : S} {events : List E}
    (hI : Always step I s events) (h : Guarded step guard s events) :
    Guarded step guard' s events := by
  induction events generalizing s with
  | nil => trivial
  | cons e events ih =>
    intro s' hs'
    obtain ⟨hg, hrest⟩ := h s' hs'
    exact ⟨hguard s e s' hI.1 hg hs', ih (hI.2 s' hs') hrest⟩

/-- Where only guarded steps preserve the property, it holds throughout exactly
the guarded runs. -/
theorem always_iff_guarded (hstep : ∀ s e s', I s → step s e = some s' → (I s' ↔ guard s e)) {s : S}
    {events : List E} (hs : I s) : Always step I s events ↔ Guarded step guard s events := by
  refine ⟨fun h => ?_,
    always_of_guarded (fun s e s' hI hg hs' => (hstep s e s' hI hs').2 hg) hs⟩
  induction events generalizing s with
  | nil => trivial
  | cons e events ih =>
    intro s' hs'
    have hrest := h.2 s' hs'
    exact ⟨(hstep s e s' hs hs').1 hrest.head, ih hrest.head hrest⟩

/-- The simulation rule: a relation to the states of a machine that takes every event
holds at the end of a guarded run if each guarded step keeps it. -/
theorem simulated_of_guarded {X : Type} {R : S → X → Prop} {f : X → E → X}
    (hstep : ∀ s e s' x, R s x → guard s e → step s e = some s' → R s' (f x e)) {s s' : S} {x : X}
    {events : List E} (hs : R s x) (h : Guarded step guard s events)
    (hrun : run step s events = some s') : R s' (events.foldl f x) := by
  induction events generalizing s x with
  | nil =>
    obtain rfl := Option.some.inj hrun
    exact hs
  | cons e events ih =>
    obtain ⟨t, ht, hrun⟩ := Option.bind_eq_some_iff.1 hrun
    obtain ⟨hguard, hrest⟩ := h t ht
    exact ih (hstep s e t x hs hguard ht) hrest hrun

end CrowCore.GuardedRuns
