import CrowCore.GuardedRuns

set_option autoImplicit false

/-!
# Runs of the components of a system

Components are added while the system runs, and an event goes to one of them or to all
that are there. Each component then takes a run of its own.
-/
namespace CrowCore.ComponentRuns
open GuardedRuns

variable {A S E : Type}

inductive Action (A E : Type) where
  | add (a : A)
  | all (event : E)
  | one (k : ℕ) (event : E)

section Systems
variable (init : A → S) (step : S → E → Option S)

def systemStep (components : List S) : Action A E → Option (List S)
  | .add a => some (components ++ [init a])
  | .all event => components.mapM fun s => step s event
  | .one k event => do
    let s ← components[k]?
    let s' ← step s event
    return components.set k s'

end Systems

def added (actions : List (Action A E)) : List A :=
  actions.filterMap fun
    | .add a => some a
    | _ => none

/-- The events of component `k`, of which there are `n` before the actions. -/
def eventsOf (k : ℕ) : ℕ → List (Action A E) → List E
  | _, [] => []
  | n, .add _ :: actions => eventsOf k (n + 1) actions
  | n, .all event :: actions =>
    if k < n then event :: eventsOf k n actions else eventsOf k n actions
  | n, .one j event :: actions =>
    if j = k then event :: eventsOf k n actions else eventsOf k n actions

variable {init : A → S} {step : S → E → Option S}

theorem getElem_of_mapM {β : Type} {f : S → Option β} {components : List S} {results : List β}
    (h : components.mapM f = some results) : results.length = components.length ∧
      ∀ (k : ℕ) (s : S), components[k]? = some s → f s = results[k]? := by
  induction components generalizing results with
  | nil =>
    obtain rfl := Option.some.inj h
    exact ⟨rfl, fun k s hk => by simp at hk⟩
  | cons s components ih =>
    rw [List.mapM_cons] at h
    obtain ⟨result, hresult, h⟩ := Option.bind_eq_some_iff.1 h
    obtain ⟨rest, hrest, h⟩ := Option.bind_eq_some_iff.1 h
    obtain rfl := Option.some.inj h
    obtain ⟨hlength, hall⟩ := ih hrest
    refine ⟨congrArg Nat.succ hlength, fun k s' hk => ?_⟩
    cases k with
    | zero =>
      obtain rfl := Option.some.inj hk
      exact hresult
    | succ k => exact hall k s' hk

theorem mapM_of_forall {β : Type} {f : S → Option β} {g : S → β} {components : List S}
    (h : ∀ s ∈ components, f s = some (g s)) : components.mapM f = some (components.map g) := by
  induction components with
  | nil => rfl
  | cons s components ih =>
    rw [List.forall_mem_cons] at h
    rw [List.mapM_cons, h.1, ih h.2]
    rfl

theorem length_systemStep {components components' : List S} {action : Action A E}
    (h : systemStep init step components action = some components') :
    components'.length = components.length + (added [action]).length := by
  cases action with
  | add a =>
    obtain rfl := Option.some.inj h
    exact List.length_append
  | all event => exact (getElem_of_mapM h).1
  | one k event =>
    obtain ⟨s, -, h⟩ := Option.bind_eq_some_iff.1 h
    obtain ⟨s', -, h⟩ := Option.bind_eq_some_iff.1 h
    obtain rfl := Option.some.inj h
    exact List.length_set

theorem component_step {components components' : List S} {action : Action A E}
    (h : systemStep init step components action = some components') {k : ℕ} {s' : S}
    (hs' : components'[k]? = some s') :
    ∃ s, (components ++ (added [action]).map init)[k]? = some s ∧
      run step s (eventsOf k components.length [action]) = some s' := by
  cases action with
  | add a =>
    obtain rfl := Option.some.inj h
    exact ⟨s', hs', rfl⟩
  | all event =>
    obtain ⟨hlength, hall⟩ := getElem_of_mapM h
    obtain ⟨hk, -⟩ := List.getElem?_eq_some_iff.1 hs'
    rw [hlength] at hk
    have hs := List.getElem?_eq_getElem hk
    refine ⟨components[k], (List.getElem?_append_left hk).trans hs, ?_⟩
    rw [eventsOf, if_pos hk, eventsOf, run_cons, hall k _ hs, hs']
    rfl
  | one j event =>
    obtain ⟨s, hs, h⟩ := Option.bind_eq_some_iff.1 h
    obtain ⟨t, ht, h⟩ := Option.bind_eq_some_iff.1 h
    obtain rfl := Option.some.inj h
    have hnone : components ++ (added [Action.one (A := A) j event]).map init = components :=
      List.append_nil _
    rw [hnone, eventsOf]
    by_cases hj : j = k
    · subst hj
      have hlt := (List.getElem?_eq_some_iff.1 hs).1
      rw [List.getElem?_set_self hlt] at hs'
      obtain rfl := Option.some.inj hs'
      refine ⟨s, hs, ?_⟩
      rw [if_pos rfl, eventsOf, run_cons, ht]
      rfl
    · rw [List.getElem?_set_ne hj] at hs'
      refine ⟨s', hs', ?_⟩
      rw [if_neg hj]
      rfl

theorem eventsOf_cons (k n : ℕ) (action : Action A E) (actions : List (Action A E)) :
    eventsOf k n (action :: actions) =
      eventsOf k n [action] ++ eventsOf k (n + (added [action]).length) actions := by
  cases action with
  | add a => rfl
  | all event =>
    simp only [eventsOf]
    split_ifs <;> rfl
  | one j event =>
    simp only [eventsOf]
    split_ifs <;> rfl

theorem added_cons (action : Action A E) (actions : List (Action A E)) :
    added (action :: actions) = added [action] ++ added actions :=
  List.filterMap_append (l := [action])

theorem eventsOf_of_le {components components' : List S} {action : Action A E}
    (h : systemStep init step components action = some components') {k : ℕ}
    (hk : components'.length ≤ k) : eventsOf k components.length [action] = [] := by
  have hlength := length_systemStep h
  cases action with
  | add a => rfl
  | all event => exact if_neg (by omega)
  | one j event =>
    obtain ⟨s, hs, -⟩ := Option.bind_eq_some_iff.1 h
    have hj := (List.getElem?_eq_some_iff.1 hs).1
    exact if_neg (by omega)

/-- Every component of a run takes a run of its own, with its own events. -/
theorem component_run {components components' : List S} {actions : List (Action A E)}
    (h : run (systemStep init step) components actions = some components') {k : ℕ} {s' : S}
    (hs' : components'[k]? = some s') : ∃ s, (components ++ (added actions).map init)[k]? = some s ∧
      run step s (eventsOf k components.length actions) = some s' := by
  induction actions generalizing components with
  | nil =>
    obtain rfl := Option.some.inj h
    exact ⟨s', (congrArg (·[k]?) (List.append_nil _)).trans hs', rfl⟩
  | cons action actions ih =>
    obtain ⟨mid, hstep, hrest⟩ := Option.bind_eq_some_iff.1 h
    obtain ⟨t, ht, htrun⟩ := ih hrest
    have hmid := length_systemStep hstep
    rw [added_cons, List.map_append, ← List.append_assoc, eventsOf_cons, ← hmid]
    by_cases hk : k < mid.length
    · rw [List.getElem?_append_left hk] at ht
      obtain ⟨s, hs, hsrun⟩ := component_step hstep ht
      refine ⟨s, ?_, ?_⟩
      · rw [List.getElem?_append_left]
        · exact hs
        · rw [List.length_append, List.length_map, ← hmid]
          exact hk
      · rw [run_append, hsrun]
        exact htrun
    · have hnone := eventsOf_of_le hstep (Nat.le_of_not_lt hk)
      rw [List.getElem?_append_right (by omega)] at ht
      refine ⟨t, ?_, ?_⟩
      · rw [List.getElem?_append_right]
        · rwa [List.length_append, List.length_map, ← hmid]
        · rw [List.length_append, List.length_map, ← hmid]
          omega
      · rw [hnone]
        exact htrun

end CrowCore.ComponentRuns
