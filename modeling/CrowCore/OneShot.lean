import Mathlib

set_option autoImplicit false

/-!
# Tokens that are spent once

Each token that was issued is held at one place at most, until it is spent. It can
move from place to place and it can be dropped, but no spent token is held.
-/
namespace CrowCore.OneShot

variable {K H : Type}

structure Sound (held : K → Option H) (issued : H → Prop) (spent : List H) : Prop where
  sole : ∀ k k' x, held k = some x → held k' = some x → k = k'
  held_issued : ∀ k x, held k = some x → issued x
  spent_issued : ∀ x ∈ spent, issued x
  unspent : ∀ k x, held k = some x → x ∉ spent
  nodup : spent.Nodup

theorem sound_start {issued : H → Prop} : Sound (fun _ : K => none) issued [] where
  sole _ _ _ h := by cases h
  held_issued _ _ h := by cases h
  spent_issued _ h := (List.not_mem_nil h).elim
  unspent _ _ h := by cases h
  nodup := List.nodup_nil

variable {held held' : K → Option H} {issued issued' : H → Prop} {spent : List H}

/-- Each place has what its source had, and no two places have one source. -/
theorem Sound.transfer (h : Sound held issued spent) (source : K → K)
    (hsource : ∀ k x, held' k = some x → held (source k) = some x)
    (hinj : ∀ k k' x, held' k = some x → held' k' = some x → source k = source k' → k = k') :
    Sound held' issued spent where
  sole k k' x hk hk' :=
    hinj k k' x hk hk' (h.sole _ _ x (hsource k x hk) (hsource k' x hk'))
  held_issued k x hk := h.held_issued _ x (hsource k x hk)
  spent_issued := h.spent_issued
  unspent k x hk := h.unspent _ x (hsource k x hk)
  nodup := h.nodup

variable [DecidableEq K]

theorem update_none_eq_some {k k' : K} {x : H} (h : Function.update held k none k' = some x) :
    k' ≠ k ∧ held k' = some x := by
  by_cases hk : k' = k
  · subst hk
    rw [Function.update_self] at h
    cases h
  · exact ⟨hk, by rwa [Function.update_of_ne hk] at h⟩

theorem Sound.drop (h : Sound held issued spent) (k : K) :
    Sound (Function.update held k none) issued spent :=
  h.transfer id (fun _ _ hk => (update_none_eq_some hk).2) fun _ _ _ _ _ heq => heq

theorem Sound.move (h : Sound held issued spent) (j k : K) :
    Sound (Function.update (Function.update held j none) k (held j)) issued spent := by
  refine h.transfer (fun k' => if k' = k then j else k') (fun k' x hk' => ?_)
    fun k₁ k₂ x hk₁ hk₂ heq => ?_
  · by_cases hk : k' = k
    · subst hk
      rw [Function.update_self] at hk'
      rwa [if_pos rfl]
    · rw [Function.update_of_ne hk] at hk'
      rw [if_neg hk]
      exact (update_none_eq_some hk').2
  · by_cases h₁ : k₁ = k <;> by_cases h₂ : k₂ = k
    · rw [h₁, h₂]
    · rw [if_pos h₁, if_neg h₂] at heq
      rw [Function.update_of_ne h₂] at hk₂
      exact ((update_none_eq_some hk₂).1 heq.symm).elim
    · rw [if_neg h₁, if_pos h₂] at heq
      rw [Function.update_of_ne h₁] at hk₁
      exact ((update_none_eq_some hk₁).1 heq).elim
    · rwa [if_neg h₁, if_neg h₂] at heq

theorem Sound.issue (h : Sound held issued spent) (k : K) {x : H} (hnew : ¬issued x)
    (hmono : ∀ y, issued y → issued' y) (hissued : issued' x) :
    Sound (Function.update held k (some x)) issued' spent := by
  have hheld : ∀ k' y, Function.update held k (some x) k' = some y →
      k' = k ∧ y = x ∨ k' ≠ k ∧ held k' = some y := by
    intro k' y hk'
    by_cases hk : k' = k
    · subst hk
      rw [Function.update_self] at hk'
      exact .inl ⟨rfl, (Option.some.inj hk').symm⟩
    · exact .inr ⟨hk, by rwa [Function.update_of_ne hk] at hk'⟩
  constructor
  case sole =>
    intro k₁ k₂ y hk₁ hk₂
    rcases hheld k₁ y hk₁ with ⟨rfl, rfl⟩ | ⟨-, hold₁⟩
    · rcases hheld k₂ y hk₂ with ⟨rfl, -⟩ | ⟨-, hold₂⟩
      · rfl
      · exact (hnew (h.held_issued k₂ y hold₂)).elim
    · rcases hheld k₂ y hk₂ with ⟨rfl, rfl⟩ | ⟨-, hold₂⟩
      · exact (hnew (h.held_issued k₁ y hold₁)).elim
      · exact h.sole k₁ k₂ y hold₁ hold₂
  case held_issued =>
    intro k' y hk'
    rcases hheld k' y hk' with ⟨-, rfl⟩ | ⟨-, hk'⟩
    · exact hissued
    · exact hmono y (h.held_issued k' y hk')
  case spent_issued => exact fun y hy => hmono y (h.spent_issued y hy)
  case unspent =>
    intro k' y hk' hy
    rcases hheld k' y hk' with ⟨-, rfl⟩ | ⟨-, hk'⟩
    · exact hnew (h.spent_issued y hy)
    · exact h.unspent k' y hk' hy
  case nodup => exact h.nodup

theorem Sound.spend (h : Sound held issued spent) (k : K) :
    Sound (Function.update held k none) issued (spent ++ (held k).toList) := by
  cases hk : held k with
  | none => simpa using h.drop k
  | some x =>
    have hdrop := h.drop k
    constructor
    case sole => exact hdrop.sole
    case held_issued => exact hdrop.held_issued
    case spent_issued =>
      intro y hy
      rcases List.mem_append.1 hy with hy | hy
      · exact h.spent_issued y hy
      · rw [List.mem_singleton.1 hy]
        exact h.held_issued k x hk
    case unspent =>
      intro k' y hk' hy
      obtain ⟨hne, hheld⟩ := update_none_eq_some hk'
      rcases List.mem_append.1 hy with hy | hy
      · exact h.unspent k' y hheld hy
      · rw [List.mem_singleton.1 hy] at hheld
        exact hne (h.sole k' k x hheld hk)
    case nodup =>
      refine List.nodup_append.2 ⟨h.nodup, List.nodup_singleton x, fun y hy z hz heq => ?_⟩
      rw [heq, List.mem_singleton.1 hz] at hy
      exact h.unspent k x hk hy

end CrowCore.OneShot
