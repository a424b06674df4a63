import Mathlib

set_option autoImplicit false

/-!
# Splitting at an element

Where an element of a list lies when the list was put together from two.
-/
namespace CrowCore.ListSplits

variable {α : Type} {l l' before after : List α} {a b : α}

theorem split_append (h : l ++ l' = before ++ a :: after) :
    (∃ between, after = between ++ l' ∧ l = before ++ a :: between) ∨
      ∃ between, before = l ++ between ∧ l' = between ++ a :: after := by
  rcases List.append_eq_append_iff.1 h with ⟨between, hbefore, hl'⟩ | ⟨between, hl, hafter⟩
  · exact .inr ⟨between, hbefore, hl'⟩
  · cases between with
    | nil => exact .inr ⟨[], by rw [hl, List.append_nil, List.append_nil], hafter.symm⟩
    | cons b between =>
      obtain ⟨rfl, hrest⟩ := List.cons.inj hafter
      exact .inl ⟨between, hrest, hl⟩

theorem split_concat (h : l ++ [b] = before ++ a :: after) :
    (after = [] ∧ l = before ∧ b = a) ∨ ∃ after', after = after' ++ [b] ∧
      l = before ++ a :: after' := by
  rcases split_append h with hearlier | ⟨between, hbefore, hlast⟩
  · exact .inr hearlier
  · rcases List.append_eq_singleton_iff.1 hlast.symm with ⟨rfl, heq⟩ | ⟨-, hnil⟩
    · obtain ⟨rfl, rfl⟩ := List.cons.inj heq
      exact .inl ⟨rfl, by rw [hbefore, List.append_nil], rfl⟩
    · exact absurd hnil (List.cons_ne_nil _ _)

theorem split_concat_of_ne (hne : b ≠ a) (h : l ++ [b] = before ++ a :: after) :
    ∃ after', after = after' ++ [b] ∧ l = before ++ a :: after' :=
  (split_concat h).resolve_left fun hlast => hne hlast.2.2

theorem head_concat (h : l.head? = some a) (b : α) : (l ++ [b]).head? = some a := by
  rw [List.head?_append, h, Option.some_or]

end CrowCore.ListSplits
