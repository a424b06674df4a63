import Mathlib

set_option autoImplicit false

/-!
# The first entry with the least key

A search that keeps its best result so far replaces it only by a strictly
smaller one. `better` is that choice, `leastEntry` its value over a list, and
`foldl_leastEntry` the rule for a loop that makes it once per iteration.
-/
namespace CrowCore.LeastEntry

variable {κ α β ι σ : Type*} [LinearOrder κ]

/-- The left entry unless the right one has a strictly smaller key. -/
def better : Option (κ × α) → Option (κ × α) → Option (κ × α)
  | none, b => b
  | some a, none => some a
  | some a, some b => if b.1 < a.1 then some b else some a

def leastEntry : List (κ × α) → Option (κ × α)
  | [] => none
  | x :: xs => better (some x) (leastEntry xs)

@[simp] theorem better_none_left (b : Option (κ × α)) : better none b = b := rfl

@[simp] theorem better_none_right (a : Option (κ × α)) : better a none = a := by
  cases a <;> rfl

@[simp] theorem leastEntry_nil : leastEntry ([] : List (κ × α)) = none := rfl

@[simp] theorem leastEntry_singleton (x : κ × α) : leastEntry [x] = some x := rfl

theorem better_assoc (a b c : Option (κ × α)) :
    better (better a b) c = better a (better b c) := by
  rcases a with _ | a
  · rfl
  rcases b with _ | b
  · rfl
  rcases c with _ | c
  · simp
  simp only [better]
  by_cases hab : b.1 < a.1 <;> by_cases hbc : c.1 < b.1 <;> simp only [hab, hbc, if_true, if_false]
  · rw [if_pos (hbc.trans hab)]
  · rw [if_neg (not_lt.2 ((not_lt.1 hab).trans (not_lt.1 hbc)))]

theorem leastEntry_append (xs ys : List (κ × α)) :
    leastEntry (xs ++ ys) = better (leastEntry xs) (leastEntry ys) := by
  induction xs with
  | nil => rfl
  | cons x xs ih => rw [List.cons_append, leastEntry, leastEntry, ih, better_assoc]

theorem better_map (f : α → β) (a b : Option (κ × α)) :
    better (a.map (Prod.map id f)) (b.map (Prod.map id f)) = (better a b).map (Prod.map id f) := by
  rcases a with _ | a <;> rcases b with _ | b
  · rfl
  · rfl
  · rfl
  simp only [Option.map_some, better, Prod.map_fst, id_eq]
  split_ifs <;> rfl

theorem leastEntry_map (f : α → β) (xs : List (κ × α)) :
    leastEntry (xs.map (Prod.map id f)) = (leastEntry xs).map (Prod.map id f) := by
  induction xs with
  | nil => rfl
  | cons x xs ih =>
    rw [List.map_cons, leastEntry, leastEntry, ih, ← better_map]
    rfl

theorem leastEntry_eq_none {xs : List (κ × α)} : leastEntry xs = none ↔ xs = [] := by
  cases xs with
  | nil => simp
  | cons x xs =>
    simp only [leastEntry, reduceCtorEq, iff_false]
    cases leastEntry xs with
    | none => simp
    | some y => simp only [better]; split_ifs <;> simp

theorem leastEntry_spec {xs : List (κ × α)} {x : κ × α} (h : leastEntry xs = some x) :
    x ∈ xs ∧ ∀ y ∈ xs, x.1 ≤ y.1 := by
  induction xs generalizing x with
  | nil => simp at h
  | cons z xs ih =>
    rw [leastEntry] at h
    cases hxs : leastEntry xs with
    | none =>
      rw [hxs, better_none_right, Option.some.injEq] at h
      subst h
      rw [leastEntry_eq_none] at hxs
      subst hxs
      simp
    | some y =>
      obtain ⟨hmem, hle⟩ := ih hxs
      rw [hxs, better] at h
      split_ifs at h with hlt
      · obtain rfl := Option.some.inj h
        refine ⟨List.mem_cons_of_mem _ hmem, fun w hw => ?_⟩
        rcases List.mem_cons.1 hw with rfl | hw
        · exact hlt.le
        · exact hle w hw
      · obtain rfl := Option.some.inj h
        refine ⟨List.mem_cons_self, fun w hw => ?_⟩
        rcases List.mem_cons.1 hw with rfl | hw
        · exact le_rfl
        · exact (not_lt.1 hlt).trans (hle w hw)

/-- A loop whose state is `mk` of the best entry so far, and whose iteration on
`i` takes the entries `g i` into account, ends in the best of them all. -/
theorem foldl_leastEntry (good : κ × α → Prop) (mk : Option (κ × α) → σ) (step : σ → ι → σ)
    (g : ι → List (κ × α)) (is : List ι) (hg : ∀ i ∈ is, ∀ x ∈ g i, good x)
    (hstep : ∀ i ∈ is, ∀ o : Option (κ × α), (∀ x ∈ o, good x) →
      step (mk o) i = mk (better o (leastEntry (g i))))
    (o : Option (κ × α)) (ho : ∀ x ∈ o, good x) :
    is.foldl step (mk o) = mk (better o (leastEntry (is.flatMap g))) := by
  induction is generalizing o with
  | nil => simp
  | cons i is ih =>
    have hgood : ∀ x ∈ better o (leastEntry (g i)), good x := by
      intro x hx
      rcases o with _ | a
      · exact hg i List.mem_cons_self x (leastEntry_spec hx).1
      · rcases hi : leastEntry (g i) with _ | b
        · rw [hi, better_none_right] at hx
          exact ho x hx
        · rw [hi, better] at hx
          split_ifs at hx
          · obtain rfl := Option.some.inj hx
            exact hg i List.mem_cons_self _ (leastEntry_spec hi).1
          · exact ho x hx
    rw [List.foldl_cons, hstep i List.mem_cons_self o ho,
      ih (fun j hj => hg j (List.mem_cons_of_mem _ hj))
        (fun j hj => hstep j (List.mem_cons_of_mem _ hj)) _ hgood,
      List.flatMap_cons, leastEntry_append, better_assoc]

end CrowCore.LeastEntry
