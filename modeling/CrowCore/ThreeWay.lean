import Mathlib

set_option autoImplicit false

/-!
# Three-way comparisons

A comparison whose result is negative, zero or positive. `order` is what its sign
says; if that is transitive, "less" is a strict weak order.
-/
namespace CrowCore.ThreeWay

variable {α β : Type}

def order (cmp : α → α → ℤ) (a b : α) : Ordering := compare (cmp a b) 0

def Less (cmp : α → α → ℤ) (a b : α) : Prop := cmp a b < 0

/-- What a sort expects of its comparison. -/
structure StrictWeak (cmp : α → α → ℤ) : Prop where
  less : IsStrictWeakOrder α (Less cmp)
  swap : ∀ a b, cmp a b < 0 ↔ 0 < cmp b a
  eq_trans : ∀ a b c, cmp a b = 0 → cmp b c = 0 → cmp a c = 0

section Order
variable {cmp : α → α → ℤ} {a b : α}

theorem order_eq_lt : order cmp a b = .lt ↔ cmp a b < 0 := compare_lt_iff_lt

theorem order_eq_gt : order cmp a b = .gt ↔ 0 < cmp a b := compare_gt_iff_gt

theorem order_eq_eq : order cmp a b = .eq ↔ cmp a b = 0 := compare_eq_iff_eq

theorem order_sub (f : α → ℤ) : order (fun a b => f a - f b) a b = compare (f a) (f b) := by
  rw [order]
  rcases lt_trichotomy (f a) (f b) with h | h | h
  · rw [compare_lt_iff_lt.2 h, compare_lt_iff_lt.2 (sub_neg.2 h)]
  · rw [compare_eq_iff_eq.2 h, compare_eq_iff_eq.2 (sub_eq_zero.2 h)]
  · rw [compare_gt_iff_gt.2 h, compare_gt_iff_gt.2 (sub_pos.2 h)]

theorem compareLex_cons_of_ne (h : cmp a b ≠ 0) (l r : List α) :
    List.compareLex (order cmp) (a :: l) (b :: r) = order cmp a b := by
  rw [List.compareLex_cons_cons]
  cases hab : order cmp a b with
  | eq => exact (h (order_eq_eq.1 hab)).elim
  | lt => rfl
  | gt => rfl

theorem compareLex_cons_of_eq (h : cmp a b = 0) (l r : List α) :
    List.compareLex (order cmp) (a :: l) (b :: r) = List.compareLex (order cmp) l r := by
  rw [List.compareLex_cons_cons, order_eq_eq.2 h, Ordering.eq_then]

end Order

theorem compareLex_append_left {cmp : α → α → Ordering} [Std.ReflCmp cmp] (p l r : List α) :
    List.compareLex cmp (p ++ l) (p ++ r) = List.compareLex cmp l r := by
  induction p with
  | nil => rfl
  | cons a p ih =>
    have hself : cmp a a = .eq := Std.ReflCmp.compare_self
    rw [List.cons_append, List.cons_append, List.compareLex_cons_cons, hself, Ordering.eq_then, ih]

theorem transCmp_of_keys {cmp : α → α → Ordering} {keyCmp : β → β → Ordering}
    [Std.TransCmp keyCmp] (key : α → β) (h : ∀ a b, cmp a b = keyCmp (key a) (key b)) :
    Std.TransCmp cmp where
  eq_swap {a b} := by
    rw [h, h]
    exact Std.OrientedCmp.eq_swap
  isLE_trans {a b c} hab hbc := by
    rw [h] at hab hbc ⊢
    exact Std.TransCmp.isLE_trans hab hbc

theorem strictWeak_of_transCmp {cmp : α → α → ℤ} (h : Std.TransCmp (order cmp)) :
    StrictWeak cmp := by
  have hswap : ∀ a b, cmp a b < 0 ↔ 0 < cmp b a := fun a b => by
    rw [← order_eq_lt, ← order_eq_gt, Std.OrientedCmp.gt_iff_lt]
  have htrans : ∀ a b c, cmp a b = 0 → cmp b c = 0 → cmp a c = 0 := fun a b c hab hbc =>
    order_eq_eq.1 (Std.TransCmp.eq_trans (order_eq_eq.2 hab) (order_eq_eq.2 hbc))
  have hincomp : ∀ a b, ¬ Less cmp a b ∧ ¬ Less cmp b a ↔ cmp a b = 0 := fun a b => by
    unfold Less
    rw [hswap b a]
    omega
  refine ⟨?_, hswap, htrans⟩
  refine { irrefl := fun a ha => ?_, trans := fun a b c hab hbc => ?_,
           incomp_trans := fun a b c hab hbc => ?_ }
  · have hpos := (hswap a a).1 ha
    exact lt_asymm ha hpos
  · exact order_eq_lt.1 (Std.TransCmp.lt_trans (order_eq_lt.2 hab) (order_eq_lt.2 hbc))
  · rw [hincomp] at hab hbc ⊢
    exact htrans a b c hab hbc

end CrowCore.ThreeWay
