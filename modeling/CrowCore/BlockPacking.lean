import CrowCore.ListSplits

set_option autoImplicit false

/-!
# Packing into blocks

Items go one after the other into a buffer of fixed size, which is emptied after
a closing item that fills it beyond a limit, and at no other time. The items fit
exactly if they can be cut into blocks that do.
-/
namespace CrowCore.BlockPacking
open ListSplits

/-- An item advances the buffer by `length` but may need more `room` while it is
written. -/
structure Packing (α : Type) where
  length : α → ℕ
  room : α → ℕ
  closing : α → Bool
  size : ℕ
  limit : ℕ

namespace Packing
variable {α : Type} (P : Packing α)

def total (xs : List α) : ℕ := (xs.map P.length).sum

@[simp] theorem total_nil : P.total [] = 0 := rfl

@[simp] theorem total_append (xs ys : List α) : P.total (xs ++ ys) = P.total xs + P.total ys := by
  simp [total]

@[simp] theorem total_singleton (x : α) : P.total [x] = P.length x := by
  simp [total]

def advance (fill : ℕ) (x : α) : ℕ :=
  if P.closing x ∧ P.limit < fill + P.length x then 0 else fill + P.length x

/-- No item leaves the buffer, from this fill on. -/
def Fits : ℕ → List α → Prop
  | _, [] => True
  | fill, x :: xs => fill + P.room x ≤ P.size ∧ Fits (P.advance fill x) xs

instance decidableFits : ∀ fill xs, Decidable (P.Fits fill xs)
  | _, [] => .isTrue trivial
  | fill, x :: xs =>
    have := decidableFits (P.advance fill x) xs
    inferInstanceAs (Decidable (_ ∧ _))

/-- Items that fit into an empty buffer which none of them before the last empties. -/
structure Block (xs : List α) : Prop where
  room_le : ∀ pre x post, xs = pre ++ x :: post → P.total pre + P.room x ≤ P.size
  stays : ∀ pre x post, xs = pre ++ x :: post → post ≠ [] → P.closing x →
    P.total pre + P.length x ≤ P.limit

def Closed (xs : List α) : Prop :=
  ∃ pre x, xs = pre ++ [x] ∧ P.closing x ∧ P.limit < P.total xs

inductive Packs : List α → Prop where
  | last {xs : List α} (h : P.Block xs) : Packs xs
  | emptied {xs rest : List α} (h : P.Block xs) (hclosed : P.Closed xs) (hrest : Packs rest) :
      Packs (xs ++ rest)

/-- The items since the buffer was last empty. -/
structure Open (xs : List α) : Prop where
  room_le : ∀ pre x post, xs = pre ++ x :: post → P.total pre + P.room x ≤ P.size
  stays : ∀ pre x post, xs = pre ++ x :: post → P.closing x → P.total pre + P.length x ≤ P.limit

variable {P}

theorem Open.block {xs : List α} (h : P.Open xs) : P.Block xs :=
  ⟨h.room_le, fun pre x post heq _ => h.stays pre x post heq⟩

theorem open_nil : P.Open [] :=
  ⟨fun pre x post h => by simp at h, fun pre x post h => by simp at h⟩

theorem Open.concat {xs : List α} (h : P.Open xs) {x : α} (hroom : P.total xs + P.room x ≤ P.size)
    (hstays : P.closing x → P.total xs + P.length x ≤ P.limit) : P.Open (xs ++ [x]) := by
  constructor
  · intro pre y post heq
    rcases split_concat heq with ⟨-, rfl, rfl⟩ | ⟨post', -, rfl⟩
    · exact hroom
    · exact h.room_le pre y post' rfl
  · intro pre y post heq hy
    rcases split_concat heq with ⟨-, rfl, rfl⟩ | ⟨post', -, rfl⟩
    · exact hstays hy
    · exact h.stays pre y post' rfl hy

theorem Open.closed_longer {xs ys zs rest : List α} (h : P.Open xs) (hclosed : P.Closed ys)
    (heq : ys ++ zs = xs ++ rest) : ∃ x post, rest = x :: post ++ zs ∧ ys = xs ++ x :: post := by
  rcases List.append_eq_append_iff.1 heq with ⟨cut, rfl, rfl⟩ | ⟨cut, rfl, rfl⟩
  · obtain ⟨pre, x, rfl, hx, hlt⟩ := hclosed
    have := h.stays pre x cut (by simp) hx
    simp only [total_append, total_singleton] at hlt
    omega
  · cases cut with
    | nil =>
      obtain ⟨pre, x, heq, hx, hlt⟩ := hclosed
      rw [List.append_nil] at heq hlt
      have := h.stays pre x [] heq hx
      rw [heq, total_append, total_singleton] at hlt
      omega
    | cons x post => exact ⟨x, post, rfl, rfl⟩

theorem fits_iff_packs_append {xs rest : List α} (h : P.Open xs) :
    P.Fits (P.total xs) rest ↔ P.Packs (xs ++ rest) := by
  induction rest generalizing xs with
  | nil =>
    rw [List.append_nil]
    exact ⟨fun _ => .last h.block, fun _ => trivial⟩
  | cons x rest ih =>
    by_cases hroom : P.total xs + P.room x ≤ P.size
    swap
    · refine ⟨fun hf => (hroom hf.1).elim, fun hp => ?_⟩
      generalize hall : xs ++ x :: rest = all at hp
      cases hp with
      | last hb => exact (hroom (hb.room_le xs x rest hall.symm)).elim
      | @emptied ys zs hb hclosed hrest =>
        obtain ⟨y, post, hrest', rfl⟩ := h.closed_longer hclosed hall.symm
        rw [List.cons_append] at hrest'
        rw [← (List.cons.inj hrest').1] at hb
        exact (hroom (hb.room_le xs x post rfl)).elim
    by_cases hfull : P.closing x ∧ P.limit < P.total xs + P.length x
    · rw [Fits, advance, if_pos hfull, ← total_nil , ih open_nil, List.nil_append]
      constructor
      · rintro ⟨-, hp⟩
        rw [List.append_cons]
        refine .emptied ?_ ⟨xs, x, rfl, hfull.1, by simpa using hfull.2⟩ hp
        constructor
        · intro pre y post heq
          rcases split_concat heq with ⟨-, rfl, rfl⟩ | ⟨post', -, rfl⟩
          · exact hroom
          · exact h.room_le pre y post' rfl
        · intro pre y post heq hne hy
          rcases split_concat heq with ⟨hnil, -, -⟩ | ⟨post', -, rfl⟩
          · exact (hne hnil).elim
          · exact h.stays pre y post' rfl hy
      · intro hp
        refine ⟨hroom, ?_⟩
        generalize hall : xs ++ x :: rest = all at hp
        cases hp with
        | last hb =>
          have hnil : rest = [] := by
            by_contra hne
            have := hb.stays xs x rest hall.symm hne hfull.1
            omega
          rw [hnil]
          exact .last open_nil.block
        | @emptied ys zs hb hclosed hrest =>
          obtain ⟨y, post, hrest', rfl⟩ := h.closed_longer hclosed hall.symm
          obtain ⟨rfl, rfl⟩ := List.cons.inj hrest'
          have hnil : post = [] := by
            by_contra hne
            have := hb.stays xs x post rfl hne hfull.1
            omega
          rw [hnil]
          exact hrest
    · have hopen : P.Open (xs ++ [x]) := h.concat hroom fun hx => not_lt.1 fun hlt =>
        hfull ⟨hx, hlt⟩
      have hrest := ih hopen
      rw [total_append, total_singleton, List.append_assoc, List.singleton_append] at hrest
      rw [Fits, advance, if_neg hfull, hrest]
      exact ⟨fun hp => hp.2, fun hp => ⟨hroom, hp⟩⟩

theorem fits_iff_packs (xs : List α) : P.Fits 0 xs ↔ P.Packs xs := by
  simpa using fits_iff_packs_append open_nil

end Packing

end CrowCore.BlockPacking
