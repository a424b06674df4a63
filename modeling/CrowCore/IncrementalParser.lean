import Mathlib

set_option autoImplicit false

/-!
# Incremental parsers

A parser that is fed one symbol at a time and stops at the end of a message.
Where the input was cut does not matter, and what follows the message is left.
-/
namespace CrowCore.IncrementalParser

/-- A message has a header and is done after it or later. Nothing has been fed
to the initial state. -/
structure Incremental (S B M : Type) where
  init : S
  feed : S → B → S
  isHeaderDone : S → Bool
  isDone : S → Bool
  get : S → M
  isHeaderDone_of_isDone : ∀ s, isDone s → isHeaderDone s
  init_isHeaderDone : isHeaderDone init = false

namespace Incremental
variable {S B M : Type} (parser : Incremental S B M)

section Put
variable (stop : S → Bool)

/-- Feed the symbols until the parser stops; the rest is returned. -/
def put : S → List B → S × List B
  | s, [] => (s, [])
  | s, b :: bs => if stop s then (s, b :: bs) else put (parser.feed s b) bs

@[simp] theorem put_nil (s : S) : parser.put stop s [] = (s, []) := rfl

theorem put_of_stop {s : S} (h : stop s) (bs : List B) : parser.put stop s bs = (s, bs) := by
  cases bs with
  | nil => rfl
  | cons b bs => exact if_pos h

theorem stop_of_rest {s : S} {bs : List B} (h : (parser.put stop s bs).2 ≠ []) :
    stop (parser.put stop s bs).1 := by
  induction bs generalizing s with
  | nil => exact (h rfl).elim
  | cons b bs ih =>
    by_cases hs : stop s
    · rwa [put_of_stop parser stop hs]
    · rw [put, if_neg hs] at h ⊢
      exact ih h

/-- More input is parsed as if it had been there from the start. -/
theorem put_append (s : S) (bs cs : List B) : parser.put stop s (bs ++ cs) =
    parser.put stop (parser.put stop s bs).1 ((parser.put stop s bs).2 ++ cs) := by
  induction bs generalizing s with
  | nil => rfl
  | cons b bs ih =>
    by_cases hs : stop s
    · rw [put_of_stop parser stop hs, put_of_stop parser stop hs, put_of_stop parser stop hs]
    · rw [List.cons_append, put, if_neg hs, put, if_neg hs]
      exact ih (parser.feed s b)

theorem put_put (s : S) (bs : List B) :
    parser.put stop (parser.put stop s bs).1 (parser.put stop s bs).2 = parser.put stop s bs := by
  have h := put_append parser stop s bs []
  rw [List.append_nil, List.append_nil] at h
  exact h.symm

end Put

theorem put_header (s : S) (bs : List B) :
    parser.put parser.isDone (parser.put parser.isHeaderDone s bs).1
      (parser.put parser.isHeaderDone s bs).2 = parser.put parser.isDone s bs := by
  induction bs generalizing s with
  | nil => rfl
  | cons b bs ih =>
    by_cases hs : parser.isHeaderDone s
    · rw [put_of_stop parser _ hs]
    · have hd : ¬ parser.isDone s := fun hd => hs (parser.isHeaderDone_of_isDone s hd)
      rw [put, if_neg hs, put, if_neg hd]
      exact ih (parser.feed s b)

theorem isHeaderDone_put {s : S} {bs : List B}
    (h : parser.isDone (parser.put parser.isDone s bs).1) :
    parser.isHeaderDone (parser.put parser.isHeaderDone s bs).1 := by
  rw [← put_header] at h
  by_cases hrest : (parser.put parser.isHeaderDone s bs).2 = []
  · rw [hrest] at h
    exact parser.isHeaderDone_of_isDone _ h
  · exact stop_of_rest parser _ hrest

def Encodes (bs : List B) (m : M) : Prop :=
  ∃ s, parser.put parser.isDone parser.init bs = (s, []) ∧ parser.isDone s ∧ parser.get s = m

variable {parser}

theorem Encodes.not_done {bs cs : List B} {m : M} (h : parser.Encodes (bs ++ cs) m)
    (hcs : cs ≠ []) : parser.isDone (parser.put parser.isDone parser.init bs).1 = false := by
  obtain ⟨s, hput, -, -⟩ := h
  rw [put_append] at hput
  by_contra hdone
  rw [put_of_stop parser _ (by simpa using hdone)] at hput
  exact hcs (List.append_eq_nil_iff.1 (Prod.mk.inj hput).2).2

end Incremental
end CrowCore.IncrementalParser
