import Mathlib

set_option autoImplicit false

/-!
# Runs of digits

The decimal number at the start of a text over any characters, and what
`std::from_chars` makes of it for an integer type with the greatest value `max`.
-/
namespace CrowCore.DecimalRuns

section Definitions
variable {α : Type} (toChar : α → Char)

def isDigit (a : α) : Bool := (toChar a).isDigit

def digitRun (text : List α) : List α := text.takeWhile (isDigit toChar)

def afterRun (text : List α) : List α := text.dropWhile (isDigit toChar)

def numberOf (run : List α) : ℕ := Nat.ofDigitChars 10 (run.map toChar) 0

/-- `std::from_chars` on a text that does not begin with a sign: the number, or `none`
with an error. `ptr` is the end of the run, also if the number is out of range. -/
def from_chars (max : ℕ) (text : List α) : Option ℕ :=
  let run := digitRun toChar text
  if run = [] then none
  else if numberOf toChar run ≤ max then some (numberOf toChar run)
  else none

end Definitions

variable {α : Type} {toChar : α → Char} {text run rest : List α}

theorem digitRun_append_afterRun (toChar : α → Char) (text : List α) :
    digitRun toChar text ++ afterRun toChar text = text := List.takeWhile_append_dropWhile

theorem from_chars_eq_some {max n : ℕ} : from_chars toChar max text = some n ↔
    digitRun toChar text ≠ [] ∧ numberOf toChar (digitRun toChar text) = n ∧ n ≤ max := by
  unfold from_chars
  dsimp only
  split_ifs with hrun hmax
  · simp [hrun]
  · rw [Option.some_inj]
    exact ⟨fun h => ⟨hrun, h, h ▸ hmax⟩, fun h => h.2.1⟩
  · simp only [false_iff]
    rintro ⟨-, rfl, hle⟩
    exact hmax hle

theorem length_afterRun_lt {a : α} (h : isDigit toChar a) (text : List α) :
    (afterRun toChar (a :: text)).length < (a :: text).length := by
  rw [afterRun, List.dropWhile_cons_of_pos h, List.length_cons]
  exact Nat.lt_succ_of_le (List.length_dropWhile_le _ _)

theorem digitRun_append (hrun : ∀ a ∈ run, isDigit toChar a)
    (hrest : ∀ a ∈ rest.head?, ¬ isDigit toChar a) :
    digitRun toChar (run ++ rest) = run ∧ afterRun toChar (run ++ rest) = rest := by
  have hhead : rest.takeWhile (isDigit toChar) = [] ∧ rest.dropWhile (isDigit toChar) = rest := by
    cases rest with
    | nil => exact ⟨rfl, rfl⟩
    | cons a rest =>
      have ha := hrest a rfl
      exact ⟨List.takeWhile_cons_of_neg ha, List.dropWhile_cons_of_neg ha⟩
  refine ⟨?_, ?_⟩
  · rw [digitRun, List.takeWhile_append_of_pos hrun, hhead.1, List.append_nil]
  · rw [afterRun, List.dropWhile_append_of_pos hrun, hhead.2]

theorem digitRun_append_of_lt (h : afterRun toChar text ≠ []) (rest : List α) :
    digitRun toChar (text ++ rest) = digitRun toChar text ∧
      afterRun toChar (text ++ rest) = afterRun toChar text ++ rest := by
  have hsplit := digitRun_append_afterRun toChar text
  have hhead : ∀ a ∈ (afterRun toChar text ++ rest).head?, ¬ isDigit toChar a := by
    intro a ha
    have hnot := List.head?_dropWhile_not (isDigit toChar) text
    obtain ⟨b, after, hafter⟩ := List.exists_cons_of_ne_nil h
    rw [hafter, List.cons_append, List.head?_cons, Option.mem_some_iff] at ha
    change text.dropWhile (isDigit toChar) = _ at hafter
    rw [hafter] at hnot
    simpa [ha] using hnot
  have hrun : ∀ a ∈ digitRun toChar text, isDigit toChar a := fun a ha =>
    List.mem_takeWhile_imp ha
  have happend := digitRun_append hrun hhead
  rwa [← List.append_assoc, hsplit] at happend

theorem isDigit_of_decimal {n : ℕ} (h : run.map toChar = Nat.toDigits 10 n) :
    ∀ a ∈ run, isDigit toChar a := by
  intro a ha
  have hmem : toChar a ∈ Nat.toDigits 10 n := h ▸ List.mem_map_of_mem ha
  exact Nat.isDigit_of_mem_toDigits (by decide) (by decide) hmem

theorem numberOf_decimal {n : ℕ} (h : run.map toChar = Nat.toDigits 10 n) :
    numberOf toChar run = n := by
  rw [numberOf, h, Nat.ofDigitChars_ten_toDigits]

end CrowCore.DecimalRuns
