import Mathlib

set_option autoImplicit false

/-!
# Runs of bits

The bits of a number from the most significant one on, and sequences of bits in
which all ones come before all zeros.
-/
namespace CrowCore.BitRuns

/-- The low bits of a number, the most significant one first. -/
def bitsOf (n : ℕ) : ℕ → List Bool
  | 0 => []
  | width + 1 => n.testBit width :: bitsOf n width

def OnesThenZeros (bits : List Bool) : Prop :=
  ∃ ones zeros, bits = List.replicate ones true ++ List.replicate zeros false

def ones (bits : List Bool) : ℕ := bits.count true

@[simp] theorem bitsOf_length (n width : ℕ) : (bitsOf n width).length = width := by
  induction width with
  | zero => rfl
  | succ width ih => rw [bitsOf, List.length_cons, ih]

theorem mem_bitsOf {n width : ℕ} {b : Bool} :
    b ∈ bitsOf n width ↔ ∃ i < width, n.testBit i = b := by
  induction width with
  | zero => simp [bitsOf]
  | succ width ih =>
    rw [bitsOf, List.mem_cons, ih]
    constructor
    · rintro (rfl | ⟨i, hi, h⟩)
      · exact ⟨width, Nat.lt_succ_self width, rfl⟩
      · exact ⟨i, Nat.lt_succ_of_lt hi, h⟩
    · rintro ⟨i, hi, h⟩
      rcases Nat.lt_succ_iff_lt_or_eq.1 hi with hi | rfl
      · exact .inr ⟨i, hi, h⟩
      · exact .inl h.symm

theorem bitsOf_add {low width : ℕ} (high width' : ℕ) (h : low < 2 ^ width) :
    bitsOf (2 ^ width * high + low) (width + width') = bitsOf high width' ++ bitsOf low width := by
  have hbit := Nat.testBit_two_pow_mul_add high h
  induction width' with
  | zero =>
    have hlow : ∀ w ≤ width, bitsOf (2 ^ width * high + low) w = bitsOf low w := by
      intro w hw
      induction w with
      | zero => rfl
      | succ w ih => rw [bitsOf, bitsOf, hbit, if_pos (by omega), ih (by omega)]
    exact hlow width le_rfl
  | succ width' ih =>
    rw [← Nat.add_assoc, bitsOf, bitsOf, hbit, if_neg (by omega), Nat.add_sub_cancel_left, ih]
    rfl

theorem testBit_of_lt {n width i : ℕ} (h : n < 2 ^ width) (hi : width ≤ i) :
    n.testBit i = false :=
  Nat.testBit_lt_two_pow (lt_of_lt_of_le h (Nat.pow_le_pow_right (by decide) hi))

theorem true_mem_bitsOf {n width : ℕ} (h : n < 2 ^ width) : true ∈ bitsOf n width ↔ n ≠ 0 := by
  rw [mem_bitsOf]
  constructor
  · rintro ⟨i, -, hi⟩ rfl
    simp at hi
  · intro hn
    obtain ⟨i, hi⟩ := Nat.exists_testBit_of_ne_zero hn
    refine ⟨i, ?_, hi⟩
    by_contra hwidth
    rw [testBit_of_lt h (Nat.le_of_not_lt hwidth)] at hi
    cases hi

theorem false_mem_bitsOf {n width : ℕ} (h : n < 2 ^ width) :
    false ∈ bitsOf n width ↔ n ≠ 2 ^ width - 1 := by
  rw [mem_bitsOf]
  constructor
  · rintro ⟨i, hi, hbit⟩ rfl
    simp [Nat.testBit_two_pow_sub_one, hi] at hbit
  · intro hn
    by_contra hall
    refine hn (Nat.eq_of_testBit_eq fun i => ?_)
    rw [Nat.testBit_two_pow_sub_one]
    by_cases hi : i < width
    · simpa [hi] using fun hbit => hall ⟨i, hi, hbit⟩
    · rw [testBit_of_lt h (Nat.le_of_not_lt hi)]
      simp [hi]

theorem onesThenZeros_iff_pairwise {bits : List Bool} :
    OnesThenZeros bits ↔ bits.Pairwise fun b b' => b' = true → b = true := by
  constructor
  · rintro ⟨ones, zeros, rfl⟩
    simp [List.pairwise_append, List.pairwise_replicate]
  · intro h
    induction bits with
    | nil => exact ⟨0, 0, rfl⟩
    | cons b bits ih =>
      rw [List.pairwise_cons] at h
      cases b with
      | true =>
        obtain ⟨ones, zeros, rfl⟩ := ih h.2
        exact ⟨ones + 1, zeros, rfl⟩
      | false =>
        have hzeros : bits = List.replicate bits.length false := by
          rw [List.eq_replicate_iff]
          exact ⟨rfl, fun b hb => by simpa using h.1 b hb⟩
        exact ⟨0, bits.length + 1, by rw [List.replicate_succ, ← hzeros]; rfl⟩

theorem onesThenZeros_append {bits bits' : List Bool} : OnesThenZeros (bits ++ bits') ↔
    OnesThenZeros bits ∧ OnesThenZeros bits' ∧ (false ∈ bits → true ∉ bits') := by
  rw [onesThenZeros_iff_pairwise, onesThenZeros_iff_pairwise, onesThenZeros_iff_pairwise,
    List.pairwise_append]
  refine and_congr_right fun _ => and_congr_right fun _ => ?_
  constructor
  · exact fun h hfalse htrue => Bool.false_ne_true (h false hfalse true htrue rfl)
  · rintro h b hb b' hb' rfl
    cases b with
    | false => exact (h hb hb').elim
    | true => rfl

theorem onesThenZeros_nil : OnesThenZeros [] := ⟨0, 0, rfl⟩

theorem onesThenZeros_cons {b : Bool} {bits : List Bool} :
    OnesThenZeros (b :: bits) ↔ OnesThenZeros bits ∧ (b = false → true ∉ bits) := by
  have h : OnesThenZeros ([b] ++ bits) ↔ _ := onesThenZeros_append
  have hone : OnesThenZeros [b] := by
    cases b with
    | false => exact ⟨0, 1, rfl⟩
    | true => exact ⟨1, 0, rfl⟩
  rw [List.singleton_append, List.mem_singleton] at h
  rw [h, eq_comm (a := b)]
  exact ⟨fun h => h.2, fun h => ⟨hone, h⟩⟩

theorem ones_append (bits bits' : List Bool) : ones (bits ++ bits') = ones bits + ones bits' :=
  List.count_append

@[simp] theorem ones_nil : ones [] = 0 := rfl

@[simp] theorem ones_cons_true (bits : List Bool) : ones (true :: bits) = ones bits + 1 :=
  List.count_cons_self

@[simp] theorem ones_cons_false (bits : List Bool) : ones (false :: bits) = ones bits := rfl

end CrowCore.BitRuns
