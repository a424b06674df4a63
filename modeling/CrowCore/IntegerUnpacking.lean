import CrowCore.JsonUtils

set_option autoImplicit false

/-!
# Integers of a JSON body

A signed target reads the 64 bits of a number in two's complement, also where the
parser took the number for an unsigned one. The top of the unsigned range then
looks like the small negative numbers, and a target has room for those.
-/
namespace CrowCore.IntegerUnpacking
open JsonValue ErrorMessages JsonUtils

/-- The width of a target with `std::is_signed_v`. -/
def signedBits : Scalar → Option ℕ
  | .int16 => some 16
  | .int32 => some 32
  | .int64 => some 64
  | _ => none

/-- The width of a target with `std::is_unsigned_v` that is no `bool`. -/
def unsignedBits : Scalar → Option ℕ
  | .uint8 => some 8
  | .uint16 => some 16
  | .uint32 => some 32
  | .uint64 => some 64
  | _ => none

def IsIntegral (t : Scalar) : Prop := (signedBits t).isSome ∨ (unsignedBits t).isSome

def InSigned (bits : ℕ) (n : ℤ) : Prop := -2 ^ (bits - 1) ≤ n ∧ n < 2 ^ (bits - 1)

def InUnsigned (bits : ℕ) (n : ℤ) : Prop := 0 ≤ n ∧ n < 2 ^ bits

variable {D : Type} {F : Doubles D} {t : Scalar} {bits : ℕ}

def integer : Json Text D → Option ℤ
  | .number_integer n => some n.toInt
  | .number_unsigned n => some n.toNat
  | _ => none

def Succeeds (F : Doubles D) (t : Scalar) (jsonValue : Json Text D) : Prop :=
  ∃ value, unpackValueWithErrorCode F t jsonValue = .ok value

/-- The call stores the integer `n` or fails, and says which of the two rightly. -/
structure UnpacksFaithfully (F : Doubles D) (t : Scalar) (jsonValue : Json Text D) (n : ℤ) :
    Prop where
  stores : ∀ value, unpackValueWithErrorCode F t jsonValue = .ok value → value = .integer n
  signed : ∀ bits, signedBits t = some bits → (Succeeds F t jsonValue ↔ InSigned bits n)
  unsigned : ∀ bits, unsignedBits t = some bits → Succeeds F t jsonValue → InUnsigned bits n
  accepts : ∀ bits, unsignedBits t = some bits → ∀ m, jsonValue = .number_unsigned m →
    InUnsigned bits n → Succeeds F t jsonValue

/-- The number is one of the last 2 ^ (bits - 1) below 2 ^ 64. -/
def WrapsAround (t : Scalar) (jsonValue : Json Text D) : Prop :=
  ∃ bits m, signedBits t = some bits ∧ jsonValue = .number_unsigned m ∧
    2 ^ 64 - 2 ^ (bits - 1) ≤ m.toNat

theorem checkRange_ok {lowest max n : ℤ} {value : ScalarValue D} :
    checkRange lowest max n = .ok value ↔ (lowest ≤ n ∧ n ≤ max) ∧ value = .integer n := by
  rw [checkRange]
  split_ifs with h
  · refine iff_of_false (fun hthrown => ?_) (by omega)
    cases hthrown
  · have hin : lowest ≤ n ∧ n ≤ max := by omega
    simp only [pure, Except.pure, Except.ok.injEq, hin, true_and, and_self]
    exact eq_comm

theorem signed_eq (h : signedBits t = some bits) (jsonValue : Json Text D) :
    unpackValueWithErrorCode F t jsonValue = unpackSigned bits jsonValue := by
  cases t <;> cases h <;> rfl

theorem unsigned_eq (h : unsignedBits t = some bits) (jsonValue : Json Text D) :
    unpackValueWithErrorCode F t jsonValue = unpackUnsigned bits jsonValue := by
  cases t <;> cases h <;> rfl

theorem signed_not_unsigned (h : signedBits t = some bits) : unsignedBits t = none := by
  cases t <;> first | rfl | cases h

theorem signedBits_le (h : signedBits t = some bits) : bits ≤ 64 := by
  cases t <;> cases h <;> omega

theorem toInt64_toInt (n : UInt64) :
    n.toInt64.toInt = if n.toNat < 2 ^ 63 then (n.toNat : ℤ) else n.toNat - 2 ^ 64 := by
  change n.toBitVec.toInt = _
  rw [BitVec.toInt_eq_toNat_cond, UInt64.toNat_toBitVec]
  have h : 2 * n.toNat < 2 ^ 64 ↔ n.toNat < 2 ^ 63 := by omega
  simp only [h]
  rfl

theorem unpackSigned_ok {jsonValue : Json Text D} {n : Int64} (hn : jsonValue.getInt64 = some n)
    {value : ScalarValue D} :
    unpackSigned bits jsonValue = .ok value ↔ InSigned bits n.toInt ∧ value = .integer n.toInt := by
  rw [unpackSigned, hn, InSigned]
  change checkRange _ _ n.toInt = .ok value ↔ _
  rw [checkRange_ok, Int.le_sub_one_iff]

theorem unpackUnsigned_ok {n : UInt64} {value : ScalarValue D} :
    unpackUnsigned bits (.number_unsigned n) = .ok value ↔
      InUnsigned bits n.toNat ∧ value = .integer n.toNat := by
  rw [unpackUnsigned, InUnsigned]
  change checkRange _ _ (n.toNat : ℤ) = .ok value ↔ _
  rw [checkRange_ok, Int.le_sub_one_iff]

theorem unpackUnsigned_integer (n : Int64) (value : ScalarValue D) :
    unpackUnsigned bits (.number_integer n) ≠ .ok value := by
  intro h
  cases h

theorem signed_faithful (ht : signedBits t = some bits) {jsonValue : Json Text D} {n : Int64}
    (hn : jsonValue.getInt64 = some n) : UnpacksFaithfully F t jsonValue n.toInt where
  stores value hvalue := by
    rw [signed_eq ht] at hvalue
    exact ((unpackSigned_ok hn).1 hvalue).2
  signed bits' hbits' := by
    obtain rfl : bits = bits' := Option.some.inj (ht.symm.trans hbits')
    simp only [Succeeds, signed_eq ht, unpackSigned_ok hn]
    exact ⟨fun h => h.choose_spec.1, fun h => ⟨_, h, rfl⟩⟩
  unsigned bits' hbits' := by
    rw [signed_not_unsigned ht] at hbits'
    cases hbits'
  accepts bits' hbits' := by
    rw [signed_not_unsigned ht] at hbits'
    cases hbits'

theorem inSigned_iff (n : ℤ) :
    InSigned bits n ↔ -((2 ^ (bits - 1) : ℕ) : ℤ) ≤ n ∧ n < (2 ^ (bits - 1) : ℕ) := by
  rw [InSigned]
  push_cast
  rfl

theorem half_le (hle : bits ≤ 64) : 2 ^ (bits - 1) ≤ 2 ^ 63 :=
  Nat.pow_le_pow_right (by omega) (by omega)

theorem inSigned_toInt64 (hle : bits ≤ 64) (m : UInt64) :
    InSigned bits m.toInt64.toInt ↔
      InSigned bits m.toNat ∨ 2 ^ 64 - 2 ^ (bits - 1) ≤ m.toNat := by
  have hhalf := half_le hle
  have hm : m.toNat < 2 ^ 64 := m.toNat_lt
  rw [inSigned_iff, inSigned_iff, toInt64_toInt]
  generalize 2 ^ (bits - 1) = half at hhalf
  split_ifs <;> omega

theorem not_inSigned_top (hle : bits ≤ 64) {m : UInt64} (hm : 2 ^ 63 ≤ m.toNat) :
    ¬ InSigned bits m.toNat := by
  have hhalf := half_le hle
  rw [inSigned_iff]
  omega

theorem signed_unsigned_faithful (ht : signedBits t = some bits) (m : UInt64) :
    UnpacksFaithfully F t (.number_unsigned m) m.toNat ↔
      ¬ 2 ^ 64 - 2 ^ (bits - 1) ≤ m.toNat := by
  have hle := signedBits_le ht
  have hread : ∀ value, unpackValueWithErrorCode F t (.number_unsigned m) = .ok value ↔
      InSigned bits m.toInt64.toInt ∧ value = .integer m.toInt64.toInt := by
    intro value
    rw [signed_eq ht]
    exact unpackSigned_ok rfl
  constructor
  · intro h hwrap
    have hsucceeds : Succeeds F t (.number_unsigned m) :=
      ⟨_, (hread _).2 ⟨(inSigned_toInt64 hle m).2 (.inr hwrap), rfl⟩⟩
    have htop : 2 ^ 63 ≤ m.toNat := by
      have hhalf := half_le hle
      omega
    exact not_inSigned_top hle htop ((h.signed bits ht).1 hsucceeds)
  · intro hwrap
    by_cases hsmall : m.toNat < 2 ^ 63
    · have h : m.toInt64.toInt = m.toNat := by rw [toInt64_toInt, if_pos hsmall]
      rw [← h]
      exact signed_faithful ht rfl
    · -- the call fails, and the number is out of range
      have hout : ¬ InSigned bits m.toNat := not_inSigned_top hle (by omega)
      have hfails : ∀ value, unpackValueWithErrorCode F t (.number_unsigned m) ≠ .ok value := by
        intro value hvalue
        exact (inSigned_toInt64 hle m).1 ((hread value).1 hvalue).1 |>.elim hout hwrap
      refine ⟨fun value hvalue => (hfails value hvalue).elim, fun bits' hbits' => ?_,
        fun bits' hbits' => ?_, fun bits' hbits' => ?_⟩
      · obtain rfl : bits = bits' := Option.some.inj (ht.symm.trans hbits')
        exact iff_of_false (fun h => hfails _ h.choose_spec) hout
      · rw [signed_not_unsigned ht] at hbits'
        cases hbits'
      · rw [signed_not_unsigned ht] at hbits'
        cases hbits'

theorem unsigned_not_signed (h : unsignedBits t = some bits) : signedBits t = none := by
  cases t <;> first | rfl | cases h

theorem unsigned_faithful (ht : unsignedBits t = some bits) {jsonValue : Json Text D} {n : ℤ}
    (hn : integer jsonValue = some n) : UnpacksFaithfully F t jsonValue n := by
  have hread : ∀ value, unpackValueWithErrorCode F t jsonValue = .ok value ↔
      (∃ m, jsonValue = .number_unsigned m) ∧ InUnsigned bits n ∧ value = .integer n := by
    intro value
    rw [unsigned_eq ht]
    cases jsonValue <;> cases hn
    · exact iff_of_false (unpackUnsigned_integer _ value) fun h => by cases h.1.choose_spec
    · rw [unpackUnsigned_ok]
      exact ⟨fun h => ⟨⟨_, rfl⟩, h⟩, And.right⟩
  refine ⟨fun value hvalue => ((hread value).1 hvalue).2.2, fun bits' hbits' => ?_,
    fun bits' hbits' h => ?_, fun bits' hbits' m hm hin => ?_⟩
  · rw [unsigned_not_signed ht] at hbits'
    cases hbits'
  · obtain rfl : bits = bits' := Option.some.inj (ht.symm.trans hbits')
    exact ((hread _).1 h.choose_spec).2.1
  · obtain rfl : bits = bits' := Option.some.inj (ht.symm.trans hbits')
    exact ⟨_, (hread _).2 ⟨⟨m, hm⟩, hin, rfl⟩⟩

/-- Integers unpack faithfully, except for those at the top of the unsigned range that
a signed target takes for negative ones. -/
theorem integers_unpack_iff (F : Doubles D) (ht : IsIntegral t) {jsonValue : Json Text D} {n : ℤ}
    (hn : integer jsonValue = some n) :
    UnpacksFaithfully F t jsonValue n ↔ ¬ WrapsAround t jsonValue := by
  rcases ht with ht | ht
  · obtain ⟨bits, hbits⟩ := Option.isSome_iff_exists.1 ht
    cases jsonValue <;> cases hn
    · refine iff_of_true (signed_faithful hbits rfl) ?_
      rintro ⟨_, _, _, h, _⟩
      cases h
    · rw [signed_unsigned_faithful hbits]
      refine not_congr ⟨fun h => ⟨bits, _, hbits, rfl, h⟩, ?_⟩
      rintro ⟨bits', _, hbits', h, hwrap⟩
      cases h
      obtain rfl : bits = bits' := Option.some.inj (hbits.symm.trans hbits')
      exact hwrap
  · obtain ⟨bits, hbits⟩ := Option.isSome_iff_exists.1 ht
    refine iff_of_true (unsigned_faithful hbits hn) ?_
    rintro ⟨_, _, h, _⟩
    rw [unsigned_not_signed hbits] at h
    cases h

def sampleDoubles : Doubles Unit := { ofInt64 := fun _ => (), inRange := fun _ => true, zero := () }

/-- The largest number of 32 bits, which only an unsigned target of them takes. -/
theorem integers_unpack_iff_sample :
    UnpacksFaithfully sampleDoubles .int32 (.number_unsigned 4294967295) 4294967295 := by
  refine (integers_unpack_iff sampleDoubles (.inl rfl) rfl).2 ?_
  rintro ⟨bits, m, hbits, hm, hwrap⟩
  cases hbits
  cases hm
  revert hwrap
  decide

/-- The largest number of 64 bits is stored as -1. -/
theorem largest_unpacks_negative :
    unpackValueWithErrorCode sampleDoubles .int32 (.number_unsigned 18446744073709551615) =
      .ok (.integer (-1)) ∧
    ¬ UnpacksFaithfully sampleDoubles .int32 (.number_unsigned 18446744073709551615)
      18446744073709551615 := by
  have hread : unpackValueWithErrorCode sampleDoubles .int32
      (.number_unsigned 18446744073709551615) = .ok (.integer (-1)) := rfl
  refine ⟨hread, fun h => ?_⟩
  have hstored : ScalarValue.integer (-1) = .integer 18446744073709551615 := h.stores _ hread
  injection hstored with hstored
  omega

end CrowCore.IntegerUnpacking
