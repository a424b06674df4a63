import CrowCore.HtmlView

set_option autoImplicit false

/-!
# The digits of integers

Both versions of `dumpInteger` write the digits of a 64-bit number two at a time,
from the last one back to a place that `countDigits` left for them. The magnitude
of a negative number is a difference in the signed type.
-/
namespace CrowCore.IntegerDigits
open JsonHtmlSerializer HtmlView

inductive Undefined where
  /-- a signed operation leaves the range of its type -/
  | overflow
  | out_of_buffer
deriving DecidableEq, Repr

inductive Number where
  | int64 (number : Int64)
  | uint64 (number : UInt64)
deriving DecidableEq

namespace Number

def toInt : Number → ℤ
  | .int64 number => number.toInt
  | .uint64 number => number.toNat

def isNegative : Number → Bool
  | .int64 number => !(number ≥ 0)
  | .uint64 _ => false

def toUint64 : Number → UInt64
  | .int64 number => number.toUInt64
  | .uint64 number => number

def negated : Number → Except Undefined Number
  | .int64 number =>
    if BitVec.ssubOverflow 0#64 number.toBitVec then throw .overflow
    else return .int64 (0 - number)
  | .uint64 number => return .uint64 (0 - number)

end Number

def start (number : Number) : Except Undefined (Text × ℕ × ℕ) :=
  let numberbuffer := List.replicate numberbufferSize '\x00'
  if number.isNegative then do
    let absValue := (← number.negated).toUint64.toNat
    return (numberbuffer.set 0 '-', absValue, 1 + countDigits absValue)
  else
    let absValue := number.toUint64.toNat
    return (numberbuffer, absValue, countDigits absValue)

/-- `dumpInteger`, with how the digits are written to the buffer. -/
def dumpIntegerWith (fill : Text → ℕ → ℕ → Option Text) (out : Text) (number : Number) :
    Except Undefined Text :=
  if number.toInt = 0 then return out ++ ['0']
  else do
    let (numberbuffer, absValue, nChars) ← start number
    if nChars ≥ numberbufferSize - 1 then return out
    else
      match fill numberbuffer nChars absValue with
      | none => throw .out_of_buffer
      | some numberbuffer => return out ++ numberbuffer.take nChars

/-- The source file steps back after each digit. -/
def dumpInteger (out : Text) (number : Number) : Except Undefined Text :=
  dumpIntegerWith (fun numberbuffer nChars absValue =>
    storeDigits numberbuffer (nChars - 1) absValue) out number

namespace Header

def storeBefore (numberbuffer : Text) (bufferPtr : ℕ) (c : Char) : Option (Text × ℕ) := do
  let bufferPtr ← prev bufferPtr
  let numberbuffer ← store numberbuffer bufferPtr c
  return (numberbuffer, bufferPtr)

def storeTwo (numberbuffer : Text) (bufferPtr digitsIndex : ℕ) : Option (Text × ℕ) := do
  let (numberbuffer, bufferPtr) ← storeBefore numberbuffer bufferPtr (digitsTo99 digitsIndex).2
  storeBefore numberbuffer bufferPtr (digitsTo99 digitsIndex).1

def storeDigits (numberbuffer : Text) (bufferPtr absValue : ℕ) : Option Text :=
  if 100 ≤ absValue then do
    let (numberbuffer, bufferPtr) ← storeTwo numberbuffer bufferPtr (absValue % 100)
    storeDigits numberbuffer bufferPtr (absValue / 100)
  else if 10 ≤ absValue then do
    let (numberbuffer, _) ← storeTwo numberbuffer bufferPtr absValue
    return numberbuffer
  else do
    let (numberbuffer, _) ← storeBefore numberbuffer bufferPtr (digit absValue)
    return numberbuffer
termination_by absValue

/-- The header steps back before each digit. -/
def dumpInteger (out : Text) (number : Number) : Except Undefined Text :=
  dumpIntegerWith storeDigits out number

theorem storeBefore_succ (numberbuffer : Text) (bufferPtr : ℕ) (c : Char) :
    storeBefore numberbuffer (bufferPtr + 1) c =
      (store numberbuffer bufferPtr c).map fun numberbuffer => (numberbuffer, bufferPtr) := by
  have hprev : prev (bufferPtr + 1) = some bufferPtr := rfl
  rw [storeBefore, hprev]
  cases h : store numberbuffer bufferPtr c <;> simp [h]

theorem storeTwo_succ (numberbuffer : Text) (bufferPtr digitsIndex : ℕ) :
    storeTwo numberbuffer (bufferPtr + 1) digitsIndex =
      HtmlView.storeTwo numberbuffer bufferPtr digitsIndex := by
  rw [storeTwo, HtmlView.storeTwo, storeBefore_succ]
  cases store numberbuffer bufferPtr (digitsTo99 digitsIndex).2 <;> rfl

theorem storeDigits_zero (numberbuffer : Text) (absValue : ℕ) :
    storeDigits numberbuffer 0 absValue = none := by
  rw [storeDigits]
  split_ifs <;> rfl

theorem storeDigits_succ (numberbuffer : Text) (bufferPtr absValue : ℕ) :
    storeDigits numberbuffer (bufferPtr + 1) absValue =
      HtmlView.storeDigits numberbuffer bufferPtr absValue := by
  induction absValue using Nat.strong_induction_on generalizing numberbuffer bufferPtr with
  | _ absValue ih =>
    rw [storeDigits, HtmlView.storeDigits, storeTwo_succ, storeTwo_succ]
    split_ifs with hhundred hten
    · cases HtmlView.storeTwo numberbuffer bufferPtr (absValue % 100) with
      | none => rfl
      | some written =>
        obtain ⟨numberbuffer', _ | bufferPtr'⟩ := written
        · exact storeDigits_zero numberbuffer' _
        · exact ih _ (Nat.div_lt_self (by omega) (by decide)) numberbuffer' bufferPtr'
    · rfl
    · rw [storeBefore_succ]
      cases store numberbuffer bufferPtr (digit absValue) <;> rfl

end Header

theorem digit_eq_digitChar : ∀ n < 10, digit n = Nat.digitChar n := by decide

theorem toDigits_of_lt_ten {n : ℕ} (h : n < 10) : Nat.toDigits 10 n = [digit n] := by
  rw [Nat.toDigits_of_lt_base h, digit_eq_digitChar n h]

theorem toDigits_of_ten_le {n : ℕ} (h : 10 ≤ n) :
    Nat.toDigits 10 n = Nat.toDigits 10 (n / 10) ++ [digit (n % 10)] := by
  rw [Nat.toDigits_of_base_le (by decide) h, digit_eq_digitChar _ (Nat.mod_lt _ (by decide))]

theorem toDigits_of_lt_hundred {n : ℕ} (hten : 10 ≤ n) (h : n < 100) :
    Nat.toDigits 10 n = [(digitsTo99 n).1, (digitsTo99 n).2] := by
  rw [toDigits_of_ten_le hten, toDigits_of_lt_ten (by omega)]
  rfl

theorem toDigits_of_hundred_le {n : ℕ} (h : 100 ≤ n) : Nat.toDigits 10 n =
    Nat.toDigits 10 (n / 100) ++ [(digitsTo99 (n % 100)).1, (digitsTo99 (n % 100)).2] := by
  have hdiv : n / 10 / 10 = n / 100 := Nat.div_div_eq_div_mul n 10 10
  have hfirst : n / 10 % 10 = n % 100 / 10 := by omega
  have hlast : n % 10 = n % 100 % 10 := by omega
  rw [toDigits_of_ten_le (by omega), toDigits_of_ten_le (n := n / 10) (by omega), hdiv, hfirst,
    hlast, List.append_assoc]
  rfl

theorem countDigits_eq_length (n : ℕ) : countDigits n = (Nat.toDigits 10 n).length := by
  rw [countDigits_eq]
  induction n using Nat.strong_induction_on with
  | _ n ih =>
    by_cases h : n < 10
    · rw [toDigits_of_lt_ten h, Nat.log_of_lt h]
      rfl
    · rw [toDigits_of_ten_le (by omega), List.length_append,
        ← ih (n / 10) (Nat.div_lt_self (by omega) (by decide)),
        Nat.log_of_one_lt_of_le (by decide) (not_lt.1 h)]
      rfl

theorem toString_of_nonneg {z : ℤ} (h : 0 ≤ z) :
    (toString z).toList = Nat.toDigits 10 z.natAbs := by
  obtain ⟨n, rfl⟩ := Int.eq_ofNat_of_zero_le h
  exact String.toList_ofList

theorem toString_of_neg {z : ℤ} (h : z < 0) :
    (toString z).toList = '-' :: Nat.toDigits 10 z.natAbs := by
  obtain ⟨n, rfl⟩ := Int.eq_negSucc_of_lt_zero h
  change ("-" ++ String.ofList (Nat.toDigits 10 (n + 1))).toList = _
  rw [String.toList_append]
  exact congrArg ('-' :: ·) String.toList_ofList

theorem store_middle (pre post : Text) (old c : Char) :
    store (pre ++ old :: post) pre.length c = some (pre ++ c :: post) := by
  rw [store, if_pos (by simp), List.set_append_right _ _ (le_refl _), Nat.sub_self,
    List.set_cons_zero]

theorem storeTwo_middle (pre post : Text) (old old' : Char) (digitsIndex : ℕ) :
    storeTwo (pre ++ old :: old' :: post) (pre.length + 1) digitsIndex =
      some (pre ++ (digitsTo99 digitsIndex).1 :: (digitsTo99 digitsIndex).2 :: post,
        pre.length) := by
  have hprev : prev (pre.length + 1) = some pre.length := rfl
  have hlast : store (pre ++ old :: old' :: post) (pre.length + 1) (digitsTo99 digitsIndex).2 =
      some (pre ++ old :: (digitsTo99 digitsIndex).2 :: post) := by
    simpa using store_middle (pre ++ [old]) post old' (digitsTo99 digitsIndex).2
  have hfirst :=
    store_middle pre ((digitsTo99 digitsIndex).2 :: post) old (digitsTo99 digitsIndex).1
  rw [storeTwo, hlast]
  simp [hprev, hfirst]

theorem exists_append_pair {text : Text} {k : ℕ} (h : text.length = k + 2) :
    ∃ init old old', text = init ++ [old, old'] ∧ init.length = k := by
  have hdrop : (text.drop k).length = 2 := by rw [List.length_drop, h, Nat.add_sub_cancel_left]
  obtain ⟨old, old', heq⟩ := List.length_eq_two.1 hdrop
  refine ⟨text.take k, old, old', ?_, List.length_take_of_le (by omega)⟩
  rw [← heq, List.take_append_drop]

theorem storeDigits_middle {absValue : ℕ} (pre post : Text) {mid : Text}
    (hmid : mid.length = (Nat.toDigits 10 absValue).length) :
    storeDigits (pre ++ mid ++ post) (pre.length + mid.length - 1) absValue =
      some (pre ++ Nat.toDigits 10 absValue ++ post) := by
  induction absValue using Nat.strong_induction_on generalizing mid post with
  | _ absValue ih =>
    rw [storeDigits]
    split_ifs with hhundred hten
    · rw [toDigits_of_hundred_le hhundred, List.length_append] at hmid
      rw [toDigits_of_hundred_le hhundred]
      obtain ⟨init, old, old', rfl, hinit⟩ := exists_append_pair hmid
      have hpos : 0 < init.length := by
        rw [hinit]
        exact List.length_pos_of_ne_nil (Nat.toDigits_ne_nil)
      have htwo := storeTwo_middle (pre ++ init) post old old' (absValue % 100)
      have hprev : prev (pre ++ init).length = some (pre.length + init.length - 1) := by
        rw [prev, List.length_append, if_neg (by omega)]
      have hrest := ih (absValue / 100) (Nat.div_lt_self (by omega) (by decide))
        ((digitsTo99 (absValue % 100)).1 :: (digitsTo99 (absValue % 100)).2 :: post) hinit
      have hbuffer : pre ++ (init ++ [old, old']) ++ post = pre ++ init ++ old :: old' :: post := by
        simp
      have hptr : pre.length + (init ++ [old, old']).length - 1 = (pre ++ init).length + 1 := by
        simp
        omega
      rw [hbuffer, hptr, htwo]
      simp only [Option.bind_eq_bind, Option.bind_some, hprev, hrest]
      simp
    · rw [toDigits_of_lt_hundred hten (by omega)] at hmid ⊢
      obtain ⟨old, old', rfl⟩ := List.length_eq_two.1 hmid
      have htwo := storeTwo_middle pre post old old' absValue
      simp [htwo]
    · rw [toDigits_of_lt_ten (by omega)] at hmid ⊢
      obtain ⟨old, rfl⟩ := List.length_eq_one_iff.1 hmid
      simpa using store_middle pre post old (digit absValue)

def Fills (fill : Text → ℕ → ℕ → Option Text) : Prop :=
  ∀ (absValue : ℕ) (pre mid post : Text), mid.length = (Nat.toDigits 10 absValue).length →
    fill (pre ++ mid ++ post) (pre.length + mid.length) absValue =
      some (pre ++ Nat.toDigits 10 absValue ++ post)

theorem fills_storeDigits :
    Fills fun numberbuffer nChars absValue => storeDigits numberbuffer (nChars - 1) absValue :=
  fun _ pre _ post hmid => storeDigits_middle pre post hmid

theorem fills_header : Fills Header.storeDigits := by
  intro absValue pre mid post hmid
  have hpos : 0 < (Nat.toDigits 10 absValue).length :=
    List.length_pos_of_ne_nil Nat.toDigits_ne_nil
  obtain ⟨bufferPtr, hptr⟩ : ∃ bufferPtr, pre.length + mid.length = bufferPtr + 1 :=
    ⟨pre.length + mid.length - 1, by omega⟩
  have hmiddle := storeDigits_middle pre post hmid
  rw [hptr] at hmiddle ⊢
  rw [Header.storeDigits_succ]
  exact hmiddle

def sign (z : ℤ) : Text := if z < 0 then ['-'] else []

theorem toString_eq (z : ℤ) : (toString z).toList = sign z ++ Nat.toDigits 10 z.natAbs := by
  unfold sign
  split_ifs with h
  · exact toString_of_neg h
  · exact toString_of_nonneg (not_lt.1 h)

theorem length_toString (z : ℤ) :
    (toString z).toList.length = (sign z).length + countDigits z.natAbs := by
  rw [toString_eq, List.length_append, countDigits_eq_length]

theorem length_toString_le {z : ℤ} (h : z.natAbs < 2 ^ 64) : (toString z).toList.length ≤ 21 := by
  have hdigits : (Nat.toDigits 10 z.natAbs).length ≤ 20 := by
    rw [Nat.length_toDigits_le_iff (by decide) (by decide)]
    exact h.trans (by decide)
  have hsign : (sign z).length ≤ 1 := by
    unfold sign
    split_ifs <;> decide
  rw [toString_eq, List.length_append]
  omega

def signed (z : ℤ) : Text :=
  sign z ++ List.replicate (numberbufferSize - (sign z).length) '\x00'

theorem signed_eq (z : ℤ) : signed z =
    if z < 0 then (List.replicate numberbufferSize '\x00').set 0 '-'
    else List.replicate numberbufferSize '\x00' := by
  unfold signed sign
  split_ifs <;> rfl

theorem Fills.decimal {fill : Text → ℕ → ℕ → Option Text} (hfill : Fills fill) {z : ℤ}
    (h : z.natAbs < 2 ^ 64) : ∃ numberbuffer,
      fill (signed z) (toString z).toList.length z.natAbs = some numberbuffer ∧
        numberbuffer.take (toString z).toList.length = (toString z).toList := by
  have hroom := length_toString_le h
  rw [toString_eq, List.length_append] at hroom
  have hspare : (Nat.toDigits 10 z.natAbs).length + (numberbufferSize - (sign z).length -
      (Nat.toDigits 10 z.natAbs).length) = numberbufferSize - (sign z).length := by
    unfold numberbufferSize
    omega
  have hfilled := hfill z.natAbs (sign z)
    (List.replicate (Nat.toDigits 10 z.natAbs).length '\x00')
    (List.replicate (numberbufferSize - (sign z).length - (Nat.toDigits 10 z.natAbs).length) '\x00')
    List.length_replicate
  rw [List.append_assoc, List.replicate_append_replicate, hspare, List.length_replicate,
    ← List.length_append, ← toString_eq] at hfilled
  exact ⟨_, hfilled, List.take_left⟩

namespace Number

theorem isNegative_iff (number : Number) : number.isNegative ↔ number.toInt < 0 := by
  cases number with
  | int64 number =>
    simp [isNegative, toInt, Int64.lt_iff_toInt_lt]
  | uint64 number => simp [isNegative, toInt]

theorem natAbs_lt (number : Number) : number.toInt.natAbs < 2 ^ 64 := by
  cases number with
  | int64 number =>
    have hlower := number.le_toInt
    have hupper := number.toInt_lt
    simp only [toInt]
    omega
  | uint64 number => exact number.toNat_lt

theorem toNat_toUInt64 {number : Int64} (h : 0 ≤ number.toInt) :
    number.toUInt64.toNat = number.toInt.natAbs := by
  have hle : (0 : Int64) ≤ number := Int64.le_iff_toInt_le.2 h
  have hnat : number.toNatClampNeg = number.toInt.toNat := rfl
  rw [Int64.toNat_toUInt64_of_le hle, hnat]
  omega

theorem toNat_toUint64 {number : Number} (h : 0 ≤ number.toInt) :
    number.toUint64.toNat = number.toInt.natAbs := by
  cases number with
  | int64 number => exact toNat_toUInt64 h
  | uint64 number => rfl

theorem overflow_iff (number : Int64) :
    BitVec.ssubOverflow 0#64 number.toBitVec ↔ number = Int64.minValue := by
  have hlower := number.le_toInt
  have hupper := number.toInt_lt
  rw [← Int64.toInt_inj, Int64.toInt_minValue]
  simp only [BitVec.ssubOverflow, Int64.toInt_toBitVec, BitVec.toInt_zero, Bool.or_eq_true,
    decide_eq_true_eq]
  omega

theorem negated_spec {number : Number} (hnegative : number.toInt < 0)
    (h : number ≠ .int64 Int64.minValue) :
    ∃ number', number.negated = .ok number' ∧ number'.toInt = number.toInt.natAbs := by
  cases number with
  | int64 number =>
    have hmin : number ≠ Int64.minValue := fun heq => h (congrArg Number.int64 heq)
    have hoverflow : ¬ BitVec.ssubOverflow 0#64 number.toBitVec :=
      fun hoverflow => hmin ((overflow_iff number).1 hoverflow)
    refine ⟨.int64 (0 - number), by rw [negated, if_neg hoverflow]; rfl, ?_⟩
    have hsub := BitVec.toInt_sub_of_not_ssubOverflow hoverflow
    rw [BitVec.toInt_zero] at hsub
    change (0#64 - number.toBitVec).toInt = _
    rw [hsub]
    simp only [toInt] at hnegative ⊢
    rw [Int64.toInt_toBitVec]
    omega
  | uint64 number => exact absurd hnegative (not_lt.2 (Int.natCast_nonneg number.toNat))

end Number

theorem start_of_ne {number : Number} (h : number ≠ .int64 Int64.minValue) :
    start number = .ok (signed number.toInt, number.toInt.natAbs,
      (toString number.toInt).toList.length) := by
  rw [length_toString, signed_eq]
  unfold start sign
  by_cases hnegative : number.toInt < 0
  · obtain ⟨number', hnegated, hvalue⟩ := Number.negated_spec hnegative h
    have habs : number'.toUint64.toNat = number.toInt.natAbs := by
      rw [Number.toNat_toUint64 (by omega), hvalue, Int.natAbs_natCast]
    rw [if_pos ((Number.isNegative_iff number).2 hnegative), if_pos hnegative, if_pos hnegative,
      hnegated]
    change Except.ok _ = _
    rw [habs]
    rfl
  · rw [if_neg fun hneg => hnegative ((Number.isNegative_iff number).1 hneg), if_neg hnegative,
      if_neg hnegative, Number.toNat_toUint64 (not_lt.1 hnegative), List.length_nil, Nat.zero_add]
    rfl

theorem dumpIntegerWith_of_ne {fill : Text → ℕ → ℕ → Option Text} (hfill : Fills fill)
    (out : Text) {number : Number} (h : number ≠ .int64 Int64.minValue) :
    dumpIntegerWith fill out number = .ok (out ++ (toString number.toInt).toList) := by
  unfold dumpIntegerWith
  split_ifs with hzero
  · rw [hzero]
    rfl
  · have hroom := length_toString_le number.natAbs_lt
    obtain ⟨numberbuffer, hfilled, htake⟩ := hfill.decimal number.natAbs_lt
    have hlong : ¬ (toString number.toInt).toList.length ≥ numberbufferSize - 1 := by
      unfold numberbufferSize
      omega
    rw [start_of_ne h]
    change (if _ then _ else _) = _
    rw [if_neg hlong, hfilled]
    change Except.ok (out ++ numberbuffer.take _) = _
    rw [htake]

theorem dumpIntegerWith_minValue (fill : Text → ℕ → ℕ → Option Text) (out : Text) :
    dumpIntegerWith fill out (.int64 Int64.minValue) = .error .overflow := rfl

theorem dumpIntegerWith_decimal_iff {fill : Text → ℕ → ℕ → Option Text} (hfill : Fills fill)
    (number : Number) :
    (∀ out, dumpIntegerWith fill out number = .ok (out ++ (toString number.toInt).toList)) ↔
      number ≠ .int64 Int64.minValue := by
  constructor
  · rintro h rfl
    have herror := (dumpIntegerWith_minValue fill []).symm.trans (h [])
    cases herror
  · exact fun h out => dumpIntegerWith_of_ne hfill out h

/-- Both versions append the decimal representation of every number but the least
one, whose subtraction overflows. -/
theorem dumpInteger_decimal_iff (number : Number) :
    ((∀ out, dumpInteger out number = .ok (out ++ (toString number.toInt).toList)) ↔
      number ≠ .int64 Int64.minValue) ∧
    ((∀ out, Header.dumpInteger out number = .ok (out ++ (toString number.toInt).toList)) ↔
      number ≠ .int64 Int64.minValue) :=
  ⟨dumpIntegerWith_decimal_iff fills_storeDigits number,
    dumpIntegerWith_decimal_iff fills_header number⟩

/-- -9223372036854775808, whose negative is no 64-bit number. -/
theorem least_number_overflows : dumpInteger [] (.int64 Int64.minValue) = .error .overflow ∧
    Header.dumpInteger [] (.int64 Int64.minValue) = .error .overflow ∧
    ¬ ∀ (number : Number) (out : Text),
      dumpInteger out number = .ok (out ++ (toString number.toInt).toList) := by
  refine ⟨rfl, rfl, fun h => ?_⟩
  cases h (.int64 Int64.minValue) []

theorem nChars_eq (z : ℤ) : (if z < 0 then 1 + countDigits z.natAbs else countDigits z.natAbs) =
    (toString z).toList.length := by
  rw [length_toString]
  unfold sign
  split_ifs
  · rfl
  · exact (Nat.zero_add _).symm

theorem view_decimal {z : ℤ} (h : z.natAbs < 2 ^ 64) (out : Output) :
    ∃ out', HtmlView.dumpInteger out z = .ok out' ∧
      out'.map Written.char = out.map Written.char ++ (toString z).toList := by
  unfold HtmlView.dumpInteger
  split_ifs with hzero
  · refine ⟨_, rfl, ?_⟩
    rw [hzero, List.map_append]
    rfl
  · have hroom := length_toString_le h
    obtain ⟨numberbuffer, hfilled, htake⟩ := fills_storeDigits.decimal h
    have hlong : ¬ (toString z).toList.length ≥ numberbufferSize - 1 := by
      unfold numberbufferSize
      omega
    simp only [nChars_eq, ← signed_eq, hfilled, if_neg hlong, htake]
    refine ⟨_, rfl, ?_⟩
    rw [List.map_append, value, List.map_map]
    exact congrArg _ (List.map_id _)

theorem dumpInteger_view {number : Number} (h : number ≠ .int64 Int64.minValue)
    (out : Output) : ∃ out', HtmlView.dumpInteger out number.toInt = .ok out' ∧
      dumpInteger (out.map Written.char) number = .ok (out'.map Written.char) := by
  obtain ⟨out', hview, htext⟩ := view_decimal number.natAbs_lt out
  refine ⟨out', hview, ?_⟩
  rw [htext]
  exact dumpIntegerWith_of_ne fills_storeDigits _ h

end CrowCore.IntegerDigits
