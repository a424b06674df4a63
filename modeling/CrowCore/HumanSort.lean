import CrowCore.DecimalRuns
import CrowCore.ThreeWay

set_option autoImplicit false

/-!
# Natural order

`alphanumComp` compares two strings by characters and, where both are at a digit,
by numbers. A number that has no room in an `int` counts as 0.
-/
namespace CrowCore.HumanSort
open DecimalRuns ThreeWay

def simpleIsDigit (c : UInt8) : Bool := isDigit UInt8.toChar c

/-- The value of a `char`, which is signed on some platforms. -/
def charValue (signed : Bool) (c : UInt8) : ℤ := if signed then c.toInt8.toInt else c.toNat

def maxInt : ℕ := 2 ^ 31 - 1

/-- The number at the start of a text that begins with a digit. On an error it stays 0. -/
def readInt (text : List UInt8) : ℤ := ((from_chars UInt8.toChar maxInt text).getD 0 : ℕ)

/-- The loop on what is left of both sides. Where both are at a digit, the next turn is
one in mode `NUMBER`. -/
def alphanumLoop (signed : Bool) (left right : List UInt8) : ℤ :=
  match left, right with
  | lc :: l, rc :: r =>
    if _hdigits : simpleIsDigit lc && simpleIsDigit rc then
      let diff := readInt (lc :: l) - readInt (rc :: r)
      if diff ≠ 0 then diff
      else alphanumLoop signed (afterRun UInt8.toChar (lc :: l)) (afterRun UInt8.toChar (rc :: r))
    else if simpleIsDigit lc then -1
    else if simpleIsDigit rc then 1
    else
      let diff := charValue signed lc - charValue signed rc
      if diff ≠ 0 then diff else alphanumLoop signed l r
  | [], [] => 0
  | _ :: _, [] => 1
  | [], _ :: _ => -1
termination_by left.length
decreasing_by
  · exact length_afterRun_lt (Bool.and_eq_true_iff.1 _hdigits).1 l
  · exact Nat.lt_succ_self _

def alphanumComp (signed : Bool) (left right : List UInt8) : ℤ := alphanumLoop signed left right

inductive Token where
  | number (n : ℤ)
  | char (c : UInt8)
deriving DecidableEq, Repr

def tokens : List UInt8 → List Token
  | [] => []
  | c :: text =>
    if _hdigit : simpleIsDigit c then
      .number (readInt (c :: text)) :: tokens (afterRun UInt8.toChar (c :: text))
    else .char c :: tokens text
termination_by text => text.length
decreasing_by
  · exact length_afterRun_lt _hdigit text
  · exact Nat.lt_succ_self _

section Order
variable (signed : Bool)

def tokenComp : Token → Token → ℤ
  | .number m, .number n => m - n
  | .number _, .char _ => -1
  | .char _, .number _ => 1
  | .char c, .char d => charValue signed c - charValue signed d

def tokenKey : Token → ℕ × ℤ
  | .number n => (0, n)
  | .char c => (1, charValue signed c)

theorem order_tokenComp (t t' : Token) : order (tokenComp signed) t t' =
    (compareLex (compareOn Prod.fst) (compareOn Prod.snd))
      (tokenKey signed t) (tokenKey signed t') := by
  cases t with
  | number m =>
    cases t' with
    | number n => exact order_sub (α := ℤ) (a := m) (b := n) id
    | char d => rfl
  | char c =>
    cases t' with
    | number n => rfl
    | char d => exact order_sub (a := c) (b := d) (charValue signed)

theorem transCmp_tokenComp : Std.TransCmp (order (tokenComp signed)) :=
  transCmp_of_keys (tokenKey signed) (order_tokenComp signed)

theorem tokens_of_digit {c : UInt8} {text : List UInt8} (h : simpleIsDigit c) :
    tokens (c :: text) =
      .number (readInt (c :: text)) :: tokens (afterRun UInt8.toChar (c :: text)) := by
  rw [tokens, dif_pos h]

theorem tokens_of_not_digit {c : UInt8} {text : List UInt8} (h : ¬ simpleIsDigit c) :
    tokens (c :: text) = .char c :: tokens text := by
  rw [tokens, dif_neg h]

theorem order_alphanumComp (left right : List UInt8) :
    order (alphanumComp signed) left right =
      List.compareLex (order (tokenComp signed)) (tokens left) (tokens right) := by
  change compare (alphanumLoop signed left right) 0 = _
  fun_induction alphanumLoop signed left right with
  | case1 lc l rc r hdigits diff hdiff =>
    obtain ⟨hl, hr⟩ := Bool.and_eq_true_iff.1 hdigits
    have hne : tokenComp signed (.number (readInt (lc :: l))) (.number (readInt (rc :: r))) ≠ 0 :=
      hdiff
    rw [tokens_of_digit hl, tokens_of_digit hr, compareLex_cons_of_ne hne]
    rfl
  | case2 lc l rc r hdigits diff hdiff ih =>
    obtain ⟨hl, hr⟩ := Bool.and_eq_true_iff.1 hdigits
    have heq : tokenComp signed (.number (readInt (lc :: l))) (.number (readInt (rc :: r))) = 0 :=
      not_not.1 hdiff
    rw [tokens_of_digit hl, tokens_of_digit hr, compareLex_cons_of_eq heq, ih]
  | case3 lc l rc r hdigits hl =>
    have hr : ¬ simpleIsDigit rc := fun hr => hdigits (Bool.and_eq_true_iff.2 ⟨hl, hr⟩)
    rw [tokens_of_digit hl, tokens_of_not_digit hr]
    rfl
  | case4 lc l rc r hdigits hl hr =>
    rw [tokens_of_not_digit hl, tokens_of_digit hr]
    rfl
  | case5 lc l rc r hdigits hl hr diff hdiff =>
    have hne : tokenComp signed (.char lc) (.char rc) ≠ 0 := hdiff
    rw [tokens_of_not_digit hl, tokens_of_not_digit hr, compareLex_cons_of_ne hne]
    rfl
  | case6 lc l rc r hdigits hl hr diff hdiff ih =>
    have heq : tokenComp signed (.char lc) (.char rc) = 0 := not_not.1 hdiff
    rw [tokens_of_not_digit hl, tokens_of_not_digit hr, compareLex_cons_of_eq heq, ih]
  | case7 => rw [tokens, List.compareLex_nil_nil]; rfl
  | case8 lc l =>
    by_cases hl : simpleIsDigit lc
    · rw [tokens_of_digit hl, tokens, List.compareLex_cons_nil]; rfl
    · rw [tokens_of_not_digit hl, tokens, List.compareLex_cons_nil]; rfl
  | case9 rc r =>
    by_cases hr : simpleIsDigit rc
    · rw [tokens_of_digit hr, tokens, List.compareLex_nil_cons]; rfl
    · rw [tokens_of_not_digit hr, tokens, List.compareLex_nil_cons]; rfl

theorem transCmp_alphanumComp : Std.TransCmp (order (alphanumComp signed)) := by
  have := transCmp_tokenComp signed
  exact transCmp_of_keys tokens (order_alphanumComp signed)

end Order

/-- `alphanumComp` is a strict weak order. -/
theorem alphanumComp_strictWeak (signed : Bool) : StrictWeak (alphanumComp signed) :=
  strictWeak_of_transCmp (transCmp_alphanumComp signed)

def decimal (n : ℕ) : List UInt8 := (Nat.toDigits 10 n).map fun ch => UInt8.ofNat ch.toNat

theorem toChar_ofNat {ch : Char} (h : ch.toNat < 256) : (UInt8.ofNat ch.toNat).toChar = ch := by
  have htoNat : ∀ b : UInt8, b.toChar.toNat = b.toNat := fun b => by
    simp [UInt8.toChar, Char.toNat]
  apply Char.toNat_inj.1
  rw [htoNat, UInt8.toNat_ofNat', Nat.mod_eq_of_lt h]

theorem decimal_toChar (n : ℕ) : (decimal n).map UInt8.toChar = Nat.toDigits 10 n := by
  rw [decimal, List.map_map]
  refine (List.map_congr_left fun ch hch => ?_).trans (List.map_id _)
  have hdigit := Nat.isDigit_of_mem_toDigits (by decide) (by decide) hch
  have hle : ch.toNat ≤ 57 := (Char.isDigit_iff_toNat.1 hdigit).2
  exact toChar_ofNat (by omega)

def intValue (n : ℕ) : ℤ := if n < 2 ^ 31 then n else 0

theorem tokens_decimal (n : ℕ) {s : List UInt8} (hs : ∀ c ∈ s.head?, ¬ simpleIsDigit c) :
    tokens (decimal n ++ s) = .number (intValue n) :: tokens s := by
  have hrun := isDigit_of_decimal (decimal_toChar n)
  obtain ⟨hdigits, hafter⟩ := digitRun_append hrun hs
  have hne : decimal n ≠ [] := by simp [decimal, Nat.toDigits_ne_nil]
  have hread : readInt (decimal n ++ s) = intValue n := by
    rw [readInt, from_chars, hdigits, if_neg hne, numberOf_decimal (decimal_toChar n), intValue,
      maxInt]
    split_ifs <;> first | rfl | omega
  obtain ⟨c, text, hcons⟩ := List.exists_cons_of_ne_nil hne
  have hc : simpleIsDigit c := hrun c (by rw [hcons]; exact List.mem_cons_self)
  rw [hcons, List.cons_append] at hread hafter
  rw [hcons, List.cons_append, tokens_of_digit hc, hread, hafter]

theorem tokens_append {p : List UInt8} (hp : ∀ c ∈ p.getLast?, ¬ simpleIsDigit c)
    (text : List UInt8) : tokens (p ++ text) = tokens p ++ tokens text := by
  fun_induction tokens p with
  | case1 => rfl
  | case2 c p hdigit ih =>
    have hsplit := digitRun_append_afterRun UInt8.toChar (c :: p)
    have hne : afterRun UInt8.toChar (c :: p) ≠ [] := by
      intro hnil
      rw [hnil, List.append_nil] at hsplit
      have hlast : (c :: p).getLast? = some (p.getLast?.getD c) := List.getLast?_cons
      have hmem := List.mem_of_getLast? hlast
      rw [← hsplit] at hmem
      exact hp _ hlast (List.mem_takeWhile_imp hmem)
    obtain ⟨hrun, hafter⟩ := digitRun_append_of_lt hne text
    have hread : readInt (c :: p ++ text) = readInt (c :: p) := by
      rw [readInt, readInt, from_chars, from_chars, hrun]
    have hlast : (afterRun UInt8.toChar (c :: p)).getLast? = (c :: p).getLast? := by
      rw [← List.getLast?_append_of_ne_nil (digitRun UInt8.toChar (c :: p)) hne, hsplit]
    rw [List.cons_append, tokens_of_digit hdigit, ← List.cons_append, hread, hafter,
      ih (hlast ▸ hp), List.cons_append]
  | case3 c p hdigit ih =>
    rw [List.cons_append, tokens_of_not_digit hdigit, List.cons_append, ih]
    intro d hd
    refine hp d ?_
    cases p with
    | nil => cases hd
    | cons e p => simpa using hd

/-- The numbers between two strings are compared by value if and only if the greater
one has room in an `int`. -/
theorem numbers_sort_iff (signed : Bool) {p s : List UInt8}
    (hp : ∀ c ∈ p.getLast?, ¬ simpleIsDigit c) (hs : ∀ c ∈ s.head?, ¬ simpleIsDigit c) {m n : ℕ}
    (hmn : m < n) :
    alphanumComp signed (p ++ decimal m ++ s) (p ++ decimal n ++ s) < 0 ↔ n < 2 ^ 31 := by
  have htrans := transCmp_tokenComp signed
  have hvalues : intValue m - intValue n < 0 ↔ n < 2 ^ 31 := by
    unfold intValue
    split_ifs <;> omega
  rw [← order_eq_lt, order_alphanumComp, List.append_assoc, List.append_assoc, tokens_append hp,
    tokens_append hp, tokens_decimal m hs, tokens_decimal n hs, compareLex_append_left]
  by_cases hdiff : intValue m - intValue n = 0
  · have heq : tokenComp signed (.number (intValue m)) (.number (intValue n)) = 0 := hdiff
    have hself : List.compareLex (order (tokenComp signed)) (tokens s) (tokens s) = .eq :=
      Std.ReflCmp.compare_self
    rw [compareLex_cons_of_eq heq, ← hvalues, hself, hdiff]
    decide
  · have hne : tokenComp signed (.number (intValue m)) (.number (intValue n)) ≠ 0 := hdiff
    rw [compareLex_cons_of_ne hne, order_eq_lt, ← hvalues]
    rfl

theorem numbers_sort_iff_sample :
    9 < 10 ∧ alphanumComp true (decimal 9) (decimal 10) < 0 := by
  have h := numbers_sort_iff true (p := []) (s := []) (m := 9) (n := 10) (by simp) (by simp)
    (by decide)
  exact ⟨by decide, by simpa using h.2 (by decide)⟩

/-- The first number without room in an `int` comes before 1. -/
theorem large_number_sorts_first :
    1 < 2 ^ 31 ∧
      ¬ alphanumComp true ([] ++ decimal 1 ++ []) ([] ++ decimal (2 ^ 31) ++ []) < 0 := by
  decide +kernel

end CrowCore.HumanSort
