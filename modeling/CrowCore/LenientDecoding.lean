import CrowCore.Base64

set_option autoImplicit false

/-!
# Decoding base64

`base64Decode` reads four symbols at a time. It stops at the first '=' without a look
at what follows, and at the end of the input without a look at the bits that are left
of the last symbol.
-/
namespace CrowCore.LenientDecoding
open Base64

def nop : UInt8 := 0xFF

def decodingData : List UInt8 := [
    nop, nop, nop, nop, nop, nop, nop, nop, nop, nop, nop, nop, nop, nop,
    nop, nop, nop, nop, nop, nop, nop, nop, nop, nop, nop, nop, nop, nop,
    nop, nop, nop, nop, nop, nop, nop, nop, nop, nop, nop, nop, nop, nop,
    nop, 62,  nop, nop, nop, 63,  52,  53,  54,  55,  56,  57,  58,  59,
    60,  61,  nop, nop, nop, nop, nop, nop, nop, 0,   1,   2,   3,   4,
    5,   6,   7,   8,   9,   10,  11,  12,  13,  14,  15,  16,  17,  18,
    19,  20,  21,  22,  23,  24,  25,  nop, nop, nop, nop, nop, nop, 26,
    27,  28,  29,  30,  31,  32,  33,  34,  35,  36,  37,  38,  39,  40,
    41,  42,  43,  44,  45,  46,  47,  48,  49,  50,  51,  nop, nop, nop,
    nop, nop, nop, nop, nop, nop, nop, nop, nop, nop, nop, nop, nop, nop,
    nop, nop, nop, nop, nop, nop, nop, nop, nop, nop, nop, nop, nop, nop,
    nop, nop, nop, nop, nop, nop, nop, nop, nop, nop, nop, nop, nop, nop,
    nop, nop, nop, nop, nop, nop, nop, nop, nop, nop, nop, nop, nop, nop,
    nop, nop, nop, nop, nop, nop, nop, nop, nop, nop, nop, nop, nop, nop,
    nop, nop, nop, nop, nop, nop, nop, nop, nop, nop, nop, nop, nop, nop,
    nop, nop, nop, nop, nop, nop, nop, nop, nop, nop, nop, nop, nop, nop,
    nop, nop, nop, nop, nop, nop, nop, nop, nop, nop, nop, nop, nop, nop,
    nop, nop, nop, nop, nop, nop, nop, nop, nop, nop, nop, nop, nop, nop,
    nop, nop, nop, nop]

def getCodeValue (c : Char) : UInt8 := decodingData.getD c.toNat nop

def firstByte (base64code0 base64code1 : UInt8) : UInt8 :=
  (base64code0 <<< 2) ||| ((base64code1 >>> 4) &&& 0x3)

def secondByte (base64code1 base64code2 : UInt8) : UInt8 :=
  ((base64code1 <<< 4) &&& (0xf0 : UInt8)) ||| ((base64code2 >>> 2) &&& 0x0f)

def thirdByte (base64code2 base64code3 : UInt8) : UInt8 :=
  ((base64code2 <<< 6) &&& 0xc0) ||| base64code3

/-- The loop, on what is left of the input: the result and the output. -/
def decodeLoop (input : Text) (output : List UInt8) : Bool × List UInt8 :=
  match input with
  | [] => (true, output)
  | ch0 :: input =>
    let base64code0 := getCodeValue ch0
    if base64code0 = nop then (false, output)
    else
      match input with
      | [] => (false, output)
      | ch1 :: input =>
        let base64code1 := getCodeValue ch1
        if base64code1 = nop then (false, output)
        else
          let output := output ++ [firstByte base64code0 base64code1]
          match input with
          | [] => (true, output)
          | ch2 :: input =>
            if ch2 = '=' then (base64code1 &&& 0x0f = 0, output)
            else
              let base64code2 := getCodeValue ch2
              if base64code2 = nop then (false, output)
              else
                let output := output ++ [secondByte base64code1 base64code2]
                match input with
                | [] => (true, output)
                | ch3 :: input =>
                  if ch3 = '=' then (base64code2 &&& 0x03 = 0, output)
                  else
                    let base64code3 := getCodeValue ch3
                    if base64code3 = nop then (false, output)
                    else decodeLoop input (output ++ [thirdByte base64code2 base64code3])

/-- The result, and the output, which is cleared first. -/
def base64Decode (input : Text) : Bool × List UInt8 := decodeLoop input []

def Symbol (ch : Char) : Prop := ∃ n < 64, ch = keyAt n

def code (ch : Char) : ℕ := (getCodeValue ch).toNat

theorem key_eq : key = [
    'A', 'B', 'C', 'D', 'E', 'F', 'G', 'H', 'I', 'J', 'K', 'L', 'M', 'N', 'O', 'P',
    'Q', 'R', 'S', 'T', 'U', 'V', 'W', 'X', 'Y', 'Z', 'a', 'b', 'c', 'd', 'e', 'f',
    'g', 'h', 'i', 'j', 'k', 'l', 'm', 'n', 'o', 'p', 'q', 'r', 's', 't', 'u', 'v',
    'w', 'x', 'y', 'z', '0', '1', '2', '3', '4', '5', '6', '7', '8', '9', '+', '/'] :=
  String.toList_ofList

-- the kernel reads a list of characters much faster than a string
theorem getCodeValue_keyAt : ∀ n < 64, getCodeValue (keyAt n) = UInt8.ofNat n ∧
    (UInt8.ofNat n).toNat = n ∧ UInt8.ofNat n ≠ nop ∧ keyAt n ≠ '=' := by
  unfold keyAt
  rw [key_eq]
  decide +kernel

theorem code_keyAt {n : ℕ} (hn : n < 64) : code (keyAt n) = n := by
  obtain ⟨hcode, hofNat, -⟩ := getCodeValue_keyAt n hn
  rw [code, hcode, hofNat]

theorem keyAt_inj {m n : ℕ} (hm : m < 64) (hn : n < 64) (h : keyAt m = keyAt n) : m = n := by
  rw [← code_keyAt hm, h, code_keyAt hn]

theorem table_entries : decodingData.zipIdx.all fun entry => decide (entry.1 = nop ∨
    entry.1.toNat < 64 ∧ entry.2 = (keyAt entry.1.toNat).toNat) := by
  unfold keyAt
  rw [key_eq]
  decide +kernel

theorem getCodeValue_of_not_symbol {ch : Char} (h : ¬ Symbol ch) : getCodeValue ch = nop := by
  rcases lt_or_ge ch.toNat decodingData.length with hlt | hge
  · have hcode : getCodeValue ch = decodingData[ch.toNat] := List.getD_eq_getElem _ _ hlt
    have hmem : (getCodeValue ch, ch.toNat) ∈ decodingData.zipIdx :=
      List.mem_zipIdx_iff_getElem?.2 (by rw [hcode, List.getElem?_eq_getElem hlt])
    rcases of_decide_eq_true (List.all_eq_true.1 table_entries _ hmem) with hnop | ⟨hlt, hplace⟩
    · exact hnop
    · exact (h ⟨_, hlt, Char.toNat_inj.1 hplace⟩).elim
  · exact List.getD_eq_default _ _ hge

theorem symbol_iff {ch : Char} : Symbol ch ↔ getCodeValue ch ≠ nop := by
  constructor
  · rintro ⟨n, hn, rfl⟩
    obtain ⟨hcode, -, hne, -⟩ := getCodeValue_keyAt n hn
    rwa [hcode]
  · exact fun hne => by_contra fun h => hne (getCodeValue_of_not_symbol h)

def isSymbol (ch : Char) : Bool := getCodeValue ch != nop

theorem isSymbol_iff {ch : Char} : isSymbol ch ↔ Symbol ch := by
  rw [isSymbol, symbol_iff, bne_iff_ne]

theorem code_bits : ∀ n < 64, (UInt8.ofNat n).toNat = n ∧
    (UInt8.ofNat n <<< 2).toNat = n * 4 ∧ (UInt8.ofNat n >>> 4 &&& 0x3).toNat = n / 16 ∧
    (UInt8.ofNat n <<< 4 &&& 0xf0).toNat = n % 16 * 16 ∧
    (UInt8.ofNat n >>> 2 &&& 0x0f).toNat = n / 4 ∧
    (UInt8.ofNat n <<< 6 &&& 0xc0).toNat = n % 4 * 64 ∧
    (UInt8.ofNat n &&& 0x0f).toNat = n % 16 ∧ (UInt8.ofNat n &&& 0x03).toNat = n % 4 := by
  decide +kernel

theorem toNat_or (n : ℕ) {a b : UInt8} {high : ℕ} (ha : a.toNat = high * 2 ^ n)
    (hb : b.toNat < 2 ^ n) : (a ||| b).toNat = a.toNat + b.toNat := by
  rw [UInt8.toNat_or, ha, ← Nat.shiftLeft_eq, Nat.shiftLeft_add_eq_or_of_lt hb]

section Bytes
variable {m n : ℕ}

theorem firstByte_toNat (hm : m < 64) (hn : n < 64) :
    (firstByte (UInt8.ofNat m) (UInt8.ofNat n)).toNat = m * 4 + n / 16 := by
  obtain ⟨-, hhigh, -⟩ := code_bits m hm
  obtain ⟨-, -, hlow, -⟩ := code_bits n hn
  have hlt : (UInt8.ofNat n >>> 4 &&& 0x3).toNat < 2 ^ 2 := by omega
  rw [firstByte, toNat_or 2 hhigh hlt, hhigh, hlow]

theorem secondByte_toNat (hm : m < 64) (hn : n < 64) :
    (secondByte (UInt8.ofNat m) (UInt8.ofNat n)).toNat = m % 16 * 16 + n / 4 := by
  obtain ⟨-, -, -, hhigh, -⟩ := code_bits m hm
  obtain ⟨-, -, -, -, hlow, -⟩ := code_bits n hn
  have hlt : (UInt8.ofNat n >>> 2 &&& 0x0f).toNat < 2 ^ 4 := by omega
  rw [secondByte, toNat_or 4 hhigh hlt, hhigh, hlow]

theorem thirdByte_toNat (hm : m < 64) (hn : n < 64) :
    (thirdByte (UInt8.ofNat m) (UInt8.ofNat n)).toNat = m % 4 * 64 + n := by
  obtain ⟨-, -, -, -, -, hhigh, -⟩ := code_bits m hm
  obtain ⟨hlow, -⟩ := code_bits n hn
  have hlt : (UInt8.ofNat n).toNat < 2 ^ 6 := by omega
  rw [thirdByte, toNat_or 6 hhigh hlt, hhigh, hlow]

theorem unused_bits (hn : n < 64) : (UInt8.ofNat n &&& 0x0f = 0 ↔ n % 16 = 0) ∧
    (UInt8.ofNat n &&& 0x03 = 0 ↔ n % 4 = 0) := by
  obtain ⟨-, -, -, -, -, -, hfour, htwo⟩ := code_bits n hn
  rw [← UInt8.toNat_inj, ← UInt8.toNat_inj, hfour, htwo]
  exact ⟨Iff.rfl, Iff.rfl⟩

end Bytes

section Group
variable {m0 m1 m2 m3 : ℕ}

theorem decodeLoop_codes (h0 : m0 < 64) (h1 : m1 < 64) (h2 : m2 < 64) (h3 : m3 < 64)
    (input : Text) (output : List UInt8) :
    decodeLoop (keyAt m0 :: keyAt m1 :: keyAt m2 :: keyAt m3 :: input) output =
      decodeLoop input (output ++ [firstByte (UInt8.ofNat m0) (UInt8.ofNat m1),
        secondByte (UInt8.ofNat m1) (UInt8.ofNat m2),
        thirdByte (UInt8.ofNat m2) (UInt8.ofNat m3)]) := by
  obtain ⟨hc0, -, hn0, -⟩ := getCodeValue_keyAt m0 h0
  obtain ⟨hc1, -, hn1, -⟩ := getCodeValue_keyAt m1 h1
  obtain ⟨hc2, -, hn2, hp2⟩ := getCodeValue_keyAt m2 h2
  obtain ⟨hc3, -, hn3, hp3⟩ := getCodeValue_keyAt m3 h3
  rw [decodeLoop]
  simp only [hc0, hc1, hc2, hc3, hn0, hn1, hn2, hn3, hp2, hp3, if_false, List.append_assoc,
    List.cons_append, List.nil_append]

theorem group_bytes (h0 : m0 < 64) (h1 : m1 < 64) (h2 : m2 < 64) (h3 : m3 < 64) :
    group (value (firstByte (UInt8.ofNat m0) (UInt8.ofNat m1))
      (secondByte (UInt8.ofNat m1) (UInt8.ofNat m2))
      (thirdByte (UInt8.ofNat m2) (UInt8.ofNat m3))) =
        [keyAt m0, keyAt m1, keyAt m2, keyAt m3] := by
  have e0 : (m0 * 4 + m1 / 16) / 4 = m0 := by omega
  have e1 : (m0 * 4 + m1 / 16) % 4 * 16 + (m1 % 16 * 16 + m2 / 4) / 16 = m1 := by omega
  have e2 : (m1 % 16 * 16 + m2 / 4) % 16 * 4 + (m2 % 4 * 64 + m3) / 64 = m2 := by omega
  have e3 : (m2 % 4 * 64 + m3) % 64 = m3 := by omega
  rw [group_value, firstByte_toNat h0 h1, secondByte_toNat h1 h2, thirdByte_toNat h2 h3, e0, e1,
    e2, e3]

end Group

theorem firstByte_group (a : UInt8) {n : ℕ} (hn : n < 16) :
    firstByte (UInt8.ofNat (a.toNat / 4)) (UInt8.ofNat (a.toNat % 4 * 16 + n)) = a := by
  have ha := a.toNat_lt
  apply UInt8.toNat_inj.1
  rw [firstByte_toNat (by omega) (by omega)]
  omega

theorem secondByte_group (b : UInt8) {m n : ℕ} (hm : m < 4) (hn : n < 4) :
    secondByte (UInt8.ofNat (m * 16 + b.toNat / 16)) (UInt8.ofNat (b.toNat % 16 * 4 + n)) = b := by
  have hb := b.toNat_lt
  apply UInt8.toNat_inj.1
  rw [secondByte_toNat (by omega) (by omega)]
  omega

theorem thirdByte_group (c : UInt8) {m : ℕ} (hm : m < 16) :
    thirdByte (UInt8.ofNat (m * 4 + c.toNat / 64)) (UInt8.ofNat (c.toNat % 64)) = c := by
  have hc := c.toNat_lt
  apply UInt8.toNat_inj.1
  rw [thirdByte_toNat (by omega) (by omega)]
  omega

theorem decodeLoop_group (a b c : UInt8) (input : Text) (output : List UInt8) :
    decodeLoop (group (value a b c) ++ input) output = decodeLoop input (output ++ [a, b, c]) := by
  have ha := a.toNat_lt
  have hb := b.toNat_lt
  have hc := c.toNat_lt
  rw [group_value]
  simp only [List.cons_append, List.nil_append]
  rw [decodeLoop_codes (by omega) (by omega) (by omega) (by omega),
    firstByte_group a (by omega), secondByte_group b (by omega) (by omega),
    thirdByte_group c (by omega)]

theorem decodeLoop_two {m0 m1 : ℕ} (h0 : m0 < 64) (h1 : m1 < 64) (rest : Text)
    (output : List UInt8) : decodeLoop (keyAt m0 :: keyAt m1 :: '=' :: rest) output =
      (decide (m1 % 16 = 0), output ++ [firstByte (UInt8.ofNat m0) (UInt8.ofNat m1)]) := by
  obtain ⟨hc0, -, hn0, -⟩ := getCodeValue_keyAt m0 h0
  obtain ⟨hc1, -, hn1, -⟩ := getCodeValue_keyAt m1 h1
  rw [decodeLoop]
  simp only [hc0, hc1, hn0, hn1, if_false, if_true, (unused_bits h1).1]

theorem decodeLoop_three {m0 m1 m2 : ℕ} (h0 : m0 < 64) (h1 : m1 < 64) (h2 : m2 < 64)
    (rest : Text) (output : List UInt8) :
    decodeLoop (keyAt m0 :: keyAt m1 :: keyAt m2 :: '=' :: rest) output =
      (decide (m2 % 4 = 0), output ++ [firstByte (UInt8.ofNat m0) (UInt8.ofNat m1),
        secondByte (UInt8.ofNat m1) (UInt8.ofNat m2)]) := by
  obtain ⟨hc0, -, hn0, -⟩ := getCodeValue_keyAt m0 h0
  obtain ⟨hc1, -, hn1, -⟩ := getCodeValue_keyAt m1 h1
  obtain ⟨hc2, -, hn2, hp2⟩ := getCodeValue_keyAt m2 h2
  rw [decodeLoop]
  simp only [hc0, hc1, hc2, hn0, hn1, hn2, hp2, if_false, if_true, (unused_bits h2).2,
    List.append_assoc, List.cons_append, List.nil_append]

theorem decodeLoop_base64 (data output : List UInt8) :
    decodeLoop (base64 data) output = (true, output ++ data) := by
  induction data using base64.induct generalizing output with
  | case1 => rw [base64, decodeLoop, List.append_nil]
  | case2 a =>
    have ha := a.toNat_lt
    have hzero : (0 : UInt8).toNat = 0 := rfl
    rw [base64, group_value, hzero]
    simp only [List.take_succ_cons, List.take_zero, List.cons_append, List.nil_append]
    rw [decodeLoop_two (by omega) (by omega), firstByte_group a (by omega)]
    simp
  | case3 a b =>
    have ha := a.toNat_lt
    have hb := b.toNat_lt
    have hzero : (0 : UInt8).toNat = 0 := rfl
    rw [base64, group_value, hzero]
    simp only [List.take_succ_cons, List.take_zero, List.cons_append, List.nil_append]
    rw [decodeLoop_three (by omega) (by omega) (by omega), firstByte_group a (by omega),
      secondByte_group b (by omega) (by omega)]
    simp
  | case4 a b c data ih =>
    rw [base64, decodeLoop_group, ih, List.append_assoc]
    rfl

/-- Decoding gives back what was encoded. -/
theorem base64Decode_base64encode (data : List UInt8) :
    base64Decode (base64encode data) = (true, data) := by
  rw [base64encode_eq, base64Decode, decodeLoop_base64, List.nil_append]

/-- The bits of the last symbol that make no byte. -/
def unusedBits : Text → ℕ
  | [_, ch] => code ch % 16
  | [_, _, ch] => code ch % 4
  | _ => 0

def padding (last : Text) : Text := List.replicate ((4 - last.length) % 4) '='

/-- An input as whole groups of symbols, the symbols of a last group, and the rest. -/
structure Parts (input whole last rest : Text) : Prop where
  eq : input = whole ++ (last ++ rest)
  whole_symbols : ∀ ch ∈ whole, Symbol ch
  dvd : 4 ∣ whole.length
  last_symbols : ∀ ch ∈ last, Symbol ch
  last_lt : last.length < 4
  rest_head : ∀ ch ∈ rest.head?, ¬ Symbol ch

/-- The symbols end the input and leave bits unused, or an '=' stands where padding may
begin and is followed by something else than the padding. -/
def Loose (input : Text) : Prop :=
  ∃ whole last rest, Parts input whole last rest ∧
    ((rest = [] ∧ unusedBits last ≠ 0) ∨
      (rest.head? = some '=' ∧ 2 ≤ last.length ∧ unusedBits last = 0 ∧ ¬ rest <+: padding last))

/-- The encoding of the bytes, of which padding may be left out at the end. -/
def Encodes (input : Text) (data : List UInt8) : Prop :=
  ∃ k, input ++ List.replicate k '=' = base64encode data

theorem exists_parts (input : Text) : ∃ whole last rest, Parts input whole last rest := by
  obtain ⟨run, hrun⟩ : ∃ run, run = input.takeWhile isSymbol := ⟨_, rfl⟩
  have hsymbols : ∀ ch ∈ run, Symbol ch := fun ch hch =>
    isSymbol_iff.1 (List.mem_takeWhile_imp (hrun ▸ hch))
  refine ⟨run.take (run.length / 4 * 4), run.drop (run.length / 4 * 4), input.dropWhile isSymbol,
    ?_, fun ch hch => hsymbols ch (List.mem_of_mem_take hch), ?_,
    fun ch hch => hsymbols ch (List.mem_of_mem_drop hch), ?_, fun ch hch => ?_⟩
  · rw [← List.append_assoc, List.take_append_drop, hrun, List.takeWhile_append_dropWhile]
  · rw [List.length_take, Nat.min_eq_left (Nat.div_mul_le_self _ _)]
    exact Nat.dvd_mul_left 4 _
  · rw [List.length_drop]
    omega
  · have hnot := List.head?_dropWhile_not isSymbol input
    rw [Option.mem_def.1 hch] at hnot
    rw [← isSymbol_iff]
    simpa using hnot

theorem whole_groups {whole : Text} (hsymbols : ∀ ch ∈ whole, Symbol ch) (hdvd : 4 ∣ whole.length) :
    ∃ data, (∀ more, base64 (data ++ more) = whole ++ base64 more) ∧
      ∀ rest output, decodeLoop (whole ++ rest) output = decodeLoop rest (output ++ data) := by
  obtain ⟨n, hn⟩ := hdvd
  induction n generalizing whole with
  | zero =>
    obtain rfl := List.eq_nil_of_length_eq_zero hn
    exact ⟨[], fun _ => rfl, fun _ _ => by rw [List.nil_append, List.append_nil]⟩
  | succ n ih =>
    obtain ⟨c0, c1, c2, c3, whole, rfl⟩ : ∃ c0 c1 c2 c3 whole',
        whole = c0 :: c1 :: c2 :: c3 :: whole' := by
      rcases whole with _ | ⟨c0, _ | ⟨c1, _ | ⟨c2, _ | ⟨c3, whole⟩⟩⟩⟩
      case cons.cons.cons.cons => exact ⟨c0, c1, c2, c3, whole, rfl⟩
      all_goals simp only [List.length_cons, List.length_nil] at hn; omega
    simp only [List.forall_mem_cons] at hsymbols
    obtain ⟨⟨m0, h0, rfl⟩, ⟨m1, h1, rfl⟩, ⟨m2, h2, rfl⟩, ⟨m3, h3, rfl⟩, hwhole⟩ := hsymbols
    obtain ⟨data, hdata, hdecode⟩ := ih hwhole (by simp only [List.length_cons] at hn; omega)
    refine ⟨firstByte (UInt8.ofNat m0) (UInt8.ofNat m1) ::
      secondByte (UInt8.ofNat m1) (UInt8.ofNat m2) ::
        thirdByte (UInt8.ofNat m2) (UInt8.ofNat m3) :: data, fun more => ?_, fun rest output => ?_⟩
    · rw [List.cons_append, List.cons_append, List.cons_append, base64, group_bytes h0 h1 h2 h3,
        hdata]
      rfl
    · simp only [List.cons_append]
      rw [decodeLoop_codes h0 h1 h2 h3, hdecode, List.append_assoc]
      rfl

/-- Padding may be added to the rest exactly if it is the beginning of the padding. -/
theorem append_padding_iff {rest : Text} {n : ℕ} :
    (∃ k, rest ++ List.replicate k '=' = List.replicate n '=') ↔ rest <+: List.replicate n '=' := by
  constructor
  · rintro ⟨k, hk⟩
    exact ⟨_, hk⟩
  · rintro ⟨more, hmore⟩
    refine ⟨more.length, ?_⟩
    have hall : ∀ ch ∈ more, ch = '=' := fun ch hch =>
      List.eq_of_mem_replicate (hmore ▸ List.mem_append_right rest hch)
    rw [← hmore, List.eq_replicate_of_mem hall, List.length_replicate]

structure LastGroup (last rest : Text) (output : List UInt8) : Prop where
  accepts : (decodeLoop (last ++ rest) output).1 ↔ (rest = [] ∧ last.length ≠ 1) ∨
    (rest.head? = some '=' ∧ 2 ≤ last.length ∧ unusedBits last = 0)
  encodes : (decodeLoop (last ++ rest) output).1 → ∃ data,
    (decodeLoop (last ++ rest) output).2 = output ++ data ∧
      ((∃ k, last ++ rest ++ List.replicate k '=' = base64 data) ↔
        unusedBits last = 0 ∧ rest <+: padding last)

theorem rest_cases {rest : Text} (hrest : ∀ ch ∈ rest.head?, ¬ Symbol ch) :
    rest = [] ∨ (∃ more, rest = '=' :: more) ∨
      ∃ ch more, rest = ch :: more ∧ ch ≠ '=' ∧ getCodeValue ch = nop := by
  cases rest with
  | nil => exact .inl rfl
  | cons ch more =>
    by_cases hch : ch = '='
    · exact .inr (.inl ⟨more, by rw [hch]⟩)
    · exact .inr (.inr ⟨ch, more, rfl, hch, getCodeValue_of_not_symbol (hrest ch rfl)⟩)

theorem lastGroup_of_refused {last rest : Text} {output : List UInt8}
    (hfalse : (decodeLoop (last ++ rest) output).1 = false)
    (hrest : ¬ (rest = [] ∧ last.length ≠ 1))
    (hhead : ¬ (rest.head? = some '=' ∧ 2 ≤ last.length ∧ unusedBits last = 0)) :
    LastGroup last rest output := by
  refine ⟨?_, fun h => ?_⟩
  · rw [hfalse]
    simp [hrest, hhead]
  · rw [hfalse] at h
    cases h

theorem lastGroup_nil {rest : Text} (hrest : ∀ ch ∈ rest.head?, ¬ Symbol ch)
    (output : List UInt8) : LastGroup [] rest output := by
  cases rest with
  | nil =>
    refine ⟨by simp [decodeLoop], fun _ => ⟨[], by simp [decodeLoop], ?_⟩⟩
    simp [base64, unusedBits]
  | cons ch rest =>
    have hfalse : (decodeLoop ([] ++ ch :: rest) output).1 = false := by
      rw [List.nil_append, decodeLoop.eq_def]
      simp only [getCodeValue_of_not_symbol (hrest ch rfl), if_true]
    exact lastGroup_of_refused hfalse (by simp) (by simp)

theorem lastGroup_one {m0 : ℕ} (h0 : m0 < 64) {rest : Text}
    (hrest : ∀ ch ∈ rest.head?, ¬ Symbol ch) (output : List UInt8) :
    LastGroup [keyAt m0] rest output := by
  obtain ⟨hc0, -, hn0, -⟩ := getCodeValue_keyAt m0 h0
  have hfalse : (decodeLoop ([keyAt m0] ++ rest) output).1 = false := by
    cases rest with
    | nil => simp [decodeLoop, hc0, hn0]
    | cons ch rest =>
      rw [List.cons_append, decodeLoop.eq_def]
      simp [hc0, hn0, getCodeValue_of_not_symbol (hrest ch rfl)]
  exact lastGroup_of_refused hfalse (by simp) (by simp)

theorem two_symbols_iff {m0 m1 : ℕ} (h0 : m0 < 64) (h1 : m1 < 64) (rest : Text) :
    (∃ k, [keyAt m0, keyAt m1] ++ rest ++ List.replicate k '=' =
      base64 [firstByte (UInt8.ofNat m0) (UInt8.ofNat m1)]) ↔
      m1 % 16 = 0 ∧ rest <+: List.replicate 2 '=' := by
  have hzero : (0 : UInt8).toNat = 0 := rfl
  have e0 : (m0 * 4 + m1 / 16) / 4 = m0 := by omega
  have e1 : (m0 * 4 + m1 / 16) % 4 * 16 + 0 / 16 = m1 / 16 * 16 := by omega
  rw [base64, group_value, hzero, firstByte_toNat h0 h1, e0, e1, ← append_padding_iff,
    ← exists_and_left]
  refine exists_congr fun k => ?_
  have hkey : keyAt m1 = keyAt (m1 / 16 * 16) ↔ m1 % 16 = 0 := by
    constructor
    · intro h
      have := keyAt_inj h1 (by omega) h
      omega
    · intro h
      congr 1
      omega
  simp [hkey]

theorem three_symbols_iff {m0 m1 m2 : ℕ} (h0 : m0 < 64) (h1 : m1 < 64) (h2 : m2 < 64)
    (rest : Text) : (∃ k, [keyAt m0, keyAt m1, keyAt m2] ++ rest ++ List.replicate k '=' =
      base64 [firstByte (UInt8.ofNat m0) (UInt8.ofNat m1),
        secondByte (UInt8.ofNat m1) (UInt8.ofNat m2)]) ↔
      m2 % 4 = 0 ∧ rest <+: List.replicate 1 '=' := by
  have hzero : (0 : UInt8).toNat = 0 := rfl
  have e0 : (m0 * 4 + m1 / 16) / 4 = m0 := by omega
  have e1 : (m0 * 4 + m1 / 16) % 4 * 16 + (m1 % 16 * 16 + m2 / 4) / 16 = m1 := by omega
  have e2 : (m1 % 16 * 16 + m2 / 4) % 16 * 4 + 0 / 64 = m2 / 4 * 4 := by omega
  rw [base64, group_value, hzero, firstByte_toNat h0 h1, secondByte_toNat h1 h2, e0, e1,
    e2, ← append_padding_iff, ← exists_and_left]
  refine exists_congr fun k => ?_
  have hkey : keyAt m2 = keyAt (m2 / 4 * 4) ↔ m2 % 4 = 0 := by
    constructor
    · intro h
      have := keyAt_inj h2 (by omega) h
      omega
    · intro h
      congr 1
      omega
  simp [hkey]

theorem lastGroup_two {m0 m1 : ℕ} (h0 : m0 < 64) (h1 : m1 < 64) {rest : Text}
    (hrest : ∀ ch ∈ rest.head?, ¬ Symbol ch) (output : List UInt8) :
    LastGroup [keyAt m0, keyAt m1] rest output := by
  obtain ⟨hc0, -, hn0, -⟩ := getCodeValue_keyAt m0 h0
  obtain ⟨hc1, -, hn1, -⟩ := getCodeValue_keyAt m1 h1
  have hunused : unusedBits [keyAt m0, keyAt m1] = m1 % 16 := by rw [unusedBits, code_keyAt h1]
  have hencodes : ∀ rest, (∃ k, [keyAt m0, keyAt m1] ++ rest ++ List.replicate k '=' =
      base64 [firstByte (UInt8.ofNat m0) (UInt8.ofNat m1)]) ↔
        unusedBits [keyAt m0, keyAt m1] = 0 ∧ rest <+: padding [keyAt m0, keyAt m1] :=
          fun rest => by
    rw [hunused]
    exact two_symbols_iff h0 h1 rest
  rcases rest_cases hrest with rfl | ⟨more, rfl⟩ | ⟨ch, more, rfl, hch, hnop⟩
  · have hloop : decodeLoop ([keyAt m0, keyAt m1] ++ []) output =
        (true, output ++ [firstByte (UInt8.ofNat m0) (UInt8.ofNat m1)]) := by
      simp [decodeLoop, hc0, hc1, hn0, hn1]
    refine ⟨by rw [hloop]; simp, fun _ => ⟨_, by rw [hloop], hencodes []⟩⟩
  · have hloop : decodeLoop ([keyAt m0, keyAt m1] ++ '=' :: more) output = _ :=
      decodeLoop_two h0 h1 more output
    refine ⟨by rw [hloop]; simp [hunused], fun _ => ⟨_, by rw [hloop], hencodes _⟩⟩
  · refine lastGroup_of_refused ?_ (by simp) (by simp [hch])
    rw [List.cons_append, List.cons_append, List.nil_append, decodeLoop.eq_def]
    simp [hc0, hc1, hn0, hn1, hch, hnop]

theorem lastGroup_three {m0 m1 m2 : ℕ} (h0 : m0 < 64) (h1 : m1 < 64) (h2 : m2 < 64)
    {rest : Text} (hrest : ∀ ch ∈ rest.head?, ¬ Symbol ch) (output : List UInt8) :
    LastGroup [keyAt m0, keyAt m1, keyAt m2] rest output := by
  obtain ⟨hc0, -, hn0, -⟩ := getCodeValue_keyAt m0 h0
  obtain ⟨hc1, -, hn1, -⟩ := getCodeValue_keyAt m1 h1
  obtain ⟨hc2, -, hn2, hp2⟩ := getCodeValue_keyAt m2 h2
  have hunused : unusedBits [keyAt m0, keyAt m1, keyAt m2] = m2 % 4 := by
    rw [unusedBits, code_keyAt h2]
  have hencodes : ∀ rest, (∃ k, [keyAt m0, keyAt m1, keyAt m2] ++ rest ++ List.replicate k '=' =
      base64 [firstByte (UInt8.ofNat m0) (UInt8.ofNat m1),
        secondByte (UInt8.ofNat m1) (UInt8.ofNat m2)]) ↔
        unusedBits [keyAt m0, keyAt m1, keyAt m2] = 0 ∧
          rest <+: padding [keyAt m0, keyAt m1, keyAt m2] := fun rest => by
    rw [hunused]
    exact three_symbols_iff h0 h1 h2 rest
  rcases rest_cases hrest with rfl | ⟨more, rfl⟩ | ⟨ch, more, rfl, hch, hnop⟩
  · have hloop : decodeLoop ([keyAt m0, keyAt m1, keyAt m2] ++ []) output =
        (true, output ++ [firstByte (UInt8.ofNat m0) (UInt8.ofNat m1),
          secondByte (UInt8.ofNat m1) (UInt8.ofNat m2)]) := by
      simp [decodeLoop, hc0, hc1, hc2, hn0, hn1, hn2, hp2]
    refine ⟨by rw [hloop]; simp, fun _ => ⟨_, by rw [hloop], hencodes []⟩⟩
  · have hloop : decodeLoop ([keyAt m0, keyAt m1, keyAt m2] ++ '=' :: more) output = _ :=
      decodeLoop_three h0 h1 h2 more output
    refine ⟨by rw [hloop]; simp [hunused], fun _ => ⟨_, by rw [hloop], hencodes _⟩⟩
  · refine lastGroup_of_refused ?_ (by simp) (by simp [hch])
    rw [List.cons_append, List.cons_append, List.cons_append, List.nil_append, decodeLoop.eq_def]
    simp [hc0, hc1, hc2, hn0, hn1, hn2, hp2, hch, hnop]

theorem lastGroup_of_parts {input whole last rest : Text} (h : Parts input whole last rest)
    (output : List UInt8) : LastGroup last rest output := by
  have hsymbols := h.last_symbols
  rcases last with _ | ⟨c0, _ | ⟨c1, _ | ⟨c2, _ | ⟨c3, last⟩⟩⟩⟩
  · exact lastGroup_nil h.rest_head output
  · obtain ⟨m0, h0, rfl⟩ := hsymbols c0 (by simp)
    exact lastGroup_one h0 h.rest_head output
  · obtain ⟨m0, h0, rfl⟩ := hsymbols c0 (by simp)
    obtain ⟨m1, h1, rfl⟩ := hsymbols c1 (by simp)
    exact lastGroup_two h0 h1 h.rest_head output
  · obtain ⟨m0, h0, rfl⟩ := hsymbols c0 (by simp)
    obtain ⟨m1, h1, rfl⟩ := hsymbols c1 (by simp)
    obtain ⟨m2, h2, rfl⟩ := hsymbols c2 (by simp)
    exact lastGroup_three h0 h1 h2 h.rest_head output
  · have hlt := h.last_lt
    simp only [List.length_cons] at hlt
    omega

theorem decode_of_parts {input whole last rest : Text} (h : Parts input whole last rest) :
    ((base64Decode input).1 ↔ (rest = [] ∧ last.length ≠ 1) ∨
      (rest.head? = some '=' ∧ 2 ≤ last.length ∧ unusedBits last = 0)) ∧
    ((base64Decode input).1 → (Encodes input (base64Decode input).2 ↔
      unusedBits last = 0 ∧ rest <+: padding last)) := by
  obtain ⟨bytes, hbytes, hdecode⟩ := whole_groups h.whole_symbols h.dvd
  obtain ⟨haccepts, hencodes⟩ := lastGroup_of_parts h bytes
  have hinput : base64Decode input = decodeLoop (last ++ rest) bytes := by
    rw [base64Decode, h.eq, hdecode, List.nil_append]
  rw [hinput]
  refine ⟨haccepts, fun hok => ?_⟩
  obtain ⟨data, hdata, hiff⟩ := hencodes hok
  rw [hdata, ← hiff]
  refine exists_congr fun k => ?_
  rw [base64encode_eq, hbytes, h.eq, List.append_assoc whole, List.append_cancel_left_eq]

theorem encodes_iff_not_loose (input : Text) :
    ((base64Decode input).1 → Encodes input (base64Decode input).2) ↔ ¬ Loose input := by
  constructor
  · rintro h ⟨whole, last, rest, hparts, hloose⟩
    obtain ⟨haccepts, hencodes⟩ := decode_of_parts hparts
    rcases hloose with ⟨hrest, hbits⟩ | ⟨hhead, hlen, hbits, hpadding⟩
    · have hone : last.length ≠ 1 := by
        intro hlen
        obtain ⟨ch, rfl⟩ := List.length_eq_one_iff.1 hlen
        exact hbits rfl
      have hok := haccepts.2 (.inl ⟨hrest, hone⟩)
      exact hbits ((hencodes hok).1 (h hok)).1
    · have hok := haccepts.2 (.inr ⟨hhead, hlen, hbits⟩)
      exact hpadding ((hencodes hok).1 (h hok)).2
  · intro hnot hok
    obtain ⟨whole, last, rest, hparts⟩ := exists_parts input
    obtain ⟨haccepts, hencodes⟩ := decode_of_parts hparts
    refine (hencodes hok).2 ?_
    rcases haccepts.1 hok with ⟨rfl, -⟩ | ⟨hhead, hlen, hbits⟩
    · refine ⟨?_, List.nil_prefix⟩
      by_contra hbits
      exact hnot ⟨whole, last, [], hparts, .inl ⟨rfl, hbits⟩⟩
    · refine ⟨hbits, ?_⟩
      by_contra hpadding
      exact hnot ⟨whole, last, rest, hparts, .inr ⟨hhead, hlen, hbits, hpadding⟩⟩

/-- What is accepted is an encoding unless it is loose, and the output tells encodings
apart up to padding. -/
theorem accepts_encodings_iff (input : Text) :
    (((base64Decode input).1 → Encodes input (base64Decode input).2) ↔ ¬ Loose input) ∧
      ∀ input', ¬ Loose input → ¬ Loose input' → (base64Decode input).1 → (base64Decode input').1 →
        (base64Decode input).2 = (base64Decode input').2 →
          ∃ k k', input ++ List.replicate k '=' = input' ++ List.replicate k' '=' := by
  refine ⟨encodes_iff_not_loose input, fun input' hnot hnot' hok hok' heq => ?_⟩
  obtain ⟨k, hk⟩ := (encodes_iff_not_loose input).2 hnot hok
  obtain ⟨k', hk'⟩ := (encodes_iff_not_loose input').2 hnot' hok'
  exact ⟨k, k', by rw [hk, hk', heq]⟩

/-- Bits are left of the second symbol, and text follows the padding. -/
theorem loose_inputs_accepted :
    ((base64Decode "QR".toList).1 ∧
        ¬ Encodes "QR".toList (base64Decode "QR".toList).2) ∧
      (base64Decode "QQ==QQ==".toList).1 ∧
        ¬ Encodes "QQ==QQ==".toList (base64Decode "QQ==QQ==".toList).2 := by
  obtain ⟨hfirst, hsecond, hencode⟩ : base64Decode "QR".toList = (true, [65]) ∧
      base64Decode "QQ==QQ==".toList = (true, [65]) ∧ base64encode [65] = "QQ==".toList := by
    decide +kernel
  rw [hfirst, hsecond]
  refine ⟨⟨rfl, ?_⟩, rfl, ?_⟩
  · rintro ⟨k, hk⟩
    rw [hencode] at hk
    have hsymbol : (some 'R' : Option Char) = some 'Q' := congrArg (fun text => text[1]?) hk
    exact absurd hsymbol (by decide)
  · rintro ⟨k, hk⟩
    rw [hencode] at hk
    have hlength := congrArg List.length hk
    simp at hlength

end CrowCore.LenientDecoding
