import CrowCore.BitRuns
import CrowCore.DecimalRuns

set_option autoImplicit false

/-!
# IPv4 addresses and netmasks

`ipv4VerifyIpAndGetBitcount` reads the four parts of an address with `strtol`. With
a pointer for the bits it counts those of a netmask and checks that they are
continuous.
-/
namespace CrowCore.Ipv4Addresses
open BitRuns DecimalRuns

abbrev Text := List Char

def isspace (ch : Char) : Bool := ch ∈ [' ', '\t', '\n', '\x0b', '\x0c', '\r']

def longMax : ℤ := 2 ^ 63 - 1

def splitSign : Text → Text × Text
  | '+' :: text => (['+'], text)
  | '-' :: text => (['-'], text)
  | text => ([], text)

/-- `std::strtol` in base 10 on a string that ends before the first NUL: the number
and the text that `endPtr` points to. -/
def strtol (text : Text) : ℤ × Text :=
  let (sign, digits) := splitSign (text.dropWhile isspace)
  let run := digitRun id digits
  if run = [] then (0, text)
  else
    let value : ℤ := if sign = ['-'] then -(numberOf id run : ℤ) else numberOf id run
    (max (-longMax - 1) (min longMax value), afterRun id digits)

/-- `c_str` as functions of C see it. -/
def c_str (byte : Text) : Text := byte.takeWhile (· ≠ '\x00')

/-- The checks of one part that do not depend on `bits`. -/
def byteValue (byte : Text) : Option ℕ :=
  if byte = [] then none
  else
    let (value, endPtr) := strtol (c_str byte)
    if endPtr ≠ [] then none
    else if value < 0 ∨ value > 255 then none
    else some value.toNat

def bitLoop (value : ℕ) : ℕ → Bool → ℕ → Bool × ℕ
  | 0, _, bits => (true, bits)
  | bitIdx + 1, firstZeroInByteHit, bits =>
    if value.testBit bitIdx then
      if firstZeroInByteHit then (false, bits)
      else bitLoop value bitIdx firstZeroInByteHit (bits + 1)
    else bitLoop value bitIdx true bits

/-- The loop over the parts; there is no count without a pointer. -/
def byteLoop : List Text → ℕ → Option ℕ → Bool × Option ℕ
  | [], _, bits => (true, bits)
  | byte :: bytesInMask, previousValue, bits =>
    match byteValue byte with
    | none => (false, bits)
    | some value =>
      match bits with
      | none => byteLoop bytesInMask value none
      | some bits =>
        if previousValue ≠ 255 ∧ value ≠ 0 then (false, some bits)
        else
          match bitLoop value 8 false bits with
          | (false, bits) => (false, some bits)
          | (true, bits) => byteLoop bytesInMask value (some bits)

def ipV4AddressSectionsCount : ℕ := 4

/-- The result, and the value of `*bits` if there is a pointer. -/
def ipv4VerifyIpAndGetBitcount (ip : Text) (bits : Option ℕ) : Bool × Option ℕ :=
  let bytesInMask := ip.splitOn '.'
  if bytesInMask.length ≠ ipV4AddressSectionsCount then (false, bits)
  else byteLoop bytesInMask 255 (bits.map fun _ => 0)

/-- Digits of a number from 0 to 255. -/
structure IsOctet (part : Text) : Prop where
  ne_nil : part ≠ []
  digits : ∀ ch ∈ part, isDigit id ch
  le : numberOf id part ≤ 255

def IsDottedQuad (ip : Text) : Prop :=
  ∃ parts : List Text, parts.length = 4 ∧ ip = ['.'].intercalate parts ∧
    ∀ part ∈ parts, IsOctet part

/-- Digits of a number from 0 to 255 behind white space and a sign. All that follows
a NUL is ignored, and there need be no digits before it. -/
structure ReadsAs (part : Text) (value : ℕ) : Prop where
  ne_nil : part ≠ []
  reads : ∃ blanks sign run, c_str part = blanks ++ (sign ++ run) ∧ (∀ ch ∈ blanks, isspace ch) ∧
    (sign = [] ∨ sign = ['+'] ∨ sign = ['-']) ∧ (∀ ch ∈ run, isDigit id ch) ∧
      (run = [] → blanks = [] ∧ sign = []) ∧ numberOf id run = value ∧
        value ≤ 255 ∧ (sign = ['-'] → value = 0)

def ReadsAsQuad (ip : Text) : Prop :=
  (ip.splitOn '.').length = 4 ∧ ∀ part ∈ ip.splitOn '.', ∃ value, ReadsAs part value

def looseChars : List Char := [' ', '\t', '\n', '\x0b', '\x0c', '\r', '+', '-', '\x00']

theorem not_digit_of_loose : ∀ ch ∈ looseChars, ¬ isDigit id ch := by
  simp only [looseChars, List.forall_mem_cons, List.not_mem_nil, false_imp_iff, implies_true,
    and_true]
  decide

theorem isspace_loose {ch : Char} (h : isspace ch) : ch ∈ looseChars :=
  List.mem_append_left ['+', '-', '\x00'] (of_decide_eq_true h)

theorem splitSign_append (text : Text) : (splitSign text).1 ++ (splitSign text).2 = text := by
  unfold splitSign
  split <;> rfl

theorem splitSign_sign (text : Text) : (splitSign text).1 = [] ∨ (splitSign text).1 = ['+'] ∨
    (splitSign text).1 = ['-'] := by
  unfold splitSign
  split
  · exact .inr (.inl rfl)
  · exact .inr (.inr rfl)
  · exact .inl rfl

theorem splitSign_cons {ch : Char} (h : ch ∉ looseChars) (text : Text) :
    splitSign (ch :: text) = ([], ch :: text) := by
  have hplus : ch ≠ '+' := by
    rintro rfl
    exact h (by decide)
  have hminus : ch ≠ '-' := by
    rintro rfl
    exact h (by decide)
  unfold splitSign
  split <;> simp_all

theorem splitSign_dropWhile {blanks sign run : Text} (hblanks : ∀ ch ∈ blanks, isspace ch)
    (hsign : sign = [] ∨ sign = ['+'] ∨ sign = ['-']) (hdigits : ∀ ch ∈ run, isDigit id ch)
    (hrun : run ≠ []) :
    splitSign ((blanks ++ (sign ++ run)).dropWhile isspace) = (sign, run) := by
  rw [List.dropWhile_append_of_pos hblanks]
  obtain ⟨ch, rest, rfl⟩ := List.exists_cons_of_ne_nil hrun
  have hdigit := hdigits ch List.mem_cons_self
  have hloose : ch ∉ looseChars := fun h => not_digit_of_loose ch h hdigit
  rcases hsign with rfl | rfl | rfl
  · have hblank : ¬ isspace ch := fun h => hloose (isspace_loose h)
    rw [List.nil_append, List.dropWhile_cons_of_neg hblank, splitSign_cons hloose]
  · rfl
  · rfl

theorem value_in_range (n : ℕ) (sign : Text) {value : ℤ}
    (hvalue : value = max (-longMax - 1) (min longMax (if sign = ['-'] then -(n : ℤ) else n))) :
    (¬ (value < 0 ∨ value > 255) → n ≤ 255 ∧ (sign = ['-'] → n = 0)) ∧
      (n ≤ 255 → (sign = ['-'] → n = 0) → value = n) := by
  unfold longMax at hvalue
  by_cases hsign : sign = ['-']
  · rw [if_pos hsign] at hvalue
    refine ⟨fun h => ?_, fun hle hzero => ?_⟩
    · omega
    · have hn := hzero hsign
      omega
  · rw [if_neg hsign] at hvalue
    refine ⟨fun h => ?_, fun hle _ => ?_⟩
    · have hle : n ≤ 255 := by omega
      exact ⟨hle, fun h => (hsign h).elim⟩
    · omega

theorem byteValue_eq_some {part : Text} {value : ℕ} :
    byteValue part = some value ↔ ReadsAs part value := by
  unfold byteValue
  by_cases hpart : part = []
  · rw [if_pos hpart]
    exact iff_of_false (by simp) fun h => h.ne_nil hpart
  rw [if_neg hpart]
  constructor
  · intro h
    obtain ⟨sign, digits, hsplit⟩ :
      ∃ sign digits, splitSign ((c_str part).dropWhile isspace) = (sign, digits) := ⟨_, _, rfl⟩
    have happend := splitSign_append ((c_str part).dropWhile isspace)
    have hsign := splitSign_sign ((c_str part).dropWhile isspace)
    rw [hsplit] at happend hsign
    have htext : c_str part = (c_str part).takeWhile isspace ++ (sign ++ digits) := by
      rw [happend, List.takeWhile_append_dropWhile]
    unfold strtol at h
    rw [hsplit] at h
    by_cases hrun : digitRun id digits = []
    · simp only [hrun, if_true, ite_not] at h
      obtain ⟨hnil, h⟩ := Option.ite_none_right_eq_some.1 h
      have hzero : value = 0 := by simpa using h.symm
      exact ⟨hpart, [], [], [], hnil, by simp, .inl rfl, by simp, fun _ => ⟨rfl, rfl⟩,
        hzero.symm, by omega, fun _ => hzero⟩
    · simp only [if_neg hrun, ite_not] at h
      obtain ⟨hafter, h⟩ := Option.ite_none_right_eq_some.1 h
      obtain ⟨hrange, h⟩ := Option.ite_none_left_eq_some.1 h
      obtain ⟨hle, hzero⟩ := (value_in_range (numberOf id (digitRun id digits)) sign rfl).1 hrange
      have heq := (value_in_range (numberOf id (digitRun id digits)) sign rfl).2 hle hzero
      have hvalue : numberOf id (digitRun id digits) = value := by
        rw [heq] at h
        simpa using h
      have hdigits : digits = digitRun id digits := by
        have hall := digitRun_append_afterRun id digits
        rw [hafter, List.append_nil] at hall
        exact hall.symm
      rw [hdigits] at htext
      exact ⟨hpart, _, sign, digitRun id digits, htext, fun ch hch => List.mem_takeWhile_imp hch,
        hsign, fun ch hch => List.mem_takeWhile_imp hch, fun h => (hrun h).elim, hvalue,
        hvalue ▸ hle, fun h => hvalue ▸ hzero h⟩
  · rintro ⟨-, blanks, sign, run, htext, hblanks, hsign, hdigits, hempty, rfl, hle, hzero⟩
    by_cases hrun : run = []
    · obtain ⟨rfl, rfl⟩ := hempty hrun
      subst hrun
      rw [htext]
      rfl
    · have hsplit := splitSign_dropWhile hblanks hsign hdigits hrun
      obtain ⟨hdigitRun, hafter⟩ : digitRun id run = run ∧ afterRun id run = [] := by
        have happend : digitRun id (run ++ []) = run ∧ _ := digitRun_append hdigits (by simp)
        rwa [List.append_nil] at happend
      obtain ⟨-, hvalue⟩ := value_in_range (numberOf id run) sign rfl
      rw [htext]
      unfold strtol
      rw [hsplit]
      simp only [hdigitRun, if_neg hrun, hafter, hvalue hle hzero]
      simp
      omega

theorem mem_splitOn {sep ch : Char} {ip : Text} :
    (∃ part ∈ ip.splitOn sep, ch ∈ part) ↔ ch ∈ ip ∧ ch ≠ sep := by
  induction ip with
  | nil => simp
  | cons c ip ih =>
    obtain ⟨part, parts, hparts⟩ := List.exists_cons_of_ne_nil (List.splitOn_ne_nil sep ip)
    rw [hparts] at ih
    rw [List.splitOn_cons_eq_if_modifyHead, hparts]
    by_cases hc : c = sep
    · subst hc
      rw [if_pos (beq_self_eq_true c), List.exists_mem_cons_iff, ih, List.mem_cons]
      simp only [List.not_mem_nil, false_or, ne_eq]
      exact ⟨fun h => ⟨.inr h.1, h.2⟩, fun h => ⟨h.1.resolve_left h.2, h.2⟩⟩
    · rw [List.exists_mem_cons_iff] at ih
      rw [if_neg (by simpa using hc), List.modifyHead_cons, List.exists_mem_cons_iff, List.mem_cons,
        or_assoc, ih, List.mem_cons, or_and_right]
      refine or_congr_left ⟨fun h => ⟨h, h ▸ hc⟩, fun h => h.1⟩

theorem isDottedQuad_iff {ip : Text} : IsDottedQuad ip ↔
    (ip.splitOn '.').length = 4 ∧ ∀ part ∈ ip.splitOn '.', IsOctet part := by
  constructor
  · rintro ⟨parts, hlength, rfl, hparts⟩
    have hnil : parts ≠ [] := by
      rintro rfl
      cases hlength
    have hdot : ∀ part ∈ parts, '.' ∉ part := by
      intro part hpart hmem
      have hdigit := (hparts part hpart).digits '.' hmem
      exact absurd hdigit (by decide)
    rw [List.splitOn_intercalate '.' hdot hnil]
    exact ⟨hlength, hparts⟩
  · rintro ⟨hlength, hparts⟩
    exact ⟨_, hlength, (List.intercalate_splitOn '.').symm, hparts⟩

theorem c_str_eq {part : Text} (h : ∀ ch ∈ part, ch ∉ looseChars) : c_str part = part := by
  refine List.takeWhile_eq_self_iff.2 fun ch hch => ?_
  have hnul : ch ≠ '\x00' := by
    rintro rfl
    exact h _ hch (by decide)
  simpa using hnul

theorem isOctet_iff {part : Text} :
    IsOctet part ↔ (∃ value, ReadsAs part value) ∧ ∀ ch ∈ part, ch ∉ looseChars := by
  constructor
  · rintro ⟨hne, hdigits, hle⟩
    have hloose : ∀ ch ∈ part, ch ∉ looseChars := fun ch hch h =>
      not_digit_of_loose ch h (hdigits ch hch)
    exact ⟨⟨_, hne, [], [], part, c_str_eq hloose, by simp, .inl rfl, hdigits,
      fun h => (hne h).elim, rfl, hle, by simp⟩, hloose⟩
  · rintro ⟨⟨value, hne, blanks, sign, run, htext, hblanks, hsign, hdigits, hempty, rfl, hle, -⟩,
      hloose⟩
    rw [c_str_eq hloose] at htext
    subst htext
    have hnil : blanks = [] := by
      refine List.eq_nil_iff_forall_not_mem.2 fun ch hch => ?_
      exact hloose ch (List.mem_append_left _ hch) (isspace_loose (hblanks ch hch))
    subst hnil
    rcases hsign with rfl | rfl | rfl
    · exact ⟨hne, hdigits, hle⟩
    · exact (hloose '+' List.mem_cons_self (by decide)).elim
    · exact (hloose '-' List.mem_cons_self (by decide)).elim

theorem byteLoop_none {parts : List Text} (previousValue : ℕ) :
    (byteLoop parts previousValue none).1 = true ↔ ∀ part ∈ parts, ∃ value, ReadsAs part value := by
  induction parts generalizing previousValue with
  | nil => simp [byteLoop]
  | cons part parts ih =>
    rw [List.forall_mem_cons, byteLoop]
    rcases hvalue : byteValue part with _ | value
    · refine iff_of_false (by simp) ?_
      rintro ⟨⟨value, hreads⟩, -⟩
      rw [byteValue_eq_some.2 hreads] at hvalue
      cases hvalue
    · have hreads := byteValue_eq_some.1 hvalue
      exact (ih value).trans ⟨fun h => ⟨⟨value, hreads⟩, h⟩, fun h => h.2⟩

theorem verify_none (ip : Text) :
    (ipv4VerifyIpAndGetBitcount ip none).1 = true ↔ ReadsAsQuad ip := by
  unfold ipv4VerifyIpAndGetBitcount ReadsAsQuad ipV4AddressSectionsCount
  simp only [ite_not]
  by_cases hlength : (ip.splitOn '.').length = 4
  · rw [if_pos hlength]
    exact (byteLoop_none 255).trans ⟨fun h => ⟨hlength, h⟩, fun h => h.2⟩
  · rw [if_neg hlength]
    exact iff_of_false (by simp) fun h => hlength h.1

theorem isDottedQuad_iff_reads (ip : Text) :
    IsDottedQuad ip ↔ ReadsAsQuad ip ∧ ∀ ch ∈ ip, ch ∉ looseChars := by
  have hloose : (∀ part ∈ ip.splitOn '.', ∀ ch ∈ part, ch ∉ looseChars) ↔
      ∀ ch ∈ ip, ch ∉ looseChars := by
    constructor
    · intro h ch hch hmem
      have hdot : ch ≠ '.' := by
        rintro rfl
        revert hmem
        decide
      obtain ⟨part, hpart, hin⟩ := mem_splitOn.2 ⟨hch, hdot⟩
      exact h part hpart ch hin hmem
    · exact fun h part hpart ch hch => h ch (mem_splitOn.1 ⟨part, hpart, hch⟩).1
  rw [isDottedQuad_iff, ReadsAsQuad, and_assoc, ← hloose, ← forall₂_and]
  exact and_congr_right fun _ => forall₂_congr fun _ _ => isOctet_iff

/-- Just the dotted quads are accepted if and only if the string has no loose
characters or is not read as four numbers. -/
theorem accepts_dotted_quads_iff (ip : Text) :
    ((ipv4VerifyIpAndGetBitcount ip none).1 = true ↔ IsDottedQuad ip) ↔
      (ReadsAsQuad ip → ∀ ch ∈ ip, ch ∉ looseChars) := by
  rw [verify_none, isDottedQuad_iff_reads]
  exact ⟨fun h hreads => (h.1 hreads).2, fun h => ⟨fun hreads => ⟨hreads, h hreads⟩, fun h => h.1⟩⟩

theorem not_dotted_quad_of_loose {ip : Text} {ch : Char}
    (haccepted : (ipv4VerifyIpAndGetBitcount ip none).1 = true) (hip : ch ∈ ip)
    (hch : ch ∈ looseChars) : ¬ ((ipv4VerifyIpAndGetBitcount ip none).1 = true ↔ IsDottedQuad ip) :=
  fun h => ((isDottedQuad_iff_reads ip).1 (h.1 haccepted)).2 ch hip hch

/-- A sign, a blank, a minus before 0 and a NUL in a part. -/
theorem loose_addresses_accepted :
    ¬ ((ipv4VerifyIpAndGetBitcount "+1.2.3.4".toList none).1 = true ↔
      IsDottedQuad "+1.2.3.4".toList) ∧
    ¬ ((ipv4VerifyIpAndGetBitcount "1. 2.3.4".toList none).1 = true ↔
      IsDottedQuad "1. 2.3.4".toList) ∧
    ¬ ((ipv4VerifyIpAndGetBitcount "1.2.-0.4".toList none).1 = true ↔
      IsDottedQuad "1.2.-0.4".toList) ∧
    ¬ ((ipv4VerifyIpAndGetBitcount "1.2.3.4\x005".toList none).1 = true ↔
      IsDottedQuad "1.2.3.4\x005".toList) := by
  have hplus : '+' ∈ looseChars := by decide
  have hblank : ' ' ∈ looseChars := by decide
  have hminus : '-' ∈ looseChars := by decide
  have hnul : '\x00' ∈ looseChars := by decide
  exact ⟨not_dotted_quad_of_loose (by decide +kernel) (by decide) hplus,
    not_dotted_quad_of_loose (by decide +kernel) (by decide) hblank,
    not_dotted_quad_of_loose (by decide +kernel) (by decide) hminus,
    not_dotted_quad_of_loose (by decide +kernel) (by decide) hnul⟩

theorem bitLoop_spec (value bitIdx : ℕ) (firstZeroInByteHit : Bool) (bits : ℕ) :
    let counted := bitLoop value bitIdx firstZeroInByteHit bits
    (counted.1 = true ↔ OnesThenZeros (bitsOf value bitIdx) ∧
      (firstZeroInByteHit = true → true ∉ bitsOf value bitIdx)) ∧
    (counted.1 = true → counted.2 = bits + ones (bitsOf value bitIdx)) := by
  intro counted
  induction bitIdx generalizing firstZeroInByteHit bits with
  | zero => exact ⟨iff_of_true rfl ⟨onesThenZeros_nil, fun _ => List.not_mem_nil⟩, fun _ => rfl⟩
  | succ bitIdx ih =>
    subst counted
    rw [bitLoop, bitsOf, onesThenZeros_cons]
    cases value.testBit bitIdx with
    | true =>
      cases firstZeroInByteHit with
      | true =>
        refine ⟨iff_of_false (by simp) fun h => ?_, fun h => by cases h⟩
        exact h.2 rfl List.mem_cons_self
      | false =>
        obtain ⟨hok, hcount⟩ := ih false (bits + 1)
        simp only [if_true, Bool.false_eq_true, if_false]
        refine ⟨hok.trans ?_, fun h => ?_⟩
        · simp
        · rw [hcount h, ones_cons_true]
          omega
    | false =>
      obtain ⟨hok, hcount⟩ := ih true bits
      simp only [Bool.false_eq_true, if_false]
      refine ⟨hok.trans ?_, fun h => ?_⟩
      · simp only [true_imp_iff, List.mem_cons, Bool.true_eq_false, false_or]
        exact ⟨fun h => ⟨⟨h.1, h.2⟩, fun _ => h.2⟩, fun h => h.1⟩
      · rw [hcount h, ones_cons_false]

theorem byteValue_le {part : Text} {value : ℕ} (h : byteValue part = some value) : value ≤ 255 := by
  obtain ⟨-, -, -, -, -, -, -, -, -, -, hle, -⟩ := byteValue_eq_some.1 h
  exact hle

theorem octets_le {parts : List Text} {octets : List ℕ}
    (h : parts.map byteValue = octets.map some) : ∀ octet ∈ octets, octet ≤ 255 := by
  intro octet hoctet
  have hmem : some octet ∈ parts.map byteValue := h ▸ List.mem_map_of_mem hoctet
  obtain ⟨part, -, hpart⟩ := List.mem_map.1 hmem
  exact byteValue_le hpart

def maskBits (octets : List ℕ) : List Bool := octets.flatMap fun octet => bitsOf octet 8

theorem true_mem_maskBits {octets : List ℕ} (h : ∀ octet ∈ octets, octet ≤ 255) :
    true ∉ maskBits octets ↔ ∀ octet ∈ octets, octet = 0 := by
  rw [maskBits, List.mem_flatMap, not_exists]
  refine forall_congr' fun octet => ?_
  rw [not_and]
  refine imp_congr_right fun hoctet => ?_
  rw [true_mem_bitsOf (Nat.lt_succ_of_le (h octet hoctet)), not_not]

/-- After an octet that is not 255 only zeros may come. -/
theorem byteLoop_spec {parts : List Text} {octets : List ℕ}
    (hoctets : parts.map byteValue = octets.map some) (previousValue bits : ℕ) :
    let checked := byteLoop parts previousValue (some bits)
    (checked.1 = true ↔ OnesThenZeros (maskBits octets) ∧
      (previousValue ≠ 255 → ∀ octet ∈ octets, octet = 0)) ∧
    (checked.1 = true → checked.2 = some (bits + ones (maskBits octets))) := by
  induction parts generalizing octets previousValue bits with
  | nil =>
    obtain rfl : octets = [] := List.map_eq_nil_iff.1 hoctets.symm
    exact ⟨iff_of_true rfl ⟨onesThenZeros_nil, by simp⟩, fun _ => rfl⟩
  | cons part parts ih =>
    obtain ⟨octet, octets, rfl⟩ : ∃ octet rest, octets = octet :: rest := by
      cases octets with
      | nil => cases hoctets
      | cons octet rest => exact ⟨octet, rest, rfl⟩
    obtain ⟨hvalue, hoctets⟩ := List.cons.inj hoctets
    have hle := byteValue_le hvalue
    have hrest := octets_le hoctets
    have hmask : maskBits (octet :: octets) = bitsOf octet 8 ++ maskBits octets := List.flatMap_cons
    intro checked
    subst checked
    rw [byteLoop, hvalue, hmask, onesThenZeros_append, false_mem_bitsOf (Nat.lt_succ_of_le hle),
      true_mem_maskBits hrest, List.forall_mem_cons, ones_append]
    simp only
    by_cases hjump : previousValue ≠ 255 ∧ octet ≠ 0
    · rw [if_pos hjump]
      exact ⟨iff_of_false (by simp) fun h => hjump.2 (h.2 hjump.1).1, fun h => by cases h⟩
    · rw [if_neg hjump]
      obtain ⟨hok, hcount⟩ := bitLoop_spec octet 8 false bits
      rcases hbits : bitLoop octet 8 false bits with ⟨_ | _, count⟩
      · rw [hbits] at hok
        refine ⟨iff_of_false (by simp) fun h => ?_, fun h => by cases h⟩
        exact absurd (hok.2 ⟨h.1.1, by simp⟩) (by simp)
      · rw [hbits] at hok hcount
        obtain ⟨hones, -⟩ := hok.1 rfl
        have hcount : count = bits + ones (bitsOf octet 8) := hcount rfl
        obtain ⟨hok', hcount'⟩ := ih hoctets octet count
        refine ⟨hok'.trans ⟨fun h => ⟨⟨hones, h⟩, fun hprevious => ?_⟩, fun h => h.1.2⟩,
          fun h => ?_⟩
        · have hzero : octet = 0 := by_contra fun hne => hjump ⟨hprevious, hne⟩
          exact ⟨hzero, h.2 (by omega)⟩
        · rw [hcount' h, hcount, Nat.add_assoc]

theorem maskBits_four {o₁ o₂ o₃ o₄ : ℕ} (h : ∀ octet ∈ [o₁, o₂, o₃, o₄], octet ≤ 255) :
    bitsOf (2 ^ 24 * o₁ + 2 ^ 16 * o₂ + 2 ^ 8 * o₃ + o₄) 32 = maskBits [o₁, o₂, o₃, o₄] := by
  have hlt : ∀ octet ∈ [o₁, o₂, o₃, o₄], octet < 2 ^ 8 :=
    fun octet ho => Nat.lt_succ_of_le (h octet ho)
  simp only [List.forall_mem_cons] at hlt
  obtain ⟨-, h₂, h₃, h₄, -⟩ := hlt
  have hsplit : 2 ^ 24 * o₁ + 2 ^ 16 * o₂ + 2 ^ 8 * o₃ + o₄ =
      2 ^ 8 * (2 ^ 8 * (2 ^ 8 * o₁ + o₂) + o₃) + o₄ := by ring
  rw [hsplit, bitsOf_add _ 24 h₄, bitsOf_add _ 16 h₃,
    bitsOf_add _ 8 h₂]
  simp [maskBits]

/-- With a pointer just the numbers of ones before zeros are accepted, and the ones
are counted. -/
theorem netmask_iff {ip : Text} {o₁ o₂ o₃ o₄ : ℕ}
    (hparts : (ip.splitOn '.').map byteValue = [some o₁, some o₂, some o₃, some o₄]) (bits : ℕ) :
    let checked := ipv4VerifyIpAndGetBitcount ip (some bits)
    let mask := bitsOf (2 ^ 24 * o₁ + 2 ^ 16 * o₂ + 2 ^ 8 * o₃ + o₄) 32
    (checked.1 = true ↔ OnesThenZeros mask) ∧
    (checked.1 = true → checked.2 = some (ones mask)) := by
  intro checked mask
  have hlength : (ip.splitOn '.').length = ipV4AddressSectionsCount := by
    have hmap := congrArg List.length hparts
    rwa [List.length_map] at hmap
  have hoctets : (ip.splitOn '.').map byteValue = [o₁, o₂, o₃, o₄].map some := hparts
  have hchecked : checked = byteLoop (ip.splitOn '.') 255 (some 0) := by
    change ipv4VerifyIpAndGetBitcount ip (some bits) = _
    unfold ipv4VerifyIpAndGetBitcount
    exact if_neg (not_not.2 hlength)
  have hmask : mask = maskBits [o₁, o₂, o₃, o₄] := maskBits_four (octets_le hoctets)
  obtain ⟨hok, hcount⟩ := byteLoop_spec hoctets 255 0
  rw [hchecked, hmask]
  refine ⟨hok.trans ⟨fun h => h.1, fun h => ⟨h, fun hne => (hne rfl).elim⟩⟩, fun h => ?_⟩
  rw [hcount h, Nat.zero_add]

theorem netmask_iff_sample : ("255.255.240.0".toList.splitOn '.').map byteValue =
      [some 255, some 255, some 240, some 0] ∧
    ipv4VerifyIpAndGetBitcount "255.255.240.0".toList (some 7) = (true, some 20) ∧
      OnesThenZeros (bitsOf (2 ^ 24 * 255 + 2 ^ 16 * 255 + 2 ^ 8 * 240 + 0) 32) := by
  have hparts : ("255.255.240.0".toList.splitOn '.').map byteValue =
      [some 255, some 255, some 240, some 0] := by decide +kernel
  have hchecked : ipv4VerifyIpAndGetBitcount "255.255.240.0".toList (some 7) = (true, some 20) := by
    decide +kernel
  exact ⟨hparts, hchecked, (netmask_iff hparts 7).1.1 (by rw [hchecked])⟩

end CrowCore.Ipv4Addresses
