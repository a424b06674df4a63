import Mathlib

set_option autoImplicit false

/-!
# Hexadecimal strings

Both directions write into a buffer that has its full size from the start. The
decoder gives an empty vector for a malformed string.
-/
namespace CrowCore.HexCodec

def digitsArray : List Char :=
  ['0', '1', '2', '3', '4', '5', '6', '7', '8', '9', 'A', 'B', 'C', 'D', 'E', 'F']

def digitAt (nibble : UInt8) : Char := digitsArray.getD nibble.toNat '0'

def hexStringLoop (bytes : List UInt8) (rc : List Char) (i : ℕ) : List Char :=
  if _h : i < bytes.length then
    let rc := rc.set (i * 2) (digitAt ((bytes[i] &&& 0xf0) >>> 4))
    let rc := rc.set (i * 2 + 1) (digitAt (bytes[i] &&& 0x0f))
    hexStringLoop bytes rc (i + 1)
  else rc
termination_by bytes.length - i

def bytesToHexString (bytes : List UInt8) : List Char :=
  hexStringLoop bytes (List.replicate (bytes.length * 2) '0') 0

def hexCharToNibble (ch : Char) : UInt8 :=
  if '0' ≤ ch ∧ ch ≤ '9' then ch.toUInt8 - '0'.toUInt8
  else if 'A' ≤ ch ∧ ch ≤ 'F' then ch.toUInt8 - 'A'.toUInt8 + 10
  else if 'a' ≤ ch ∧ ch ≤ 'f' then ch.toUInt8 - 'a'.toUInt8 + 10
  else 16

def hexBytesLoop (str : List Char) (rc : List UInt8) (i : ℕ) : List UInt8 :=
  if _h : i < str.length then
    let hi := hexCharToNibble str[i]
    if _hlast : i = str.length - 1 then []
    else
      let lo := hexCharToNibble str[i + 1]
      if lo = 16 ∨ hi = 16 then []
      else hexBytesLoop str (rc.set (i / 2) (hi <<< 4 ||| lo)) (i + 2)
  else rc
termination_by str.length - i

def hexStringToBytes (str : List Char) : List UInt8 :=
  hexBytesLoop str (List.replicate (str.length / 2) 0) 0

def hexDigits : List Char := digitsArray ++ ['a', 'b', 'c', 'd', 'e', 'f']

theorem toNat_high (byte : UInt8) : ((byte &&& 0xf0) >>> 4).toNat = byte.toNat / 16 := by
  have hlt := byte.toNat_lt
  change (byte.toNat &&& 240) >>> 4 = byte.toNat / 16
  rw [Nat.shiftRight_and_distrib, Nat.shiftRight_eq_div_pow]
  change byte.toNat / 16 &&& 2 ^ 4 - 1 = byte.toNat / 16
  rw [Nat.and_two_pow_sub_one_eq_mod]
  omega

theorem toNat_low (byte : UInt8) : (byte &&& 0x0f).toNat = byte.toNat % 16 :=
  Nat.and_two_pow_sub_one_eq_mod byte.toNat 4

theorem toNat_joined {hi lo : UInt8} (hhi : hi.toNat < 16) (hlo : lo.toNat < 16) :
    (hi <<< 4 ||| lo).toNat = hi.toNat * 16 + lo.toNat := by
  change hi.toNat <<< 4 % 256 ||| lo.toNat = _
  rw [Nat.mod_eq_of_lt (by rw [Nat.shiftLeft_eq]; omega), ← Nat.shiftLeft_add_eq_or_of_lt hlo,
    Nat.shiftLeft_eq]

theorem digitAt_mem (nibble : UInt8) : digitAt nibble ∈ hexDigits := by
  unfold digitAt
  by_cases h : nibble.toNat < digitsArray.length
  · rw [List.getD_eq_getElem _ _ h]
    exact List.mem_append_left _ (List.getElem_mem h)
  · rw [List.getD_eq_default _ _ (Nat.le_of_not_lt h)]
    decide

theorem nibble_of_mem : ∀ ch ∈ hexDigits,
    (hexCharToNibble ch).toNat < 16 ∧ digitAt (hexCharToNibble ch) = ch.toUpper := by
  simp only [hexDigits, digitsArray, List.cons_append, List.nil_append, List.forall_mem_cons,
    List.not_mem_nil, false_imp_iff, implies_true, and_true]
  decide

theorem nibble_ofNat : ∀ n < 16, hexCharToNibble (digitAt (UInt8.ofNat n)) = UInt8.ofNat n := by
  decide

theorem nibble_digitAt {nibble : UInt8} (h : nibble.toNat < 16) :
    hexCharToNibble (digitAt nibble) = nibble := by
  have hnibble := nibble_ofNat nibble.toNat h
  rwa [UInt8.ofNat_toNat] at hnibble

theorem nibble_of_not_mem {ch : Char} (h : ch ∉ hexDigits) : hexCharToNibble ch = 16 := by
  unfold hexCharToNibble
  have hrange : ∀ lo hi : Char, (∀ n, lo.toNat ≤ n → n ≤ hi.toNat → Char.ofNat n ∈ hexDigits) →
      ¬ (lo ≤ ch ∧ ch ≤ hi) := by
    intro lo hi hmem hle
    refine h ?_
    have hch := hmem ch.toNat hle.1 hle.2
    rwa [Char.ofNat_toNat] at hch
  have hdigit := hrange '0' '9' (by decide)
  have hupper := hrange 'A' 'F' (by decide)
  have hlower := hrange 'a' 'f' (by decide)
  rw [if_neg hdigit, if_neg hupper, if_neg hlower]

theorem nibble_eq_iff (ch : Char) : hexCharToNibble ch = 16 ↔ ch ∉ hexDigits := by
  refine ⟨fun h hmem => ?_, nibble_of_not_mem⟩
  have hlt := (nibble_of_mem ch hmem).1
  rw [h] at hlt
  exact absurd hlt (by decide)

def hexPair (byte : UInt8) : List Char :=
  [digitAt ((byte &&& 0xf0) >>> 4), digitAt (byte &&& 0x0f)]

theorem hexStringLoop_eq (bytes : List UInt8) (done tail : List Char) (i : ℕ)
    (hdone : done.length = i * 2) (htail : tail.length = (bytes.length - i) * 2) :
    hexStringLoop bytes (done ++ tail) i = done ++ (bytes.drop i).flatMap hexPair := by
  induction hn : bytes.length - i generalizing done tail i with
  | zero =>
    rw [hn, Nat.zero_mul, List.length_eq_zero_iff] at htail
    rw [hexStringLoop, dif_neg (by omega), htail, List.drop_eq_nil_of_le (by omega)]
    rfl
  | succ n ih =>
    have hi : i < bytes.length := by omega
    obtain ⟨a, b, tail, rfl⟩ : ∃ a b rest, tail = a :: b :: rest := by
      match tail with
      | a :: b :: rest => exact ⟨a, b, rest, rfl⟩
      | [] => simp [hn] at htail
      | [a] =>
        rw [List.length_singleton, hn] at htail
        omega
    have hset : ((done ++ a :: b :: tail).set (i * 2) (digitAt ((bytes[i] &&& 0xf0) >>> 4))).set
        (i * 2 + 1) (digitAt (bytes[i] &&& 0x0f)) = (done ++ hexPair bytes[i]) ++ tail := by
      rw [← hdone, List.set_append_right _ _ le_rfl, List.set_append_right _ _ (Nat.le_succ _)]
      simp [hexPair]
    have hdone' : (done ++ hexPair bytes[i]).length = (i + 1) * 2 := by
      rw [List.length_append, hdone, Nat.succ_mul]
      rfl
    have htail' : tail.length = (bytes.length - (i + 1)) * 2 := by
      rw [List.length_cons, List.length_cons] at htail
      omega
    rw [hexStringLoop, dif_pos hi]
    simp only [hset]
    rw [ih _ tail (i + 1) hdone' htail' (by omega), List.drop_eq_getElem_cons hi,
      List.flatMap_cons, List.append_assoc]

theorem bytesToHexString_eq (bytes : List UInt8) :
    bytesToHexString bytes = bytes.flatMap hexPair :=
  hexStringLoop_eq bytes [] _ 0 rfl List.length_replicate

/-- The bytes of the pairs of digits, `none` where some character is no digit or
has no partner. -/
def pairBytes : List Char → Option (List UInt8)
  | [] => some []
  | [_] => none
  | hi :: lo :: str =>
    if hi ∈ hexDigits ∧ lo ∈ hexDigits then
      (pairBytes str).map ((hexCharToNibble hi <<< 4 ||| hexCharToNibble lo) :: ·)
    else none

theorem getElem_of_drop_eq {α : Type} {l rest : List α} {a : α} {i : ℕ} (h : l.drop i = a :: rest)
    (hi : i < l.length) : l[i] = a ∧ l.drop (i + 1) = rest := by
  rw [List.drop_eq_getElem_cons hi] at h
  exact List.cons.inj h

theorem hexBytesLoop_eq (str rest : List Char) (done tail : List UInt8) (i : ℕ)
    (hrest : str.drop i = rest) (hdone : done.length = i / 2)
    (htail : tail.length = rest.length / 2) :
    hexBytesLoop str (done ++ tail) i = ((pairBytes rest).map (done ++ ·)).getD [] := by
  have hlength : rest.length = str.length - i := by rw [← hrest, List.length_drop]
  induction rest using pairBytes.induct generalizing done tail i with
  | case1 =>
    have hend : ¬ i < str.length := by
      rw [List.length_nil] at hlength
      omega
    rw [List.length_nil, Nat.zero_div, List.length_eq_zero_iff] at htail
    rw [hexBytesLoop, dif_neg hend, htail]
    rfl
  | case2 ch =>
    rw [List.length_singleton] at hlength
    rw [hexBytesLoop, dif_pos (by omega)]
    simp only
    rw [dif_pos (by omega)]
    rfl
  | case3 hi lo rest hdigits ih =>
    rw [List.length_cons, List.length_cons] at hlength htail
    obtain ⟨hhi, hdrop⟩ := getElem_of_drop_eq hrest (by omega)
    obtain ⟨hlo, hdrop⟩ := getElem_of_drop_eq hdrop (by omega)
    obtain ⟨byte, tail, rfl⟩ := List.exists_cons_of_length_pos (l := tail) (by omega)
    have hgood : ¬ (hexCharToNibble lo = 16 ∨ hexCharToNibble hi = 16) := by
      rw [nibble_eq_iff, nibble_eq_iff]
      exact fun h => h.elim (fun h => h hdigits.2) fun h => h hdigits.1
    rw [hexBytesLoop, dif_pos (by omega)]
    simp only
    rw [dif_neg (by omega), hhi, hlo, if_neg hgood, ← hdone, List.set_append_right _ _ le_rfl,
      Nat.sub_self, List.set_cons_zero, pairBytes, if_pos hdigits, Option.map_map]
    have hih := ih (done ++ [hexCharToNibble hi <<< 4 ||| hexCharToNibble lo]) tail (i + 2) hdrop
      (by rw [List.length_append, hdone, List.length_singleton]; omega)
      (by rw [List.length_cons] at htail; omega) (by omega)
    rw [List.append_assoc, List.singleton_append] at hih
    rw [hih]
    exact congrArg (fun f => ((pairBytes rest).map f).getD [])
      (funext fun bytes => List.append_assoc done _ bytes)
  | case4 hi lo rest hdigits =>
    rw [List.length_cons, List.length_cons] at hlength
    obtain ⟨hhi, hdrop⟩ := getElem_of_drop_eq hrest (by omega)
    obtain ⟨hlo, -⟩ := getElem_of_drop_eq hdrop (by omega)
    have hbad : hexCharToNibble lo = 16 ∨ hexCharToNibble hi = 16 := by
      rw [nibble_eq_iff, nibble_eq_iff]
      exact (not_and_or.1 hdigits).symm
    rw [hexBytesLoop, dif_pos (by omega)]
    simp only
    rw [dif_neg (by omega), hhi, hlo, if_pos hbad, pairBytes, if_neg hdigits]
    rfl

theorem hexStringToBytes_eq (str : List Char) :
    hexStringToBytes str = (pairBytes str).getD [] := by
  have hloop := hexBytesLoop_eq str str [] (List.replicate (str.length / 2) 0) 0 rfl rfl
    List.length_replicate
  rw [List.nil_append] at hloop
  rw [hexStringToBytes, hloop]
  simp

theorem joined_hexPair (byte : UInt8) :
    hexCharToNibble (digitAt ((byte &&& 0xf0) >>> 4)) <<< 4 |||
      hexCharToNibble (digitAt (byte &&& 0x0f)) = byte := by
  have hlt := byte.toNat_lt
  have hhigh : ((byte &&& 0xf0) >>> 4).toNat < 16 := by
    rw [toNat_high]
    omega
  have hlow : (byte &&& 0x0f).toNat < 16 := by
    rw [toNat_low]
    omega
  rw [nibble_digitAt hhigh, nibble_digitAt hlow]
  apply UInt8.toNat_inj.1
  rw [toNat_joined hhigh hlow, toNat_high, toNat_low]
  omega

theorem hexPair_joined {hi lo : Char} (hhi : hi ∈ hexDigits) (hlo : lo ∈ hexDigits) :
    hexPair (hexCharToNibble hi <<< 4 ||| hexCharToNibble lo) = [hi.toUpper, lo.toUpper] := by
  obtain ⟨hhigh, hupper⟩ := nibble_of_mem hi hhi
  obtain ⟨hlow, hupper'⟩ := nibble_of_mem lo hlo
  have hjoined := toNat_joined hhigh hlow
  have h₁ : ((hexCharToNibble hi <<< 4 ||| hexCharToNibble lo) &&& 0xf0) >>> 4 =
      hexCharToNibble hi := by
    apply UInt8.toNat_inj.1
    rw [toNat_high, hjoined]
    omega
  have h₂ : (hexCharToNibble hi <<< 4 ||| hexCharToNibble lo) &&& 0x0f = hexCharToNibble lo := by
    apply UInt8.toNat_inj.1
    rw [toNat_low, hjoined]
    omega
  rw [hexPair, h₁, h₂, hupper, hupper']

theorem pairBytes_flatMap (bytes : List UInt8) :
    pairBytes (bytes.flatMap hexPair) = some bytes := by
  induction bytes with
  | nil => rfl
  | cons byte bytes ih =>
    rw [List.flatMap_cons]
    change pairBytes (_ :: _ :: bytes.flatMap hexPair) = _
    rw [pairBytes, if_pos ⟨digitAt_mem _, digitAt_mem _⟩, ih, joined_hexPair]
    rfl

theorem pairBytes_spec (str : List Char) :
    ((pairBytes str).isSome ↔ Even str.length ∧ ∀ ch ∈ str, ch ∈ hexDigits) ∧
      ∀ bytes, pairBytes str = some bytes → bytes.flatMap hexPair = str.map Char.toUpper := by
  induction str using pairBytes.induct with
  | case1 =>
    refine ⟨by simp [pairBytes], fun bytes h => ?_⟩
    obtain rfl := Option.some.inj h
    rfl
  | case2 ch => exact ⟨by simp [pairBytes], fun bytes h => by cases h⟩
  | case3 hi lo str hdigits ih =>
    obtain ⟨haccepts, hupper⟩ := ih
    rw [pairBytes, if_pos hdigits, Option.isSome_map, haccepts]
    refine ⟨?_, fun bytes h => ?_⟩
    · simp [hdigits, Nat.even_add, Nat.add_assoc]
    · obtain ⟨bytes, hbytes, rfl⟩ := Option.map_eq_some_iff.1 h
      rw [List.flatMap_cons, hexPair_joined hdigits.1 hdigits.2, hupper bytes hbytes]
      rfl
  | case4 hi lo str hdigits =>
    rw [pairBytes, if_neg hdigits]
    refine ⟨?_, fun bytes h => by cases h⟩
    simp only [Option.isSome_none, Bool.false_eq_true, List.forall_mem_cons, false_iff]
    exact fun h => hdigits ⟨h.2.1, h.2.2.1⟩

/-- Bytes are read back from their text, and just the texts of digits that come in
pairs give bytes, whose text is the same in upper case. -/
theorem hex_round_trip :
    (∀ bytes, hexStringToBytes (bytesToHexString bytes) = bytes) ∧ ∀ str,
      (hexStringToBytes str ≠ [] ↔
        str ≠ [] ∧ Even str.length ∧ ∀ ch ∈ str, ch ∈ hexDigits) ∧
      (hexStringToBytes str ≠ [] →
        bytesToHexString (hexStringToBytes str) = str.map Char.toUpper) := by
  refine ⟨fun bytes => ?_, fun str => ?_⟩
  · rw [hexStringToBytes_eq, bytesToHexString_eq, pairBytes_flatMap, Option.getD_some]
  · obtain ⟨haccepts, hupper⟩ := pairBytes_spec str
    rw [hexStringToBytes_eq, ← haccepts]
    cases hbytes : pairBytes str with
    | none => simp
    | some bytes =>
      have htext := hupper bytes hbytes
      have hnil : bytes = [] ↔ str = [] := by
        constructor
        · rintro rfl
          exact List.map_eq_nil_iff.1 htext.symm
        · rintro rfl
          exact (Option.some.inj hbytes).symm
      rw [Option.getD_some, bytesToHexString_eq, htext, Ne, Ne, hnil]
      exact ⟨⟨fun h => ⟨h, rfl⟩, fun h => h.1⟩, fun _ => rfl⟩

end CrowCore.HexCodec
