import CrowCore.EscapedText
import CrowCore.JsonValue

set_option autoImplicit false

/-!
# The HTML view of a JSON value

`dump` writes its own literals around the escaped keys and strings. Each
character of the output is marked with where it comes from, so that markup can be
told from what values look like.
-/
namespace CrowCore.HtmlView
open JsonHtmlSerializer EscapedText JsonValue

inductive Origin where
  | literal
  | value
deriving DecidableEq, Repr

/-- The origin only records what happened. -/
structure Written where
  char : Char
  origin : Origin
deriving DecidableEq, Repr

abbrev Output := List Written

def literal (text : String) : Output := text.toList.map (⟨·, .literal⟩)

def value (text : Text) : Output := text.map (⟨·, .value⟩)

inductive Failure where
  /-- the exception of a conversion to the wrong type -/
  | type_error
  /-- a write outside of a buffer -/
  | out_of_buffer
deriving DecidableEq, Repr

def countDigitsFrom (number nDigits : ℕ) : ℕ :=
  if number < 10 then nDigits
  else if number < 100 then nDigits + 1
  else if number < 1000 then nDigits + 2
  else if number < 10000 then nDigits + 3
  else countDigitsFrom (number / 10000) (nDigits + 4)

def countDigits (number : ℕ) : ℕ := countDigitsFrom number 1

def digit (n : ℕ) : Char := Char.ofNat (n + '0'.toNat)

def digitsTo99 (n : ℕ) : Char × Char := (digit (n / 10), digit (n % 10))

/-- `*bufferPtr = c`; `none` is a write outside of the buffer. -/
def store (numberbuffer : Text) (bufferPtr : ℕ) (c : Char) : Option Text :=
  if bufferPtr < numberbuffer.length then some (numberbuffer.set bufferPtr c) else none

/-- `none` is a step to before the buffer. -/
def prev (bufferPtr : ℕ) : Option ℕ := if bufferPtr = 0 then none else some (bufferPtr - 1)

def storeTwo (numberbuffer : Text) (bufferPtr digitsIndex : ℕ) : Option (Text × ℕ) := do
  let numberbuffer ← store numberbuffer bufferPtr (digitsTo99 digitsIndex).2
  let bufferPtr ← prev bufferPtr
  let numberbuffer ← store numberbuffer bufferPtr (digitsTo99 digitsIndex).1
  return (numberbuffer, bufferPtr)

def storeDigits (numberbuffer : Text) (bufferPtr absValue : ℕ) : Option Text :=
  if 100 ≤ absValue then do
    let (numberbuffer, bufferPtr) ← storeTwo numberbuffer bufferPtr (absValue % 100)
    let bufferPtr ← prev bufferPtr
    storeDigits numberbuffer bufferPtr (absValue / 100)
  else if 10 ≤ absValue then do
    let (numberbuffer, _) ← storeTwo numberbuffer bufferPtr absValue
    return numberbuffer
  else store numberbuffer bufferPtr (digit absValue)
termination_by absValue

def numberbufferSize : ℕ := 64

def dumpInteger (out : Output) (number : ℤ) : Except Failure Output :=
  if number = 0 then return out ++ literal "0"
  else
    let numberbuffer := List.replicate numberbufferSize '\x00'
    let absValue := number.natAbs
    let isNegative := number < 0
    let numberbuffer := if isNegative then numberbuffer.set 0 '-' else numberbuffer
    let nChars := if isNegative then 1 + countDigits absValue else countDigits absValue
    if nChars ≥ numberbufferSize - 1 then return out
    else
      match storeDigits numberbuffer (nChars - 1) absValue with
      | none => throw .out_of_buffer
      | some numberbuffer => return out ++ value (numberbuffer.take nChars)

structure FloatText (D : Type) where
  isfinite : D → Bool
  to_chars : D → Text
  mem_to_chars : ∀ x, ∀ c ∈ to_chars x, c ∈ "0123456789+-.e".toList

section Dump
variable {D : Type} (F : FloatText D) (size : ℕ)

def dumpfloat (out : Output) (number : D) : Output :=
  if F.isfinite number then out ++ value (F.to_chars number) else out ++ literal "null"

/-- `dumpEscaped` with a buffer of this size; what it appends is marked. -/
def escape (out : Output) (str : List UInt8) : Except Failure Output :=
  match dumpEscapedSized size (out.map Written.char) str with
  | none => throw .out_of_buffer
  | some text => return out ++ value (text.drop out.length)

def escapeValue (out : Output) : Json (List UInt8) D → Except Failure Output
  | .string s => escape size out s
  | _ => throw .type_error

def bytes (text : String) : List UInt8 := text.toList.map fun c => UInt8.ofNat c.toNat

def linkKeys : List (List UInt8) :=
  [bytes "@odata.id", bytes "@odata.context", bytes "Members@odata.nextLink", bytes "Uri"]

def openATag (out : Output) (key : List UInt8) (val : Json (List UInt8) D) :
    Except Failure Output :=
  if key ∈ linkKeys then do
    let out ← escapeValue size (out ++ literal "<a href=\"") val
    return out ++ literal "\">"
  else return out

mutual

def dump (out : Output) : Json (List UInt8) D → Except Failure Output
  | .object members =>
    if members.isEmpty then return out ++ literal "\x7b\x7d"
    else do
      let out ← dumpMembers (out ++ literal "\x7b" ++ literal "<div class=tab>") members
      return out ++ literal "</div>" ++ literal "\x7d"
  | .array elements =>
    if elements.isEmpty then return out ++ literal "[]"
    else do
      let out ← dumpElements (out ++ literal "[" ++ literal "<div class=tab>") elements
      return out ++ literal "</div>" ++ literal "]"
  | .string s => do
    let out ← escape size (out ++ literal "\"") s
    return out ++ literal "\""
  | .boolean b => return out ++ (if b then literal "true" else literal "false")
  | .number_integer n => dumpInteger out n.toInt
  | .number_unsigned n => dumpInteger out n.toNat
  | .number_float x => return dumpfloat F out x
  | .discarded => return out ++ literal "<discarded>"
  | .null => return out ++ literal "null"
  | .binary => return out

def dumpMembers (out : Output) :
    List (List UInt8 × Json (List UInt8) D) → Except Failure Output
  | [] => return out
  | (key, val) :: members => do
    let out ← escape size (out ++ literal "&quot") key
    let out ← openATag size (out ++ literal "&quot: ") key val
    let out ← dump out val
    let out := if key ∈ linkKeys then out ++ literal "</a>" else out
    let out := if members.isEmpty then out else out ++ literal ","
    dumpMembers (out ++ literal "<br>") members

def dumpElements (out : Output) : List (Json (List UInt8) D) → Except Failure Output
  | [] => return out
  | val :: elements => do
    let out ← dump out val
    if elements.isEmpty then return out else dumpElements (out ++ literal ",<br>") elements

end

end Dump

mutual

/-- The members with a link hold strings. -/
def LinksHoldStrings {D : Type} : Json (List UInt8) D → Prop
  | .object members => MembersHoldStrings members
  | .array elements => ElementsHoldStrings elements
  | _ => True

def MembersHoldStrings {D : Type} : List (List UInt8 × Json (List UInt8) D) → Prop
  | [] => True
  | (key, val) :: members =>
    (key ∈ linkKeys → ∃ s, val = .string s) ∧ LinksHoldStrings val ∧ MembersHoldStrings members

def ElementsHoldStrings {D : Type} : List (Json (List UInt8) D) → Prop
  | [] => True
  | val :: elements => LinksHoldStrings val ∧ ElementsHoldStrings elements

end

/-- The markup that is appended comes from literals. -/
def Appends (out out' : Output) : Prop :=
  ∃ appended, out' = out ++ appended ∧ ∀ w ∈ appended, w.char ∈ markup → w.origin = .literal

theorem Appends.refl (out : Output) : Appends out out := ⟨[], by simp⟩

theorem Appends.trans {out out' out'' : Output} (h : Appends out out') (h' : Appends out' out'') :
    Appends out out'' := by
  obtain ⟨appended, rfl, hliteral⟩ := h
  obtain ⟨appended', rfl, hliteral'⟩ := h'
  refine ⟨appended ++ appended', by rw [List.append_assoc], fun w hw => ?_⟩
  exact (List.mem_append.1 hw).elim (hliteral w) (hliteral' w)

theorem appends_literal (out : Output) (text : String) : Appends out (out ++ literal text) := by
  refine ⟨_, rfl, fun w hw _ => ?_⟩
  obtain ⟨c, -, rfl⟩ := List.mem_map.1 hw
  rfl

theorem Appends.literal {out out' : Output} (h : Appends out out') (text : String) :
    Appends out (out' ++ literal text) := h.trans (appends_literal out' text)

theorem appends_value (out : Output) {text : Text} (h : ∀ c ∈ text, c ∉ markup) :
    Appends out (out ++ value text) := by
  refine ⟨_, rfl, fun w hw hmarkup => ?_⟩
  obtain ⟨c, hc, rfl⟩ := List.mem_map.1 hw
  exact (h c hc hmarkup).elim

theorem appends_escape {size : ℕ} {out out' : Output} {str : List UInt8}
    (h : escape size out str = .ok out') : Appends out out' := by
  unfold escape at h
  split at h
  · cases h
  · rename_i text htext
    obtain rfl := Except.ok.inj h
    obtain ⟨esc, rfl, hesc⟩ := escaped_dumpEscapedSized htext
    refine appends_value out fun c hc => hesc.inert c ?_
    rwa [← List.length_map Written.char, List.drop_left] at hc

theorem countDigitsFrom_eq (number nDigits : ℕ) :
    countDigitsFrom number nDigits = nDigits + Nat.log 10 number := by
  have hlog : ∀ n, 10 ≤ n → Nat.log 10 n = Nat.log 10 (n / 10) + 1 :=
    fun n hn => Nat.log_of_one_lt_of_le (by decide) hn
  fun_induction countDigitsFrom number nDigits with
  | case1 number nDigits h => rw [Nat.log_of_lt h, Nat.add_zero]
  | case2 number nDigits h h' =>
    rw [hlog number (by omega), Nat.log_of_lt (by omega)]
  | case3 number nDigits h h' h'' =>
    rw [hlog number (by omega), hlog (number / 10) (by omega), Nat.log_of_lt (by omega)]
  | case4 number nDigits h h' h'' h''' =>
    rw [hlog number (by omega), hlog (number / 10) (by omega), hlog (number / 10 / 10) (by omega),
      Nat.log_of_lt (by omega)]
  | case5 number nDigits h h' h'' h''' ih =>
    have hdiv : number / 10000 = number / 10 / 10 / 10 / 10 := by omega
    rw [ih, hdiv, hlog number (by omega), hlog (number / 10) (by omega),
      hlog (number / 10 / 10) (by omega), hlog (number / 10 / 10 / 10) (by omega)]
    omega

theorem countDigits_eq (number : ℕ) : countDigits number = Nat.log 10 number + 1 := by
  rw [countDigits, countDigitsFrom_eq, Nat.add_comm]

theorem digit_inert : ∀ n < 10, digit n ∉ markup := by decide

theorem store_inert {numberbuffer : Text} {bufferPtr : ℕ} {c : Char}
    (hptr : bufferPtr < numberbuffer.length) (hbuffer : ∀ x ∈ numberbuffer, x ∉ markup)
    (hc : c ∉ markup) : ∃ numberbuffer', store numberbuffer bufferPtr c = some numberbuffer' ∧
      numberbuffer'.length = numberbuffer.length ∧ ∀ x ∈ numberbuffer', x ∉ markup := by
  refine ⟨_, if_pos hptr, List.length_set, fun x hx => ?_⟩
  rcases List.mem_or_eq_of_mem_set hx with hx | rfl
  · exact hbuffer x hx
  · exact hc

theorem storeTwo_inert {numberbuffer : Text} {bufferPtr digitsIndex : ℕ}
    (hptr : bufferPtr < numberbuffer.length) (hpos : 0 < bufferPtr) (hindex : digitsIndex < 100)
    (hbuffer : ∀ x ∈ numberbuffer, x ∉ markup) : ∃ numberbuffer',
      storeTwo numberbuffer bufferPtr digitsIndex = some (numberbuffer', bufferPtr - 1) ∧
        numberbuffer'.length = numberbuffer.length ∧ ∀ x ∈ numberbuffer', x ∉ markup := by
  obtain ⟨b, hb, hlen, hinert⟩ := store_inert hptr hbuffer
    (digit_inert (digitsIndex % 10) (Nat.mod_lt _ (by decide)))
  obtain ⟨b', hb', hlen', hinert'⟩ := store_inert (show bufferPtr - 1 < b.length by omega) hinert
    (digit_inert (digitsIndex / 10) (by omega))
  refine ⟨b', ?_, by omega, hinert'⟩
  have hprev : prev bufferPtr = some (bufferPtr - 1) := if_neg (Nat.ne_of_gt hpos)
  simp [storeTwo, digitsTo99, hb, hb', hprev]

theorem storeDigits_inert {numberbuffer : Text} {bufferPtr absValue : ℕ}
    (hptr : bufferPtr < numberbuffer.length) (hroom : Nat.log 10 absValue ≤ bufferPtr)
    (hbuffer : ∀ x ∈ numberbuffer, x ∉ markup) : ∃ numberbuffer',
      storeDigits numberbuffer bufferPtr absValue = some numberbuffer' ∧
        ∀ x ∈ numberbuffer', x ∉ markup := by
  have hlog : ∀ n, 10 ≤ n → Nat.log 10 n = Nat.log 10 (n / 10) + 1 :=
    fun n hn => Nat.log_of_one_lt_of_le (by decide) hn
  induction absValue using Nat.strong_induction_on generalizing numberbuffer bufferPtr with
  | _ absValue ih =>
    rw [storeDigits]
    split_ifs with hhundred hten
    · have htwo : Nat.log 10 absValue = Nat.log 10 (absValue / 100) + 2 := by
        rw [hlog absValue (by omega), hlog (absValue / 10) (by omega), Nat.div_div_eq_div_mul]
      have hindex : absValue % 100 < 100 := Nat.mod_lt _ (by decide)
      obtain ⟨b, hb, hlen, hinert⟩ := storeTwo_inert hptr (by omega) hindex hbuffer
      have hprev : prev (bufferPtr - 1) = some (bufferPtr - 1 - 1) := if_neg (by omega)
      have hptr' : bufferPtr - 1 - 1 < b.length := by omega
      obtain ⟨b', hb', hinert'⟩ :=
        ih (absValue / 100) (Nat.div_lt_self (by omega) (by decide)) hptr' (by omega) hinert
      refine ⟨b', ?_, hinert'⟩
      rw [hb]
      simp [hprev, hb']
    · have hone := hlog absValue hten
      have hindex : absValue < 100 := by omega
      obtain ⟨b, hb, -, hinert⟩ := storeTwo_inert hptr (by omega) hindex hbuffer
      refine ⟨b, ?_, hinert⟩
      rw [hb]
      rfl
    · obtain ⟨b, hb, -, hinert⟩ := store_inert hptr hbuffer (digit_inert absValue (by omega))
      exact ⟨b, hb, hinert⟩

theorem dumpInteger_appends (out : Output) (number : ℤ) :
    ∃ out', dumpInteger out number = .ok out' ∧ Appends out out' := by
  unfold dumpInteger
  dsimp only
  rw [countDigits_eq]
  split_ifs with hzero hnegative hlong hlong
  · exact ⟨_, rfl, appends_literal out _⟩
  · exact ⟨_, rfl, Appends.refl out⟩
  · unfold numberbufferSize at *
    have hlen : ((List.replicate 64 '\x00').set 0 '-').length = 64 := by
      rw [List.length_set, List.length_replicate]
    have hptr : 1 + (Nat.log 10 number.natAbs + 1) - 1 <
        ((List.replicate 64 '\x00').set 0 '-').length := by omega
    have hroom : Nat.log 10 number.natAbs ≤ 1 + (Nat.log 10 number.natAbs + 1) - 1 := by omega
    obtain ⟨b, hb, hinert⟩ := storeDigits_inert hptr hroom (not_markup_of_all (by decide))
    rw [hb]
    exact ⟨_, rfl, appends_value out fun c hc => hinert c (List.mem_of_mem_take hc)⟩
  · exact ⟨_, rfl, Appends.refl out⟩
  · unfold numberbufferSize at *
    have hlen : (List.replicate 64 '\x00').length = 64 := List.length_replicate
    have hptr : Nat.log 10 number.natAbs + 1 - 1 < (List.replicate 64 '\x00').length := by omega
    have hroom : Nat.log 10 number.natAbs ≤ Nat.log 10 number.natAbs + 1 - 1 := le_refl _
    obtain ⟨b, hb, hinert⟩ := storeDigits_inert hptr hroom (not_markup_of_all (by decide))
    rw [hb]
    exact ⟨_, rfl, appends_value out fun c hc => hinert c (List.mem_of_mem_take hc)⟩

theorem appends_dumpInteger {out out' : Output} {number : ℤ}
    (h : dumpInteger out number = .ok out') : Appends out out' := by
  obtain ⟨out'', hout, happends⟩ := dumpInteger_appends out number
  obtain rfl := Except.ok.inj (hout.symm.trans h)
  exact happends

variable {D : Type} {F : FloatText D} {size : ℕ}

theorem dumpfloat_appends (F : FloatText D) (out : Output) (number : D) :
    Appends out (dumpfloat F out number) := by
  have hinert : ∀ c ∈ "0123456789+-.e".toList, c ∉ markup := not_markup_of_all (by decide)
  unfold dumpfloat
  split_ifs
  · exact appends_value out fun c hc => hinert c (F.mem_to_chars number c hc)
  · exact appends_literal out _

theorem appends_escapeValue {out out' : Output} {val : Json (List UInt8) D}
    (h : escapeValue size out val = .ok out') : Appends out out' := by
  cases val with
  | string s => exact appends_escape h
  | _ => cases h

theorem appends_openATag {out out' : Output} {key : List UInt8} {val : Json (List UInt8) D}
    (h : openATag size out key val = .ok out') : Appends out out' := by
  unfold openATag at h
  split_ifs at h
  · obtain ⟨inner, hinner, h⟩ := bind_ok.1 h
    obtain rfl := Except.ok.inj h
    exact ((appends_literal out _).trans (appends_escapeValue hinner)).literal _
  · obtain rfl := Except.ok.inj h
    exact Appends.refl out

mutual

theorem dump_appends {out out' : Output} :
    ∀ val : Json (List UInt8) D, dump F size out val = .ok out' → Appends out out'
  | .object members, h => by
    rw [dump] at h
    split_ifs at h
    · obtain rfl := Except.ok.inj h
      exact appends_literal out _
    · obtain ⟨inner, hinner, h⟩ := bind_ok.1 h
      obtain rfl := Except.ok.inj h
      have hmembers := dumpMembers_appends members hinner
      exact ((((appends_literal out _).literal _).trans hmembers).literal _).literal _
  | .array elements, h => by
    rw [dump] at h
    split_ifs at h
    · obtain rfl := Except.ok.inj h
      exact appends_literal out _
    · obtain ⟨inner, hinner, h⟩ := bind_ok.1 h
      obtain rfl := Except.ok.inj h
      have helements := dumpElements_appends elements hinner
      exact ((((appends_literal out _).literal _).trans helements).literal _).literal _
  | .string s, h => by
    rw [dump] at h
    obtain ⟨inner, hinner, h⟩ := bind_ok.1 h
    obtain rfl := Except.ok.inj h
    exact ((appends_literal out _).trans (appends_escape hinner)).literal _
  | .boolean b, h => by
    rw [dump] at h
    obtain rfl := Except.ok.inj h
    cases b <;> exact appends_literal out _
  | .number_integer n, h => by
    rw [dump] at h
    exact appends_dumpInteger h
  | .number_unsigned n, h => by
    rw [dump] at h
    exact appends_dumpInteger h
  | .number_float x, h => by
    rw [dump] at h
    obtain rfl := Except.ok.inj h
    exact dumpfloat_appends F out x
  | .discarded, h => by
    rw [dump] at h
    obtain rfl := Except.ok.inj h
    exact appends_literal out _
  | .null, h => by
    rw [dump] at h
    obtain rfl := Except.ok.inj h
    exact appends_literal out _
  | .binary, h => by
    rw [dump] at h
    obtain rfl := Except.ok.inj h
    exact Appends.refl out

theorem dumpMembers_appends {out out' : Output} :
    ∀ members : List (List UInt8 × Json (List UInt8) D),
      dumpMembers F size out members = .ok out' → Appends out out'
  | [], h => by
    rw [dumpMembers] at h
    obtain rfl := Except.ok.inj h
    exact Appends.refl out
  | (key, val) :: members, h => by
    rw [dumpMembers] at h
    obtain ⟨named, hkey, h⟩ := bind_ok.1 h
    obtain ⟨linked, hlink, h⟩ := bind_ok.1 h
    obtain ⟨dumped, hval, h⟩ := bind_ok.1 h
    have hnamed := ((appends_literal out _).trans (appends_escape hkey)).literal "&quot: "
    have hdumped := (hnamed.trans (appends_openATag hlink)).trans (dump_appends val hval)
    refine Appends.trans ?_ (dumpMembers_appends members h)
    refine Appends.literal ?_ _
    split_ifs
    · exact hdumped.literal _
    · exact hdumped
    · exact (hdumped.literal _).literal _
    · exact hdumped.literal _

theorem dumpElements_appends {out out' : Output} :
    ∀ elements : List (Json (List UInt8) D),
      dumpElements F size out elements = .ok out' → Appends out out'
  | [], h => by
    rw [dumpElements] at h
    obtain rfl := Except.ok.inj h
    exact Appends.refl out
  | val :: elements, h => by
    rw [dumpElements] at h
    obtain ⟨dumped, hval, h⟩ := bind_ok.1 h
    have hdumped := dump_appends val hval
    split_ifs at h
    · obtain rfl := Except.ok.inj h
      exact hdumped
    · exact (hdumped.literal _).trans (dumpElements_appends elements h)

end

/-- The call returns where the buffer is large enough. -/
def Returns (f : ℕ → Output → Except Failure Output) : Prop :=
  ∃ n, ∀ size ≥ n, ∀ out, ∃ out', f size out = .ok out'

theorem returns_of_forall {f : ℕ → Output → Except Failure Output}
    (h : ∀ size out, ∃ out', f size out = .ok out') : Returns f :=
  ⟨0, fun size _ out => h size out⟩

theorem returns_escape (str : List UInt8) : Returns fun size out => escape size out str := by
  refine ⟨26 * str.length, fun size hsize out => ?_⟩
  obtain ⟨text, htext⟩ := Option.isSome_iff_exists.1
    (dumpEscapedSized_isSome hsize (out.map Written.char))
  exact ⟨_, by simp only [escape, htext]; rfl⟩

theorem Returns.bind {f : ℕ → Output → Except Failure Output}
    {g : ℕ → Output → Except Failure Output} (hf : Returns f) (hg : Returns g) :
    Returns fun size out => f size out >>= g size := by
  obtain ⟨n, hn⟩ := hf
  obtain ⟨m, hm⟩ := hg
  refine ⟨max n m, fun size hsize out => ?_⟩
  obtain ⟨inner, hinner⟩ := hn size (le_of_max_le_left hsize) out
  obtain ⟨out', hout'⟩ := hm size (le_of_max_le_right hsize) inner
  exact ⟨out', bind_ok.2 ⟨inner, hinner, hout'⟩⟩

theorem Returns.after {f : ℕ → Output → Except Failure Output} (hf : Returns f)
    (before : Output → Output) : Returns fun size out => f size (before out) := by
  obtain ⟨n, hn⟩ := hf
  exact ⟨n, fun size hsize out => hn size hsize (before out)⟩

theorem returns_pure (after : Output → Output) : Returns fun _ out => pure (after out) :=
  returns_of_forall fun _ out => ⟨after out, rfl⟩

theorem returns_openATag {key : List UInt8} {val : Json (List UInt8) D}
    (h : key ∈ linkKeys → ∃ s, val = .string s) :
    Returns fun size out => openATag size out key val := by
  by_cases hkey : key ∈ linkKeys
  · obtain ⟨s, rfl⟩ := h hkey
    simp only [openATag, if_pos hkey]
    exact ((returns_escape s).after _).bind (returns_pure _)
  · simp only [openATag, if_neg hkey]
    exact returns_pure id

mutual

theorem returns_dump (F : FloatText D) : ∀ {val : Json (List UInt8) D}, LinksHoldStrings val →
    Returns fun size out => dump F size out val
  | .object members, h => by
    rw [LinksHoldStrings] at h
    simp only [dump]
    split_ifs
    · exact returns_pure _
    · exact ((returns_dumpMembers F h).after _).bind (returns_pure _)
  | .array elements, h => by
    rw [LinksHoldStrings] at h
    simp only [dump]
    split_ifs
    · exact returns_pure _
    · exact ((returns_dumpElements F h).after _).bind (returns_pure _)
  | .string s, _ => by
    simp only [dump]
    exact ((returns_escape s).after _).bind (returns_pure _)
  | .boolean b, _ => by
    simp only [dump]
    exact returns_pure _
  | .number_integer n, _ => by
    simp only [dump]
    exact returns_of_forall fun _ out => (dumpInteger_appends out n.toInt).imp fun _ => And.left
  | .number_unsigned n, _ => by
    simp only [dump]
    exact returns_of_forall fun _ out => (dumpInteger_appends out n.toNat).imp fun _ => And.left
  | .number_float x, _ => by
    simp only [dump]
    exact returns_pure _
  | .discarded, _ => by
    simp only [dump]
    exact returns_pure _
  | .null, _ => by
    simp only [dump]
    exact returns_pure _
  | .binary, _ => by
    simp only [dump]
    exact returns_pure id

theorem returns_dumpMembers (F : FloatText D) :
    ∀ {members : List (List UInt8 × Json (List UInt8) D)}, MembersHoldStrings members →
      Returns fun size out => dumpMembers F size out members
  | [], _ => by
    simp only [dumpMembers]
    exact returns_pure id
  | (key, val) :: members, h => by
    rw [MembersHoldStrings] at h
    obtain ⟨hlink, hval, hmembers⟩ := h
    simp only [dumpMembers]
    refine ((returns_escape key).after _).bind (((returns_openATag hlink).after _).bind ?_)
    exact (returns_dump F hval).bind ((returns_dumpMembers F hmembers).after fun out =>
      (if members.isEmpty then (if key ∈ linkKeys then out ++ literal "</a>" else out)
        else (if key ∈ linkKeys then out ++ literal "</a>" else out) ++ literal ",") ++
          literal "<br>")

theorem returns_dumpElements (F : FloatText D) :
    ∀ {elements : List (Json (List UInt8) D)}, ElementsHoldStrings elements →
      Returns fun size out => dumpElements F size out elements
  | [], _ => by
    simp only [dumpElements]
    exact returns_pure id
  | val :: elements, h => by
    rw [ElementsHoldStrings] at h
    simp only [dumpElements]
    refine (returns_dump F h.1).bind ?_
    split_ifs
    · exact returns_pure id
    · exact (returns_dumpElements F h.2).after _

end

/-- The markup in what `dump` appends comes from its own literals; `dumpEscaped`
returns for every byte string, and appends printable ASCII with '&' only in
entities. With buffers that are large enough, `dump` returns for every value. -/
theorem dump_not_injected (F : FloatText D) (val : Json (List UInt8) D) :
    (∀ size out out', dump F size out val = .ok out' → Appends out out') ∧
      (LinksHoldStrings val → Returns fun size out => dump F size out val) ∧
      ∀ str, ∃ n, ∀ size ≥ n, ∀ out,
        ∃ esc, dumpEscapedSized size out str = some (out ++ esc) ∧ Escaped esc := by
  refine ⟨fun _ _ _ h => dump_appends val h, returns_dump F, fun str => ?_⟩
  refine ⟨26 * str.length, fun size hsize out => ?_⟩
  obtain ⟨text, htext⟩ := Option.isSome_iff_exists.1 (dumpEscapedSized_isSome hsize out)
  obtain ⟨esc, rfl, hesc⟩ := escaped_dumpEscapedSized htext
  exact ⟨esc, htext, hesc⟩

def noFloats : FloatText Unit where
  isfinite _ := false
  to_chars _ := []
  mem_to_chars := by simp

def sampleValue : Json (List UInt8) Unit :=
  .object [(bytes "@odata.id", .string (bytes "/a\"><b>"))]

theorem dump_not_injected_sample : ∃ size out',
    dump noFloats size [] sampleValue = .ok out' ∧ Appends [] out' := by
  have hlinks : LinksHoldStrings sampleValue := by
    simp only [sampleValue, LinksHoldStrings, MembersHoldStrings, and_true]
    exact fun _ => ⟨_, rfl⟩
  obtain ⟨happends, hreturns, -⟩ := dump_not_injected noFloats sampleValue
  obtain ⟨size, hsize⟩ := hreturns hlinks
  obtain ⟨out', hout⟩ := hsize size (le_refl _) []
  exact ⟨size, out', hout, happends size [] out' hout⟩

end CrowCore.HtmlView
