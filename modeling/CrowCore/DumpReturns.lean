import CrowCore.EscapedCodePoints
import CrowCore.IntegerDigits

set_option autoImplicit false

/-!
# Values that `dump` returns for

A key of a link makes `dump` convert the value before it looks at its type. Every
other way not to return lies in a string or in a number somewhere in the value.
-/
namespace CrowCore.DumpReturns
open BlockPacking JsonHtmlSerializer EscapeBuffer EscapedCodePoints EscapedText HtmlView JsonValue

variable {D : Type}

mutual

def parts : Json (List UInt8) D → List (Json (List UInt8) D)
  | .object members => memberParts members
  | .array elements => elementParts elements
  | val => [val]

def memberParts : List (List UInt8 × Json (List UInt8) D) → List (Json (List UInt8) D)
  | [] => []
  | (key, val) :: members => .string key :: (parts val ++ memberParts members)

def elementParts : List (Json (List UInt8) D) → List (Json (List UInt8) D)
  | [] => []
  | val :: elements => parts val ++ elementParts elements

end

def StringsFit (ps : List (Json (List UInt8) D)) : Prop :=
  ∀ s, .string s ∈ ps → packing.Packs (pieces {} s)

theorem stringsFit_nil : StringsFit ([] : List (Json (List UInt8) D)) :=
  fun _ hs => (List.not_mem_nil hs).elim

theorem stringsFit_append {ps ps' : List (Json (List UInt8) D)} :
    StringsFit (ps ++ ps') ↔ StringsFit ps ∧ StringsFit ps' := by
  constructor
  · intro h
    exact ⟨fun s hs => h s (List.mem_append_left _ hs),
      fun s hs => h s (List.mem_append_right _ hs)⟩
  · rintro ⟨h, h'⟩ s hs
    exact (List.mem_append.1 hs).elim (h s) (h' s)

theorem stringsFit_string {s : List UInt8} :
    StringsFit [(.string s : Json (List UInt8) D)] ↔ packing.Packs (pieces {} s) := by
  constructor
  · exact fun h => h s (List.mem_singleton.2 rfl)
  · intro h s' hs'
    cases List.mem_singleton.1 hs'
    exact h

theorem stringsFit_cons {s : List UInt8} {ps : List (Json (List UInt8) D)} :
    StringsFit (.string s :: ps) ↔ packing.Packs (pieces {} s) ∧ StringsFit ps := by
  rw [← stringsFit_string (D := D), ← stringsFit_append]
  rfl

theorem stringsFit_singleton {val : Json (List UInt8) D} (h : ∀ s, val ≠ .string s) :
    StringsFit [val] :=
  fun s hs => (h s (List.mem_singleton.1 hs).symm).elim

theorem ok_iff {out : Output} {P : Prop} (h : P) :
    (∃ out', (pure out : Except Failure Output) = .ok out') ↔ P :=
  iff_of_true ⟨out, rfl⟩ h

theorem bind_returns {x : Except Failure Output} {f : Output → Except Failure Output} {P Q : Prop}
    (hx : (∃ out, x = .ok out) ↔ P) (hf : ∀ out, (∃ out', f out = .ok out') ↔ Q) :
    (∃ out', x >>= f = .ok out') ↔ P ∧ Q := by
  constructor
  · rintro ⟨out', hout'⟩
    obtain ⟨out, hout, h⟩ := bind_ok.1 hout'
    exact ⟨hx.1 ⟨out, hout⟩, (hf out).1 ⟨out', h⟩⟩
  · rintro ⟨hP, hQ⟩
    obtain ⟨out, hout⟩ := hx.2 hP
    obtain ⟨out', h⟩ := (hf out).2 hQ
    exact ⟨out', bind_ok.2 ⟨out, hout, h⟩⟩

theorem bind_pure_returns {x : Except Failure Output} (after : Output → Output) :
    (∃ out', (x >>= fun out => pure (after out)) = .ok out') ↔ ∃ out, x = .ok out :=
  (bind_returns Iff.rfl fun _ => ok_iff trivial).trans (and_iff_left trivial)

theorem escape_returns (out : Output) (str : List UInt8) :
    (∃ out', escape stringBufferSize out str = .ok out') ↔ packing.Packs (pieces {} str) := by
  rw [← Packing.fits_iff_packs, ← dumpEscaped_isSome_iff_fits (out.map Written.char), escape,
    dumpEscaped]
  cases dumpEscapedSized stringBufferSize (out.map Written.char) str with
  | none => exact iff_of_false (fun h => by cases h.choose_spec) (by simp)
  | some text => exact iff_of_true ⟨_, rfl⟩ rfl

theorem escapeValue_returns (out : Output) (val : Json (List UInt8) D) :
    (∃ out', escapeValue stringBufferSize out val = .ok out') ↔
      ∃ s, val = .string s ∧ packing.Packs (pieces {} s) := by
  cases val with
  | string s =>
    rw [escapeValue, escape_returns]
    exact ⟨fun h => ⟨s, rfl, h⟩, fun ⟨_, heq, h⟩ => by cases heq; exact h⟩
  | _ => exact iff_of_false (fun h => by cases h.choose_spec) (by simp)

theorem openATag_returns (out : Output) (key : List UInt8) (val : Json (List UInt8) D) :
    (∃ out', openATag stringBufferSize out key val = .ok out') ↔
      (key ∈ linkKeys → ∃ s, val = .string s ∧ packing.Packs (pieces {} s)) := by
  unfold openATag
  split_ifs with hkey
  · rw [bind_pure_returns, escapeValue_returns]
    exact (imp_iff_right hkey).symm
  · exact ok_iff fun hmem => (hkey hmem).elim

theorem link_iff {key : List UInt8} {val : Json (List UInt8) D} :
    ((key ∈ linkKeys → ∃ s, val = .string s ∧ packing.Packs (pieces {} s)) ∧
      LinksHoldStrings val ∧ StringsFit (parts val)) ↔
    ((key ∈ linkKeys → ∃ s, val = .string s) ∧ LinksHoldStrings val) ∧ StringsFit (parts val) := by
  constructor
  · rintro ⟨hlink, hval, hfit⟩
    exact ⟨⟨fun hkey => (hlink hkey).imp fun _ => And.left, hval⟩, hfit⟩
  · rintro ⟨⟨hlink, hval⟩, hfit⟩
    refine ⟨fun hkey => ?_, hval, hfit⟩
    obtain ⟨s, rfl⟩ := hlink hkey
    rw [parts, stringsFit_string] at hfit
    exacts [⟨s, rfl, hfit⟩, by simp, by simp]

mutual

theorem dump_returns (F : FloatText D) : ∀ (val : Json (List UInt8) D) (out : Output),
    (∃ out', dump F stringBufferSize out val = .ok out') ↔
      LinksHoldStrings val ∧ StringsFit (parts val)
  | .object members, out => by
    rw [dump, LinksHoldStrings, parts]
    split_ifs with hempty
    · rw [List.isEmpty_iff.1 hempty, MembersHoldStrings, memberParts]
      exact ok_iff ⟨trivial, stringsFit_nil⟩
    · rw [bind_pure_returns, dumpMembers_returns F members]
  | .array elements, out => by
    rw [dump, LinksHoldStrings, parts]
    split_ifs with hempty
    · rw [List.isEmpty_iff.1 hempty, ElementsHoldStrings, elementParts]
      exact ok_iff ⟨trivial, stringsFit_nil⟩
    · rw [bind_pure_returns, dumpElements_returns F elements]
  | .string s, out => by
    rw [dump, LinksHoldStrings, parts, bind_pure_returns, escape_returns, stringsFit_string,
      true_and]
    all_goals simp
  | .boolean b, out => by
    rw [dump, LinksHoldStrings, parts]
    exact ok_iff ⟨trivial, stringsFit_singleton (by simp)⟩
    all_goals simp
  | .number_integer n, out => by
    rw [dump, LinksHoldStrings, parts]
    exact iff_of_true ((dumpInteger_appends out n.toInt).imp fun _ => And.left)
      ⟨trivial, stringsFit_singleton (by simp)⟩
    all_goals simp
  | .number_unsigned n, out => by
    rw [dump, LinksHoldStrings, parts]
    exact iff_of_true ((dumpInteger_appends out n.toNat).imp fun _ => And.left)
      ⟨trivial, stringsFit_singleton (by simp)⟩
    all_goals simp
  | .number_float x, out => by
    rw [dump, LinksHoldStrings, parts]
    exact ok_iff ⟨trivial, stringsFit_singleton (by simp)⟩
    all_goals simp
  | .discarded, out => by
    rw [dump, LinksHoldStrings, parts]
    exact ok_iff ⟨trivial, stringsFit_singleton (by simp)⟩
    all_goals simp
  | .null, out => by
    rw [dump, LinksHoldStrings, parts]
    exact ok_iff ⟨trivial, stringsFit_singleton (by simp)⟩
    all_goals simp
  | .binary, out => by
    rw [dump, LinksHoldStrings, parts]
    exact ok_iff ⟨trivial, stringsFit_singleton (by simp)⟩
    all_goals simp

theorem dumpMembers_returns (F : FloatText D) :
    ∀ (members : List (List UInt8 × Json (List UInt8) D)) (out : Output),
      (∃ out', dumpMembers F stringBufferSize out members = .ok out') ↔
        MembersHoldStrings members ∧ StringsFit (memberParts members)
  | [], out => by
    rw [dumpMembers, MembersHoldStrings, memberParts]
    exact ok_iff ⟨trivial, stringsFit_nil⟩
  | (key, val) :: members, out => by
    rw [dumpMembers, MembersHoldStrings, memberParts, stringsFit_cons, stringsFit_append]
    have hrest := fun dumped : Output => bind_returns (dump_returns F val dumped) fun out =>
      dumpMembers_returns F members
        ((if members.isEmpty then (if key ∈ linkKeys then out ++ literal "</a>" else out)
          else (if key ∈ linkKeys then out ++ literal "</a>" else out) ++ literal ",") ++
            literal "<br>")
    refine (bind_returns (escape_returns _ key) fun named =>
      bind_returns (openATag_returns _ key val) hrest).trans ?_
    constructor
    · rintro ⟨hkey, hlink, ⟨hval, hfit⟩, hmembers, hfits⟩
      exact ⟨⟨(link_iff.1 ⟨hlink, hval, hfit⟩).1.1, hval, hmembers⟩, hkey, hfit, hfits⟩
    · rintro ⟨⟨hlink, hval, hmembers⟩, hkey, hfit, hfits⟩
      exact ⟨hkey, (link_iff.2 ⟨⟨hlink, hval⟩, hfit⟩).1, ⟨hval, hfit⟩, hmembers, hfits⟩

theorem dumpElements_returns (F : FloatText D) :
    ∀ (elements : List (Json (List UInt8) D)) (out : Output),
      (∃ out', dumpElements F stringBufferSize out elements = .ok out') ↔
        ElementsHoldStrings elements ∧ StringsFit (elementParts elements)
  | [], out => by
    rw [dumpElements, ElementsHoldStrings, elementParts]
    exact ok_iff ⟨trivial, stringsFit_nil⟩
  | val :: elements, out => by
    rw [dumpElements, ElementsHoldStrings, elementParts, stringsFit_append]
    have hrest : ∀ dumped : Output, (∃ out', (if elements.isEmpty then return dumped
        else dumpElements F stringBufferSize (dumped ++ literal ",<br>") elements) = .ok out') ↔
          ElementsHoldStrings elements ∧ StringsFit (elementParts elements) := by
      intro dumped
      split_ifs with hempty
      · rw [List.isEmpty_iff.1 hempty, ElementsHoldStrings, elementParts]
        exact ok_iff ⟨trivial, stringsFit_nil⟩
      · exact dumpElements_returns F elements _
    exact (bind_returns (dump_returns F val _) hrest).trans and_and_and_comm

end

/-- `dump` returns after any output, and no sign that it takes off overflows. -/
structure ReturnsNormally (F : FloatText D) (val : Json (List UInt8) D) : Prop where
  returns : ∀ out, ∃ out', dump F stringBufferSize out val = .ok out'
  no_overflow : ∀ n, .number_integer n ∈ parts val →
    ∀ out, ∃ out', IntegerDigits.dumpInteger out (.int64 n) = .ok out'

theorem dumpInteger_returns_iff (n : Int64) :
    (∀ out, ∃ out', IntegerDigits.dumpInteger out (.int64 n) = .ok out') ↔ n ≠ Int64.minValue := by
  constructor
  · rintro h rfl
    cases (h []).choose_spec
  · intro h out
    exact ⟨_, IntegerDigits.dumpIntegerWith_of_ne IntegerDigits.fills_storeDigits out
      fun heq => h (IntegerDigits.Number.int64.inj heq)⟩

/-- `dump` returns normally if and only if the members with a link hold strings,
the escapes of all keys and strings fit the buffer and no integer is the least one. -/
theorem returnsNormally_iff (F : FloatText D) (val : Json (List UInt8) D) :
    ReturnsNormally F val ↔ LinksHoldStrings val ∧
      (∀ s, .string s ∈ parts val → packing.Packs (pieces {} s)) ∧
      ∀ n, .number_integer n ∈ parts val → n ≠ Int64.minValue := by
  constructor
  · rintro ⟨hreturns, hoverflow⟩
    obtain ⟨hlinks, hfit⟩ := (dump_returns F val []).1 (hreturns [])
    exact ⟨hlinks, hfit, fun n hn => (dumpInteger_returns_iff n).1 (hoverflow n hn)⟩
  · rintro ⟨hlinks, hfit, hleast⟩
    exact ⟨fun out => (dump_returns F val out).2 ⟨hlinks, hfit⟩,
      fun n hn => (dumpInteger_returns_iff n).2 (hleast n hn)⟩

theorem packs_ascii {str : List UInt8} (h : ∀ byte ∈ str, byte.toNat < 0x80) :
    packing.Packs (pieces {} str) := by
  have hclosing : ∀ codePoint, ∀ p ∈ pieces { codePoint } str, packing.closing p := by
    induction str with
    | nil => simp [pieces]
    | cons byte str ih =>
      intro codePoint p hp
      have hstate : (decode { codePoint } byte).state = utf8Accept := by
        rw [decode_lead]
        exact ((lead_bytes byte.toNat byte.toNat_lt).1 (h byte List.mem_cons_self)).1
      rw [pieces, if_pos hstate] at hp
      rcases List.mem_cons.1 hp with rfl | hp
      · rfl
      · generalize decode { codePoint } byte = d at hstate hp
        obtain ⟨state, codePoint'⟩ := d
        cases hstate
        exact ih (fun b hb => h b (List.mem_cons_of_mem _ hb)) codePoint' p hp
  exact (packing.fits_iff_packs _).1 (fits_of_wellFormed (hclosing 0) (Nat.zero_le _))

theorem dump_link_throws (F : FloatText D) (out : Output) {key : List UInt8}
    (hkey : key ∈ linkKeys) {val : Json (List UInt8) D} (hval : ∀ s, val ≠ .string s)
    (members : List (List UInt8 × Json (List UInt8) D)) :
    dump F stringBufferSize out (.object ((key, val) :: members)) = .error .type_error := by
  have hascii : ∀ key ∈ linkKeys, ∀ byte ∈ key, byte.toNat < 0x80 := by simp [linkKeys, bytes]
  obtain ⟨named, hnamed⟩ :=
    (escape_returns (out ++ literal "\x7b" ++ literal "<div class=tab>" ++ literal "&quot") key).2
      (packs_ascii (hascii key hkey))
  have hvalue : ∀ out, escapeValue stringBufferSize out val = .error .type_error := by
    intro out
    cases val with
    | string s => exact (hval s rfl).elim
    | _ => rfl
  rw [dump, if_neg (by simp), dumpMembers, hnamed]
  simp only [openATag, if_pos hkey, hvalue]
  rfl

/-- A link that holds null. -/
theorem null_link_throws : dump noFloats stringBufferSize []
    (.object [(bytes "@odata.id", .null)]) = .error .type_error :=
  dump_link_throws noFloats [] List.mem_cons_self (by simp) []

end CrowCore.DumpReturns
