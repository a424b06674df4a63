import CrowCore.EscapeBuffer
import CrowCore.ListSplits

set_option autoImplicit false

/-!
# The text of an escaped string

The automaton accepts a code point below 128 only from a single byte. So the
bytes that `dumpEscaped` copies are printable characters without a meaning in
HTML, and everything else is an escape of its own.
-/
namespace CrowCore.EscapedText
open JsonHtmlSerializer EscapeBuffer ListSplits

def markup : Text := ['<', '>', '"', '\'']

theorem not_markup_of_all {text : Text} (h : text.all fun c => decide (c ∉ markup)) :
    ∀ c ∈ text, c ∉ markup :=
  fun c hc => of_decide_eq_true (List.all_eq_true.1 h c hc)

def entities : List Text := ["quot;".toList, "apos;".toList, "amp;".toList]

/-- Printable ASCII without markup, '&' only at the start of an entity. -/
structure Escaped (text : Text) : Prop where
  printable : ∀ c ∈ text, 0x20 ≤ c.toNat ∧ c.toNat ≤ 0x7E
  inert : ∀ c ∈ text, c ∉ markup
  entity : ∀ before after, text = before ++ '&' :: after → ∃ e ∈ entities, e <+: after

theorem escaped_nil : Escaped [] := by
  refine ⟨by simp, by simp, fun before after h => ?_⟩
  simp at h

theorem Escaped.append {text text' : Text} (h : Escaped text) (h' : Escaped text') :
    Escaped (text ++ text') := by
  refine ⟨?_, ?_, ?_⟩
  · intro c hc
    exact (List.mem_append.1 hc).elim (h.printable c) (h'.printable c)
  · intro c hc
    exact (List.mem_append.1 hc).elim (h.inert c) (h'.inert c)
  · intro before after heq
    rcases split_append heq with ⟨between, rfl, htext⟩ | ⟨between, -, htext'⟩
    · obtain ⟨e, he, hprefix⟩ := h.entity before between htext
      exact ⟨e, he, hprefix.trans (List.prefix_append between text')⟩
    · exact h'.entity between after htext'

structure Plain (c : Char) : Prop where
  printable : 0x20 ≤ c.toNat ∧ c.toNat ≤ 0x7E
  inert : c ∉ markup
  not_amp : c ≠ '&'

instance : DecidablePred Plain := fun c =>
  decidable_of_iff ((0x20 ≤ c.toNat ∧ c.toNat ≤ 0x7E) ∧ c ∉ markup ∧ c ≠ '&')
    ⟨fun h => ⟨h.1, h.2.1, h.2.2⟩, fun h => ⟨h.printable, h.inert, h.not_amp⟩⟩

theorem escaped_of_plain {text : Text} (h : ∀ c ∈ text, Plain c) : Escaped text := by
  refine ⟨fun c hc => (h c hc).printable, fun c hc => (h c hc).inert, fun before after heq => ?_⟩
  exact ((h '&' (by simp [heq])).not_amp rfl).elim

theorem escaped_of_all {text : Text} (h : text.all fun c => decide (Plain c)) : Escaped text :=
  escaped_of_plain fun c hc => of_decide_eq_true (List.all_eq_true.1 h c hc)

theorem plain_entities : ∀ e ∈ entities, e.all fun c => decide (Plain c) := by decide

theorem escaped_entity {e : Text} (he : e ∈ entities) : Escaped ('&' :: e) := by
  have hplain : ∀ c ∈ e, Plain c := fun c hc =>
    of_decide_eq_true (List.all_eq_true.1 (plain_entities e he) c hc)
  refine ⟨?_, ?_, fun before after heq => ?_⟩
  · exact List.forall_mem_cons.2 ⟨by decide, fun c hc => (hplain c hc).printable⟩
  · exact List.forall_mem_cons.2 ⟨by decide, fun c hc => (hplain c hc).inert⟩
  · cases before with
    | nil =>
      obtain ⟨-, rfl⟩ := List.cons_eq_cons.1 heq
      exact ⟨e, he, List.prefix_rfl⟩
    | cons c before =>
      obtain ⟨-, htail⟩ := List.cons_eq_cons.1 heq
      exact ((hplain '&' (by simp [htail])).not_amp rfl).elim

theorem plain_hexDigit : ∀ k < 16, Plain (hexDigit k) := by decide +kernel

theorem escaped_unicodeEscape (n : ℕ) : Escaped (unicodeEscape n) := by
  refine escaped_of_plain fun c hc => ?_
  simp only [unicodeEscape, List.mem_cons, List.not_mem_nil, or_false] at hc
  rcases hc with rfl | rfl | rfl | rfl | rfl | rfl
  · decide
  · decide
  all_goals exact plain_hexDigit _ (Nat.mod_lt _ (by decide))

theorem escaped_replacement : Escaped replacement := escaped_of_all (by decide)

/-- A code point below 128 is the byte it was read from. -/
def Single (codePoint : ℕ) (byte : UInt8) : Prop := codePoint < 0x80 → codePoint = byte.toNat

theorem plain_byte : ∀ n < 0x7F, 0x1F < n ∧ n ≠ 0x22 ∧ n ≠ 0x27 ∧ n ≠ 0x26 ∧ n ≠ 0x3C ∧ n ≠ 0x3E →
    Plain (Char.ofNat n) := by decide +kernel

theorem escaped_escapeOf {codePoint : ℕ} {byte : UInt8} (h : Single codePoint byte) :
    Escaped (escapeOf codePoint byte).text := by
  unfold escapeOf
  split
  case h_11 h08 h09 h0A h0C h0D h22 h27 h26 h3C h3E =>
    split_ifs with hcontrol hshort
    · exact escaped_unicodeEscape _
    · exact (escaped_unicodeEscape _).append (escaped_unicodeEscape _)
    · obtain ⟨hlow, hhigh⟩ := not_or.1 hcontrol
      rw [not_le] at hlow hhigh
      rw [← h (hhigh.trans (by decide))]
      refine escaped_of_plain fun c hc => ?_
      rw [List.mem_singleton.1 hc]
      exact plain_byte codePoint hhigh ⟨hlow, h22, h27, h26, h3C, h3E⟩
  case h_6 => exact escaped_entity (e := "quot;".toList) (by decide)
  case h_7 => exact escaped_entity (e := "apos;".toList) (by decide)
  case h_8 => exact escaped_entity (e := "amp;".toList) (by decide)
  all_goals exact escaped_of_all (by decide)

def within : List ℕ := [2, 3, 4, 5, 6, 7, 8]

def lower : ℕ → ℕ
  | 2 => 2
  | 3 | 5 | 7 | 8 => 1
  | _ => 0

def width : ℕ → ℕ
  | 2 => 15
  | 3 => 9
  | 5 => 4
  | 7 | 8 => 3
  | _ => 0

structure Within (d : Decoder) : Prop where
  state_mem : d.state ∈ within
  lower_le : lower d.state ≤ d.codePoint
  lt_width : d.codePoint < 2 ^ width d.state

def next (state byte : ℕ) : ℕ := utf8d.getD (256 + state * 16 + utf8d.getD byte 0) 0

def classOf (byte : ℕ) : ℕ :=
  if byte < 0x80 then 0
  else if byte < 0x90 then 1
  else if byte < 0xA0 then 9
  else if byte < 0xC0 then 7
  else if byte < 0xC2 then 8
  else if byte < 0xE0 then 2
  else if byte = 0xE0 then 10
  else if byte = 0xED then 4
  else if byte < 0xF0 then 3
  else if byte = 0xF0 then 11
  else if byte < 0xF4 then 6
  else if byte = 0xF4 then 5
  else 8

/-- The transitions, a row for each state. -/
def rows : List ℕ := [
    0, 1, 2, 3, 5, 8, 7, 1, 1, 1, 4, 6, 1, 1, 1, 1,
    1, 1, 1, 1, 1, 1, 1, 1, 1, 1, 1, 1, 1, 1, 1, 1,
    1, 0, 1, 1, 1, 1, 1, 0, 1, 0, 1, 1, 1, 1, 1, 1,
    1, 2, 1, 1, 1, 1, 1, 2, 1, 2, 1, 1, 1, 1, 1, 1,
    1, 1, 1, 1, 1, 1, 1, 2, 1, 1, 1, 1, 1, 1, 1, 1,
    1, 2, 1, 1, 1, 1, 1, 1, 1, 2, 1, 1, 1, 1, 1, 1,
    1, 1, 1, 1, 1, 1, 1, 3, 1, 3, 1, 1, 1, 1, 1, 1,
    1, 3, 1, 1, 1, 1, 1, 3, 1, 3, 1, 1, 1, 1, 1, 1,
    1, 3, 1, 1, 1, 1, 1, 1, 1, 1, 1, 1, 1, 1, 1, 1]

theorem utf8d_eq : utf8d = (List.range 256).map classOf ++ rows := by decide +kernel

theorem class_eq {byte : ℕ} (h : byte < 256) : utf8d.getD byte 0 = classOf byte := by
  have hlen : byte < ((List.range 256).map classOf).length := by
    rwa [List.length_map, List.length_range]
  rw [utf8d_eq, List.getD_append _ _ _ _ hlen, List.getD_eq_getElem _ _ hlen, List.getElem_map,
    List.getElem_range]

theorem row_eq (i : ℕ) : utf8d.getD (256 + i) 0 = rows.getD i 0 := by
  have hlen : ((List.range 256).map classOf).length = 256 := by
    rw [List.length_map, List.length_range]
  rw [utf8d_eq, List.getD_append_right _ _ _ _ (by omega), hlen, Nat.add_sub_cancel_left]

theorem next_eq (state : ℕ) {byte : ℕ} (h : byte < 256) :
    next state byte = rows.getD (state * 16 + classOf byte) 0 := by
  rw [next, class_eq h, Nat.add_assoc, row_eq]

theorem class_bounds : ∀ byte < 256, classOf byte < 12 ∧
    (classOf byte = 7 → 32 ≤ byte &&& 0x3f) ∧ (classOf byte = 9 → 16 ≤ byte &&& 0x3f) := by
  decide +kernel

theorem row_within : ∀ state ∈ within, ∀ type < 12,
    let state' := rows.getD (state * 16 + type) 0
    state' = utf8Reject ∨ (state' = utf8Accept ∧ state = 2) ∨
      (state' ∈ within ∧ width state + 6 ≤ width state' ∧ (lower state' ≤ 64 * lower state ∨
        (type = 7 ∧ lower state' ≤ 32) ∨ (type = 9 ∧ lower state' ≤ 16))) := by
  decide +kernel

theorem next_within {state : ℕ} (hstate : state ∈ within) {byte : ℕ} (hbyte : byte < 256) :
    next state byte = utf8Reject ∨ (next state byte = utf8Accept ∧ state = 2) ∨
      (next state byte ∈ within ∧
        lower (next state byte) ≤ max (64 * lower state) (byte &&& 0x3f) ∧
          width state + 6 ≤ width (next state byte)) := by
  obtain ⟨htype, hseven, hnine⟩ := class_bounds byte hbyte
  rw [next_eq state hbyte]
  refine (row_within state hstate _ htype).imp_right (Or.imp_right fun h => ?_)
  obtain ⟨hmem, hwidth, hlower⟩ := h
  refine ⟨hmem, ?_, hwidth⟩
  rcases hlower with hlower | ⟨h7, hlower⟩ | ⟨h9, hlower⟩
  · exact hlower.trans (le_max_left _ _)
  · exact (hlower.trans (hseven h7)).trans (le_max_right _ _)
  · exact (hlower.trans (hnine h9)).trans (le_max_right _ _)

theorem next_start : ∀ byte < 256, next utf8Accept byte = utf8Reject ∨
    (next utf8Accept byte = utf8Accept ∧ (0xff >>> utf8d.getD byte 0) &&& byte = byte) ∨
      (next utf8Accept byte ∈ within ∧
        lower (next utf8Accept byte) ≤ (0xff >>> utf8d.getD byte 0) &&& byte ∧
          (0xff >>> utf8d.getD byte 0) &&& byte < 2 ^ width (next utf8Accept byte)) := by
  intro byte hbyte
  rw [next_eq utf8Accept hbyte, class_eq hbyte]
  revert byte
  decide +kernel

theorem codePoint_bounds {codePoint n : ℕ} (h : codePoint < 2 ^ n) (hn : n ≤ 15) (byte : ℕ) :
    let codePoint' := (byte &&& 0x3f) ||| (codePoint <<< 6 % 2 ^ 32)
    64 * codePoint ≤ codePoint' ∧ byte &&& 0x3f ≤ codePoint' ∧ codePoint' < 2 ^ (n + 6) := by
  intro codePoint'
  have hshift : codePoint <<< 6 % 2 ^ 32 = 64 * codePoint := by
    have hle : 2 ^ n ≤ 2 ^ 15 := Nat.pow_le_pow_right (by decide) hn
    rw [Nat.shiftLeft_eq, Nat.mod_eq_of_lt (by omega), Nat.mul_comm]
  have hsix : byte &&& 0x3f < 2 ^ (n + 6) :=
    (Nat.and_le_right.trans_lt (by decide : 0x3f < 2 ^ 6)).trans_le
      (Nat.pow_le_pow_right (by decide) (Nat.le_add_left 6 n))
  have hhigh : 64 * codePoint < 2 ^ (n + 6) := by
    rw [Nat.pow_add]
    omega
  refine ⟨?_, Nat.left_le_or, ?_⟩
  · rw [← hshift]
    exact Nat.right_le_or
  · exact Nat.or_lt_two_pow hsix (hshift ▸ hhigh)

theorem decode_lead (codePoint : ℕ) (byte : UInt8) : decode ⟨utf8Accept, codePoint⟩ byte =
    ⟨next utf8Accept byte.toNat, (0xff >>> utf8d.getD byte.toNat 0) &&& byte.toNat⟩ := rfl

theorem decode_within {d : Decoder} (h : d.state ∈ within) (byte : UInt8) : decode d byte =
    ⟨next d.state byte.toNat, (byte.toNat &&& 0x3f) ||| (d.codePoint <<< 6 % 2 ^ 32)⟩ := by
  have hall : ∀ state ∈ within, state ≤ 8 ∧ state ≠ utf8Accept := by decide
  obtain ⟨hle, hne⟩ := hall d.state h
  rw [decode, if_neg (not_lt.2 hle)]
  dsimp only
  rw [if_pos hne]
  rfl

theorem decode_spec {d : Decoder} (h : d.state = utf8Accept ∨ Within d) (byte : UInt8) :
    (decode d byte).state = utf8Reject ∨
      ((decode d byte).state = utf8Accept ∧ Single (decode d byte).codePoint byte) ∨
        Within (decode d byte) := by
  have hbyte : byte.toNat < 256 := byte.toNat_lt
  rcases h with h | h
  · have hdecode := decode_lead d.codePoint byte
    rw [← h] at hdecode
    rw [hdecode, h]
    rcases next_start byte.toNat hbyte with hn | ⟨hn, heq⟩ | ⟨hmem, hlow, hhigh⟩
    · exact .inl hn
    · exact .inr (.inl ⟨hn, fun _ => heq⟩)
    · exact .inr (.inr ⟨hmem, hlow, hhigh⟩)
  · have hwidth : ∀ state ∈ within, width state ≤ 15 := by decide
    have hdecode := decode_within h.state_mem byte
    obtain ⟨hlow, hsix, hhigh⟩ :=
      codePoint_bounds h.lt_width (hwidth d.state h.state_mem) byte.toNat
    have hlower := h.lower_le
    rw [hdecode]
    rcases next_within h.state_mem hbyte with hn | ⟨hn, htwo⟩ | ⟨hmem, hl, hw⟩
    · exact .inl hn
    · refine .inr (.inl ⟨hn, fun hlt => ?_⟩)
      have htwo' : 2 ≤ d.codePoint := by
        rw [htwo] at hlower
        exact hlower
      dsimp only at hlt
      omega
    · refine .inr (.inr ⟨hmem, ?_, hhigh.trans_le (Nat.pow_le_pow_right (by decide) hw)⟩)
      dsimp only
      omega

theorem escaped_pieces {d : Decoder} (h : d.state = utf8Accept ∨ Within d) (str : List UInt8) :
    ∀ p ∈ pieces d str, Escaped p.escape.text := by
  fun_induction pieces d str with
  | case1 => simp
  | case2 d byte rest d' haccept ih =>
    refine List.forall_mem_cons.2 ⟨?_, ih (.inl haccept)⟩
    rcases decode_spec h byte with hs | ⟨-, hsingle⟩ | hs
    · exact absurd (haccept.symm.trans hs) (by decide)
    · exact escaped_escapeOf hsingle
    · have hmem := hs.state_mem
      rw [show (decode d byte).state = utf8Accept from haccept] at hmem
      exact absurd hmem (by decide)
  | case3 d byte rest d' haccept hreject hstate ih =>
    exact List.forall_mem_cons.2 ⟨escaped_replacement, ih (.inl rfl)⟩
  | case4 d byte rest d' haccept hreject hstate ih =>
    exact List.forall_mem_cons.2 ⟨escaped_replacement, ih (.inl rfl)⟩
  | case5 d byte rest d' haccept hreject ih =>
    refine ih (.inr ?_)
    rcases decode_spec h byte with hs | ⟨hs, -⟩ | hs
    · exact (hreject hs).elim
    · exact (haccept hs).elim
    · exact hs

/-- What has been appended or waits in the buffer. -/
def written (w : Writer) : Text := w.out ++ w.stringBuffer.take w.bytes

theorem put_written {w w' : Writer} {c : Char} (h : w.put c = some w') :
    written w' = written w ++ [c] ∧ w'.bytes = w.bytes + 1 ∧
      w'.bytes ≤ w'.stringBuffer.length := by
  obtain ⟨hlt, heq⟩ := Option.ite_none_right_eq_some.1 h
  obtain rfl := Option.some.inj heq
  refine ⟨?_, rfl, ?_⟩
  · rw [written, written, List.append_assoc, List.take_add_one, List.getElem?_set_self hlt,
      List.take_set_of_le (le_refl _)]
    rfl
  · rw [List.length_set]
    exact hlt

theorem putAll_written {w w' : Writer} {text : Text} (hle : w.bytes ≤ w.stringBuffer.length)
    (h : w.putAll text = some w') : written w' = written w ++ text ∧
      w'.bytes = w.bytes + text.length ∧ w'.bytes ≤ w'.stringBuffer.length := by
  induction text generalizing w with
  | nil =>
    obtain rfl := Option.some.inj h
    simpa using hle
  | cons c text ih =>
    rw [Writer.putAll, List.foldlM_cons] at h
    obtain ⟨u, hput, hputs⟩ := Option.bind_eq_some_iff.1 h
    obtain ⟨hwritten, hbytes, hle'⟩ := put_written hput
    obtain ⟨hwritten', hbytes', hle''⟩ := ih hle' hputs
    refine ⟨?_, ?_, hle''⟩
    · rw [hwritten', hwritten, List.append_assoc]
      rfl
    · rw [hbytes', hbytes, List.length_cons]
      omega

theorem write_written {w w' : Writer} {e : Escape} (hle : w.bytes ≤ w.stringBuffer.length)
    (h : w.write e = some w') :
    written w' = written w ++ e.text ∧ w'.bytes ≤ w'.stringBuffer.length := by
  cases e with
  | chars text =>
    obtain ⟨hwritten, -, hle'⟩ := putAll_written hle h
    exact ⟨hwritten, hle'⟩
  | formatted text =>
    obtain ⟨u, hput, hu⟩ := Option.bind_eq_some_iff.1 h
    obtain rfl := Option.some.inj hu
    obtain ⟨hwritten, hbytes, hle'⟩ := putAll_written hle hput
    rw [List.length_append, List.length_singleton] at hbytes
    have hlast : u.bytes = w.bytes + text.length + 1 := hbytes
    have hlen : (u.stringBuffer.take (w.bytes + text.length)).length = w.bytes + text.length := by
      rw [List.length_take]
      omega
    refine ⟨?_, ?_⟩
    · have hsplit := hwritten
      rw [written, hlast, List.take_add_one, ← List.append_assoc, ← List.append_assoc] at hsplit
      have hpos : w.bytes + text.length < u.stringBuffer.length := by omega
      rw [List.getElem?_eq_getElem hpos, Option.toList_some] at hsplit
      exact (List.append_inj_left' hsplit rfl)
    · dsimp only
      omega

theorem flush_written {w w' : Writer} (h : w.flush = some w') :
    written w' = written w ∧ w'.bytes ≤ w'.stringBuffer.length := by
  unfold Writer.flush at h
  split_ifs at h with hover hfull
  · obtain rfl := Option.some.inj h
    exact ⟨by simp [written], Nat.zero_le _⟩
  · obtain rfl := Option.some.inj h
    exact ⟨rfl, not_lt.1 hover⟩

theorem emit_written {w w' : Writer} {p : Piece} (hle : w.bytes ≤ w.stringBuffer.length)
    (h : emit w p = some w') :
    written w' = written w ++ p.escape.text ∧ w'.bytes ≤ w'.stringBuffer.length := by
  cases p with
  | wellFormed codePoint byte =>
    obtain ⟨u, hwrite, hflush⟩ := Option.bind_eq_some_iff.1 h
    obtain ⟨hwritten, -⟩ := write_written hle hwrite
    obtain ⟨hwritten', hle'⟩ := flush_written hflush
    exact ⟨hwritten'.trans hwritten, hle'⟩
  | illFormed => exact write_written (e := .chars replacement) hle h

theorem emitAll_written {w w' : Writer} {ps : List Piece} (hle : w.bytes ≤ w.stringBuffer.length)
    (h : ps.foldlM emit w = some w') :
    written w' = written w ++ ps.flatMap fun p => p.escape.text := by
  induction ps generalizing w with
  | nil =>
    obtain rfl := Option.some.inj h
    rw [List.flatMap_nil, List.append_nil]
  | cons p ps ih =>
    rw [List.foldlM_cons] at h
    obtain ⟨u, hemit, hrest⟩ := Option.bind_eq_some_iff.1 h
    obtain ⟨hwritten, hle'⟩ := emit_written hle hemit
    rw [ih hle' hrest, hwritten, List.flatMap_cons, List.append_assoc]

theorem between_dumpLoop {d d' : Dump} (h : Between d) {str : List UInt8}
    (hloop : dumpLoop d str = some d') : Between d' := by
  fun_induction dumpLoop d str with
  | case1 d =>
    obtain rfl := Option.some.inj hloop
    exact h
  | case2 | case3 | case5 => cases hloop
  | case4 d byte rest decoder haccept writer hwrite writer' hflush ih =>
    exact ih ⟨rfl, by simp [haccept]⟩ hloop
  | case6 d byte rest decoder haccept hreject writer hput d' hundumped ih =>
    exact ih ⟨rfl, by simp [d']⟩ hloop
  | case7 d byte rest decoder haccept hreject writer hput d' hundumped ih =>
    exact ih ⟨rfl, by simp [d']⟩ hloop
  | case8 d byte rest decoder haccept hreject ih =>
    exact ih ⟨h.bytes_eq, by simpa using haccept⟩ hloop

theorem escaped_flatMap {ps : List Piece} (h : ∀ p ∈ ps, Escaped p.escape.text) :
    Escaped (ps.flatMap fun p => p.escape.text) := by
  induction ps with
  | nil => exact escaped_nil
  | cons p ps ih =>
    obtain ⟨hp, hps⟩ := List.forall_mem_cons.1 h
    rw [List.flatMap_cons]
    exact hp.append (ih hps)

theorem escaped_dumpEscapedSized {size : ℕ} {out text : Text} {str : List UInt8}
    (h : dumpEscapedSized size out str = some text) : ∃ esc, text = out ++ esc ∧ Escaped esc := by
  obtain ⟨d, hloop, hend⟩ := Option.bind_eq_some_iff.1 h
  have hstart : Between { writer := { stringBuffer := List.replicate size '\x00', out } } :=
    ⟨rfl, by simp⟩
  have hbytes := (between_dumpLoop hstart hloop).bytes_eq
  have hemit := dumpLoop_eq_emit hstart str
  rw [hloop, Option.map_some] at hemit
  have hwritten : written d.writer = out ++ (pieces {} str).flatMap fun p => p.escape.text := by
    rw [emitAll_written (Nat.zero_le _) hemit.symm]
    simp [written]
  have hpieces := escaped_flatMap (escaped_pieces (d := {}) (.inl rfl) str)
  split_ifs at hend with haccept hpos
  · obtain rfl := Option.some.inj hend
    exact ⟨_, hwritten, hpieces⟩
  · obtain rfl := Option.some.inj hend
    refine ⟨_, ?_, hpieces⟩
    rw [← hwritten, written, Nat.eq_zero_of_not_pos hpos, List.take_zero, List.append_nil]
  · obtain rfl := Option.some.inj hend
    refine ⟨_, ?_, hpieces.append escaped_replacement⟩
    rw [hbytes, ← List.append_assoc, ← hwritten, written]

theorem room_escape_le (p : Piece) : Escape.room p.escape ≤ 13 := by
  cases p with
  | wellFormed codePoint byte => exact room_escapeOf_le codePoint byte
  | illFormed => decide

theorem emit_room {w : Writer} (p : Piece) (h : w.bytes + 13 ≤ w.stringBuffer.length) :
    ∃ w', emit w p = some w' ∧ w'.bytes ≤ w.bytes + 13 ∧
      w'.stringBuffer.length = w.stringBuffer.length := by
  have hroom := room_escape_le p
  have htext := room_ge p.escape
  obtain ⟨u, hwrite, hbytes, hlen⟩ := write_some (w := w) (e := p.escape) (by omega)
  cases p with
  | illFormed => exact ⟨u, hwrite, by omega, hlen⟩
  | wellFormed codePoint byte =>
    rw [emit_wellFormed hwrite, Writer.flush, if_neg (by omega)]
    split_ifs
    · exact ⟨_, rfl, Nat.zero_le _, hlen⟩
    · exact ⟨_, rfl, by omega, hlen⟩

theorem emitAll_room {w : Writer} {ps : List Piece}
    (h : w.bytes + 13 * ps.length ≤ w.stringBuffer.length) : (ps.foldlM emit w).isSome := by
  induction ps generalizing w with
  | nil => rfl
  | cons p ps ih =>
    rw [List.length_cons] at h
    obtain ⟨w', hemit, hbytes, hlen⟩ := emit_room (w := w) p (by omega)
    rw [List.foldlM_cons, hemit]
    exact ih (by omega)

theorem length_pieces_le (d : Decoder) (str : List UInt8) : (pieces d str).length ≤
    2 * str.length + if d.state = utf8Accept then 0 else 1 := by
  fun_induction pieces d str with
  | case1 => exact Nat.zero_le _
  | case2 d byte rest d' haccept ih =>
    rw [if_pos haccept] at ih
    simp only [List.length_cons]
    omega
  | case3 d byte rest d' haccept hreject hstate ih =>
    simp only [List.length_cons, if_true] at ih ⊢
    omega
  | case4 d byte rest d' haccept hreject hstate ih =>
    rw [if_neg hstate]
    simp only [List.length_cons, if_true] at ih ⊢
    omega
  | case5 d byte rest d' haccept hreject ih =>
    rw [if_neg haccept] at ih
    simp only [List.length_cons]
    omega

theorem dumpEscapedSized_isSome {size : ℕ} {str : List UInt8} (h : 26 * str.length ≤ size)
    (out : Text) : (dumpEscapedSized size out str).isSome := by
  have hstart : Between { writer := { stringBuffer := List.replicate size '\x00', out } } :=
    ⟨rfl, by simp⟩
  have hlen := length_pieces_le {} str
  simp only [if_true, Nat.add_zero] at hlen
  have hsome : (dumpLoop { writer := { stringBuffer := List.replicate size '\x00', out } }
      str).isSome := by
    rw [← Option.isSome_map, dumpLoop_eq_emit hstart]
    refine emitAll_room ?_
    rw [List.length_replicate]
    dsimp only
    omega
  obtain ⟨d, hd⟩ := Option.isSome_iff_exists.1 hsome
  unfold dumpEscapedSized
  rw [hd]
  simp only [Option.bind_eq_bind, Option.bind_some]
  split_ifs <;> rfl

end CrowCore.EscapedText
