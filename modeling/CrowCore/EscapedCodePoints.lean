import CrowCore.EscapedText

set_option autoImplicit false

/-!
# The escapes of a text

Each code point of a well-formed string is decoded from its own bytes, and its escape
is written without a look at the others. So the output is the escapes in a row,
wherever the buffer is flushed.
-/
namespace CrowCore.EscapedCodePoints
open JsonHtmlSerializer EscapeBuffer EscapedText

def utf8 (text : Text) : List UInt8 := text.flatMap String.utf8EncodeChar

def shortEscapes : List (ℕ × String) :=
  [(0x08, "\\b"), (0x09, "\\t"), (0x0A, "\\n"), (0x0C, "\\f"), (0x0D, "\\r"), (0x22, "&quot;"),
    (0x27, "&apos;"), (0x26, "&amp;"), (0x3C, "\\lt;"), (0x3E, "\\gt;")]

def surrogates (codePoint : ℕ) : ℕ × ℕ :=
  (0xD800 + (codePoint - 0x10000) / 0x400, 0xDC00 + (codePoint - 0x10000) % 0x400)

def escapeText (ch : Char) : Text :=
  match shortEscapes.lookup ch.toNat with
  | some text => text.toList
  | none =>
    if 0x20 ≤ ch.toNat ∧ ch.toNat ≤ 0x7E then [ch]
    else if ch.toNat ≤ 0xFFFF then unicodeEscape ch.toNat
    else unicodeEscape (surrogates ch.toNat).1 ++ unicodeEscape (surrogates ch.toNat).2

/-- The bytes lead from `d` to this code point, and only the last one of them. -/
def Decodes (codePoint : ℕ) : Decoder → List UInt8 → Prop
  | _, [] => False
  | d, [byte] => decode d byte = ⟨utf8Accept, codePoint⟩
  | d, byte :: bytes =>
    (decode d byte).state ≠ utf8Accept ∧ (decode d byte).state ≠ utf8Reject ∧
      Decodes codePoint (decode d byte) bytes

/-- What the first byte of a sequence of one, two, three and four bytes leads to. -/
theorem lead_bytes : ∀ b < 256,
    (b < 0x80 → next utf8Accept b = utf8Accept ∧ (0xff >>> utf8d.getD b 0) &&& b = b) ∧
    (0xC2 ≤ b ∧ b ≤ 0xDF → next utf8Accept b = 2 ∧ (0xff >>> utf8d.getD b 0) &&& b = b % 32) ∧
    (0xE0 ≤ b ∧ b ≤ 0xEF →
      next utf8Accept b = (if b = 0xE0 then 4 else if b = 0xED then 5 else 3) ∧
        (0xff >>> utf8d.getD b 0) &&& b = b % 16) ∧
    (0xF0 ≤ b ∧ b ≤ 0xF4 →
      next utf8Accept b = (if b = 0xF0 then 6 else if b = 0xF4 then 8 else 7) ∧
        (0xff >>> utf8d.getD b 0) &&& b = b % 8) := by
  intro b hb
  rw [next_eq utf8Accept hb, class_eq hb]
  revert b
  decide +kernel

theorem continuation : ∀ b < 256, 0x80 ≤ b ∧ b ≤ 0xBF →
    next 2 b = utf8Accept ∧ (next 3 b = 2 ∧ (0xA0 ≤ b → next 4 b = 2) ∧ (b ≤ 0x9F → next 5 b = 2)) ∧
      next 7 b = 3 ∧ (0x90 ≤ b → next 6 b = 3) ∧ (b ≤ 0x8F → next 8 b = 3) := by
  intro b hb
  simp only [next_eq _ hb]
  revert b
  decide +kernel

theorem decode_continuation {state codePoint : ℕ} (hstate : state ∈ within)
    (hlt : codePoint < 2 ^ 26) (byte : UInt8) : decode ⟨state, codePoint⟩ byte =
      ⟨next state byte.toNat, codePoint * 64 + byte.toNat % 64⟩ := by
  have hsix : byte.toNat &&& 0x3f = byte.toNat % 64 := Nat.and_two_pow_sub_one_eq_mod _ 6
  have hshift : codePoint <<< 6 % 2 ^ 32 = codePoint <<< 6 := by
    rw [Nat.shiftLeft_eq]
    exact Nat.mod_eq_of_lt (by omega)
  rw [decode_within hstate, hsix, hshift, Nat.or_comm,
    ← Nat.shiftLeft_add_eq_or_of_lt (Nat.mod_lt _ (by decide)), Nat.shiftLeft_eq]

theorem toNat_ofNat {n : ℕ} (h : n < 256) : (UInt8.ofNat n).toNat = n := by
  rw [UInt8.toNat_ofNat', Nat.mod_eq_of_lt h]

theorem decodes_one {n : ℕ} (hn : n < 0x80) (codePoint : ℕ) :
    Decodes n ⟨utf8Accept, codePoint⟩ [UInt8.ofNat n] := by
  obtain ⟨hnext, hvalue⟩ := (lead_bytes n (by omega)).1 hn
  rw [Decodes, decode_lead, toNat_ofNat (by omega), hnext, hvalue]

theorem decodes_cons {n state codePoint : ℕ} {d : Decoder} {byte byte' : UInt8}
    {bytes : List UInt8} (hdecode : decode d byte = ⟨state, codePoint⟩) (hstate : state ∈ within)
    (hrest : Decodes n ⟨state, codePoint⟩ (byte' :: bytes)) :
    Decodes n d (byte :: byte' :: bytes) := by
  have hall : ∀ state ∈ within, state ≠ utf8Accept ∧ state ≠ utf8Reject := by decide
  rw [Decodes, hdecode]
  · exact ⟨(hall state hstate).1, (hall state hstate).2, hrest⟩
  · simp

theorem decode_six_bits {state state' n : ℕ} (hstate : state ∈ within) (hn : n < 2 ^ 32)
    (hnext : next state (n % 0x40 + 0x80) = state') :
    decode ⟨state, n / 64⟩ (UInt8.ofNat (n % 0x40 + 0x80)) = ⟨state', n⟩ := by
  have hvalue : n / 64 * 64 + (n % 0x40 + 0x80) % 64 = n := by omega
  rw [decode_continuation hstate (by omega), toNat_ofNat (by omega), hnext, hvalue]

theorem decodes_last {n : ℕ} (hn : n < 2 ^ 32) :
    Decodes n ⟨2, n / 64⟩ [UInt8.ofNat (n % 0x40 + 0x80)] := by
  obtain ⟨hnext, -⟩ := continuation (n % 0x40 + 0x80) (by omega) (by omega)
  exact decode_six_bits (by decide) hn hnext

theorem decodes_last_two {n state : ℕ} (hn : n < 2 ^ 32) (hstate : state ∈ within)
    (hnext : next state (n / 64 % 0x40 + 0x80) = 2) : Decodes n ⟨state, n / 64 / 64⟩
      [UInt8.ofNat (n / 64 % 0x40 + 0x80), UInt8.ofNat (n % 0x40 + 0x80)] :=
  decodes_cons (decode_six_bits hstate (by omega) hnext) (by decide) (decodes_last hn)

theorem decodes_last_three {n state : ℕ} (hn : n < 2 ^ 32) (hstate : state ∈ within)
    (hnext : next state (n / 64 / 64 % 0x40 + 0x80) = 3) : Decodes n ⟨state, n / 64 / 64 / 64⟩
      [UInt8.ofNat (n / 64 / 64 % 0x40 + 0x80), UInt8.ofNat (n / 64 % 0x40 + 0x80),
        UInt8.ofNat (n % 0x40 + 0x80)] := by
  obtain ⟨-, ⟨hthree, -⟩, -⟩ := continuation (n / 64 % 0x40 + 0x80) (by omega) (by omega)
  exact decodes_cons (decode_six_bits hstate (by omega) hnext) (by decide)
    (decodes_last_two hn (by decide) hthree)

theorem decodes_two {n : ℕ} (hn : 0x80 ≤ n ∧ n < 0x800) (codePoint : ℕ) :
    Decodes n ⟨utf8Accept, codePoint⟩
      [UInt8.ofNat (n / 64 % 0x20 + 0xc0), UInt8.ofNat (n % 0x40 + 0x80)] := by
  obtain ⟨hlead, hvalue⟩ := (lead_bytes (n / 64 % 0x20 + 0xc0) (by omega)).2.1 (by omega)
  have hdecode : decode ⟨utf8Accept, codePoint⟩ (UInt8.ofNat (n / 64 % 0x20 + 0xc0)) =
      ⟨2, n / 64⟩ := by
    have hbits : (n / 64 % 0x20 + 0xc0) % 32 = n / 64 := by omega
    rw [decode_lead, toNat_ofNat (by omega), hlead, hvalue, hbits]
  exact decodes_cons hdecode (by decide) (decodes_last (by omega))

theorem decodes_three {n : ℕ} (hn : 0x800 ≤ n ∧ n < 0x10000) (hscalar : n < 0xD800 ∨ 0xDFFF < n)
    (codePoint : ℕ) : Decodes n ⟨utf8Accept, codePoint⟩ [UInt8.ofNat (n / 4096 % 0x10 + 0xe0),
      UInt8.ofNat (n / 64 % 0x40 + 0x80), UInt8.ofNat (n % 0x40 + 0x80)] := by
  obtain ⟨hlead, hvalue⟩ := (lead_bytes (n / 4096 % 0x10 + 0xe0) (by omega)).2.2.1 (by omega)
  obtain ⟨-, ⟨hthree, hfour, hfive⟩, -⟩ := continuation (n / 64 % 0x40 + 0x80) (by omega) (by omega)
  obtain ⟨state, hstate, hnext, hsecond⟩ : ∃ state ∈ within,
      next utf8Accept (n / 4096 % 0x10 + 0xe0) = state ∧
        next state (n / 64 % 0x40 + 0x80) = 2 := by
    rw [hlead]
    split_ifs with hE0 hED
    · exact ⟨4, by decide, rfl, hfour (by omega)⟩
    · exact ⟨5, by decide, rfl, hfive (by omega)⟩
    · exact ⟨3, by decide, rfl, hthree⟩
  have hbits : (n / 4096 % 0x10 + 0xe0) % 16 = n / 64 / 64 := by omega
  refine decodes_cons ?_ hstate (decodes_last_two (by omega) hstate hsecond)
  rw [decode_lead, toNat_ofNat (by omega), hnext, hvalue, hbits]

theorem decodes_four {n : ℕ} (hn : 0x10000 ≤ n ∧ n < 0x110000) (codePoint : ℕ) :
    Decodes n ⟨utf8Accept, codePoint⟩ [UInt8.ofNat (n / 262144 % 0x08 + 0xf0),
      UInt8.ofNat (n / 4096 % 0x40 + 0x80), UInt8.ofNat (n / 64 % 0x40 + 0x80),
      UInt8.ofNat (n % 0x40 + 0x80)] := by
  obtain ⟨hlead, hvalue⟩ := (lead_bytes (n / 262144 % 0x08 + 0xf0) (by omega)).2.2.2 (by omega)
  obtain ⟨-, -, hseven, hsix, height⟩ :=
    continuation (n / 64 / 64 % 0x40 + 0x80) (by omega) (by omega)
  obtain ⟨state, hstate, hnext, hsecond⟩ : ∃ state ∈ within,
      next utf8Accept (n / 262144 % 0x08 + 0xf0) = state ∧
        next state (n / 64 / 64 % 0x40 + 0x80) = 3 := by
    rw [hlead]
    split_ifs with hF0 hF4
    · exact ⟨6, by decide, rfl, hsix (by omega)⟩
    · exact ⟨8, by decide, rfl, height (by omega)⟩
    · exact ⟨7, by decide, rfl, hseven⟩
  have hdiv : n / 4096 = n / 64 / 64 := by omega
  have hbits : (n / 262144 % 0x08 + 0xf0) % 8 = n / 64 / 64 / 64 := by omega
  rw [hdiv]
  refine decodes_cons ?_ hstate (decodes_last_three (by omega) hstate hsecond)
  rw [decode_lead, toNat_ofNat (by omega), hnext, hvalue, hbits]

theorem decodes_utf8EncodeChar (ch : Char) (codePoint : ℕ) :
    Decodes ch.toNat ⟨utf8Accept, codePoint⟩ (String.utf8EncodeChar ch) := by
  have hvalid : ch.toNat < 0xD800 ∨ 0xDFFF < ch.toNat ∧ ch.toNat < 0x110000 := ch.valid
  unfold String.utf8EncodeChar
  change Decodes ch.toNat _ (if ch.toNat ≤ 0x7f then _ else if ch.toNat ≤ 0x7ff then _
    else if ch.toNat ≤ 0xffff then _ else _)
  split_ifs with hone htwo hthree
  · exact decodes_one (by omega) codePoint
  · exact decodes_two (by omega) codePoint
  · exact decodes_three (by omega) (by omega) codePoint
  · exact decodes_four (by omega) codePoint

def lastByte (ch : Char) : UInt8 :=
  (String.utf8EncodeChar ch).getLast String.utf8EncodeChar_ne_nil

def textPiece (ch : Char) : Piece := .wellFormed ch.toNat (lastByte ch)

def behind (codePoint : ℕ) (writer : Writer) : Dump :=
  { decoder := { codePoint }, writer, bytesAfterLastAccept := writer.bytes }

theorem dumpLoop_decodes {n : ℕ} {d : Dump} {bytes : List UInt8} (hne : bytes ≠ [])
    (h : Decodes n d.decoder bytes) (rest : List UInt8) : dumpLoop d (bytes ++ rest) =
      (emit d.writer (.wellFormed n (bytes.getLast hne))).bind fun writer =>
        dumpLoop (behind n writer) rest := by
  induction bytes generalizing d with
  | nil => exact (hne rfl).elim
  | cons byte bytes ih =>
    cases bytes with
    | nil =>
      have hdecode : decode d.decoder byte = ⟨utf8Accept, n⟩ := h
      rw [List.cons_append, List.nil_append, dumpLoop, hdecode, emit]
      dsimp only [List.getLast_singleton]
      rw [if_pos rfl]
      cases d.writer.write (escapeOf n byte) with
      | none => rfl
      | some writer =>
        rw [Option.bind_some]
        dsimp only
        cases writer.flush <;> rfl
    | cons byte' bytes =>
      obtain ⟨haccept, hreject, hrest⟩ := h
      rw [List.cons_append, dumpLoop]
      dsimp only
      rw [if_neg haccept, if_neg hreject]
      exact ih (List.cons_ne_nil _ _) hrest

theorem dumpLoop_utf8 (text : Text) (codePoint : ℕ) (writer : Writer) :
    ∃ codePoint', dumpLoop (behind codePoint writer) (utf8 text) =
      ((text.map textPiece).foldlM emit writer).map (behind codePoint') := by
  induction text generalizing codePoint writer with
  | nil => exact ⟨codePoint, by simp [utf8, dumpLoop]⟩
  | cons ch text ih =>
    have hstep := dumpLoop_decodes (d := behind codePoint writer) String.utf8EncodeChar_ne_nil
      (decodes_utf8EncodeChar ch codePoint) (utf8 text)
    rw [utf8, List.flatMap_cons, ← utf8, hstep, List.map_cons, List.foldlM_cons]
    change ∃ codePoint', (emit writer (textPiece ch)).bind _ = _
    cases emit writer (textPiece ch) with
    | none => exact ⟨0, rfl⟩
    | some writer => exact ih ch.toNat writer

theorem lastByte_of_lt {ch : Char} (h : ch.toNat < 0x80) : (lastByte ch).toNat = ch.toNat := by
  have hbytes : String.utf8EncodeChar ch = [UInt8.ofNat ch.toNat] := by
    unfold String.utf8EncodeChar
    exact if_pos (Nat.le_of_lt_succ h)
  have hlast : lastByte ch = UInt8.ofNat ch.toNat := by
    unfold lastByte
    simp only [hbytes, List.getLast_singleton]
  rw [hlast, toNat_ofNat (by omega)]

theorem surrogates_eq {n : ℕ} (hn : 0xFFFF < n ∧ n < 0x110000) :
    ((0xD7C0 + n >>> 10) % 2 ^ 16, (0xDC00 + (n &&& 0x3FF)) % 2 ^ 16) = surrogates n := by
  have hlow : n &&& 0x3FF = n % 0x400 := Nat.and_two_pow_sub_one_eq_mod n 10
  have hhigh : (0xD7C0 + n / 2 ^ 10) % 2 ^ 16 = 0xD800 + (n - 0x10000) / 0x400 := by omega
  have hpair : (0xDC00 + n % 0x400) % 2 ^ 16 = 0xDC00 + (n - 0x10000) % 0x400 := by omega
  rw [hlow, Nat.shiftRight_eq_div_pow, surrogates, hhigh, hpair]

theorem escape_textPiece (ch : Char) : (textPiece ch).escape.text = escapeText ch := by
  change (escapeOf ch.toNat (lastByte ch)).text = escapeText ch
  have hvalid : ch.toNat < 0x110000 := ch.valid.elim (fun h => lt_trans h (by decide)) And.right
  unfold escapeOf escapeText
  split
  case h_11 h08 h09 h0A h0C h0D h22 h27 h26 h3C h3E =>
    have hnone : shortEscapes.lookup ch.toNat = none := by
      simp only [shortEscapes, List.lookup_eq_none_iff, List.forall_mem_cons, bne_iff_ne]
      exact ⟨h08, h09, h0A, h0C, h0D, h22, h27, h26, h3C, h3E, List.forall_mem_nil _⟩
    rw [hnone]
    dsimp only
    by_cases hprint : 0x20 ≤ ch.toNat ∧ ch.toNat ≤ 0x7E
    · rw [if_neg (by omega), if_pos hprint, Escape.text, lastByte_of_lt (by omega),
        Char.ofNat_toNat]
    · rw [if_pos (by omega), if_neg hprint]
      split_ifs with hbmp
      · rw [Escape.text, Nat.mod_eq_of_lt (by omega)]
      · rw [Escape.text, ← surrogates_eq ⟨not_le.1 hbmp, hvalid⟩]
  all_goals
    rename_i heq
    rw [heq]
    rfl

/-- `dumpEscaped` appends the escapes of the code points. -/
theorem dumpEscaped_utf8 (out text : Text) :
    dumpEscaped out (utf8 text) = some (out ++ text.flatMap escapeText) := by
  let start : Writer := { stringBuffer := List.replicate stringBufferSize '\x00', out }
  have hclosing : ∀ p ∈ text.map textPiece, packing.closing p := by
    intro p hp
    obtain ⟨ch, -, rfl⟩ := List.mem_map.1 hp
    rfl
  have hsome : ((text.map textPiece).foldlM emit start).isSome :=
    (emitAll_isSome_iff List.length_replicate (Nat.zero_le _) _).2
      (fits_of_wellFormed hclosing (Nat.zero_le _))
  obtain ⟨writer, hwriter⟩ := Option.isSome_iff_exists.1 hsome
  obtain ⟨codePoint, hloop⟩ := dumpLoop_utf8 text 0 start
  have hwritten := emitAll_written (Nat.zero_le _) hwriter
  rw [List.flatMap_map] at hwritten
  simp only [escape_textPiece] at hwritten
  rw [hwriter, Option.map_some] at hloop
  have hresult : dumpEscaped out (utf8 text) = some (written writer) := by
    unfold dumpEscaped dumpEscapedSized
    change (dumpLoop (behind 0 start) (utf8 text)).bind _ = _
    rw [hloop, Option.bind_some]
    change (if writer.bytes > 0 then _ else _) = _
    split_ifs with hpos
    · rfl
    · rw [written, Nat.eq_zero_of_not_pos hpos, List.take_zero, List.append_nil]
      rfl
  rw [hresult, hwritten]
  simp [written, start]

end CrowCore.EscapedCodePoints
