import CrowCore.BlockPacking
import CrowCore.JsonHtmlSerializer

set_option autoImplicit false

/-!
# The bounds of the escape buffer

The bytes of a string fall into pieces: code points and ill-formed sequences.
Each piece is written by itself, so that the loop stays in its buffer exactly if
the escapes of the pieces pack into blocks of 512 bytes.
-/
namespace CrowCore.EscapeBuffer
open JsonHtmlSerializer BlockPacking

/-- `byte` is the last one of the code point. -/
inductive Piece where
  | wellFormed (codePoint : ℕ) (byte : UInt8)
  | illFormed
deriving DecidableEq, Repr

/-- The pieces that `decode` cuts from the bytes. A byte that breaks a sequence
off begins the next piece. -/
def pieces (d : Decoder) (str : List UInt8) : List Piece :=
  match str with
  | [] => []
  | byte :: rest =>
    let d' := decode d byte
    if d'.state = utf8Accept then .wellFormed d'.codePoint byte :: pieces d' rest
    else if d'.state = utf8Reject then
      if d.state = utf8Accept then .illFormed :: pieces { d' with state := utf8Accept } rest
      else .illFormed :: pieces { d' with state := utf8Accept } (byte :: rest)
    else pieces d' rest
termination_by 2 * str.length + (if d.state = utf8Accept then 0 else 1)
decreasing_by
  all_goals simp only [List.length_cons]
  all_goals split_ifs <;> omega

def emit (w : Writer) : Piece → Option Writer
  | .wellFormed codePoint byte => (w.write (escapeOf codePoint byte)).bind Writer.flush
  | .illFormed => w.putAll replacement

structure Between (d : Dump) : Prop where
  bytes_eq : d.bytesAfterLastAccept = d.writer.bytes
  undumped_iff : d.undumpedChars = 0 ↔ d.decoder.state = utf8Accept

theorem dumpLoop_eq_emit {d : Dump} (h : Between d) (str : List UInt8) :
    (dumpLoop d str).map Dump.writer = (pieces d.decoder str).foldlM emit d.writer := by
  fun_induction dumpLoop d str with
  | case1 d => simp [pieces]
  | case2 d byte rest decoder haccept hwrite =>
    rw [pieces, if_pos haccept, List.foldlM_cons, emit, hwrite]
    rfl
  | case3 d byte rest decoder haccept writer hwrite hflush =>
    rw [pieces, if_pos haccept, List.foldlM_cons, emit, hwrite, Option.bind_some, hflush]
    rfl
  | case4 d byte rest decoder haccept writer hwrite writer' hflush ih =>
    rw [pieces, if_pos haccept, List.foldlM_cons, emit, hwrite, Option.bind_some, hflush]
    exact ih ⟨rfl, by simp [haccept]⟩
  | case5 d byte rest decoder haccept hreject hput =>
    rw [h.bytes_eq] at hput
    rw [pieces, if_neg haccept, if_pos hreject]
    split_ifs <;> rw [List.foldlM_cons, emit, hput] <;> rfl
  | case6 d byte rest decoder haccept hreject writer hput d' hundumped ih =>
    rw [h.bytes_eq] at hput
    have hstate : d.decoder.state ≠ utf8Accept := fun heq => by
      have := h.undumped_iff.2 heq
      omega
    rw [pieces, if_neg haccept, if_pos hreject, if_neg hstate, List.foldlM_cons, emit, hput]
    exact ih ⟨rfl, by simp [d']⟩
  | case7 d byte rest decoder haccept hreject writer hput d' hundumped ih =>
    rw [h.bytes_eq] at hput
    have hstate : d.decoder.state = utf8Accept := h.undumped_iff.1 (by omega)
    rw [pieces, if_neg haccept, if_pos hreject, if_pos hstate, List.foldlM_cons, emit, hput]
    exact ih ⟨rfl, by simp [d']⟩
  | case8 d byte rest decoder haccept hreject ih =>
    rw [pieces, if_neg haccept, if_neg hreject]
    exact ih ⟨h.bytes_eq, by simpa using haccept⟩

def Piece.escape : Piece → Escape
  | .wellFormed codePoint byte => escapeOf codePoint byte
  | .illFormed => .chars replacement

/-- The places an escape is written to, the NUL of `snprintf` included. -/
def Escape.room : Escape → ℕ
  | .chars text => text.length
  | .formatted text => text.length + 1

/-- The buffer is flushed after a code point that leaves less than 13 bytes. -/
def packing : Packing Piece where
  length p := p.escape.text.length
  room p := Escape.room p.escape
  closing
    | .wellFormed _ _ => true
    | .illFormed => false
  size := stringBufferSize
  limit := stringBufferSize - 13

theorem put_some {w : Writer} {c : Char} (h : w.bytes < w.stringBuffer.length) :
    ∃ w', w.put c = some w' ∧ w'.bytes = w.bytes + 1 ∧
      w'.stringBuffer.length = w.stringBuffer.length :=
  ⟨_, if_pos h, rfl, List.length_set⟩

theorem putAll_some {w : Writer} {text : Text}
    (h : w.bytes + text.length ≤ w.stringBuffer.length) : ∃ w', w.putAll text = some w' ∧
      w'.bytes = w.bytes + text.length ∧ w'.stringBuffer.length = w.stringBuffer.length := by
  induction text generalizing w with
  | nil => exact ⟨w, rfl, rfl, rfl⟩
  | cons c text ih =>
    rw [List.length_cons] at h ⊢
    obtain ⟨w', hput, hbytes, hlen⟩ := put_some (w := w) (c := c) (by omega)
    obtain ⟨w'', hputs, hbytes', hlen'⟩ := ih (w := w') (by omega)
    refine ⟨w'', ?_, by omega, by omega⟩
    rw [Writer.putAll, List.foldlM_cons, hput]
    exact hputs

theorem putAll_none {w : Writer} {text : Text} (hle : w.bytes ≤ w.stringBuffer.length)
    (h : w.stringBuffer.length < w.bytes + text.length) : w.putAll text = none := by
  induction text generalizing w with
  | nil => exact (not_lt.2 hle h).elim
  | cons c text ih =>
    rw [List.length_cons] at h
    rw [Writer.putAll, List.foldlM_cons]
    by_cases hlt : w.bytes < w.stringBuffer.length
    · obtain ⟨w', hput, hbytes, hlen⟩ := put_some (c := c) hlt
      rw [hput]
      exact ih (by omega) (by omega)
    · rw [Writer.put, if_neg hlt]
      rfl

theorem write_some {w : Writer} {e : Escape}
    (h : w.bytes + Escape.room e ≤ w.stringBuffer.length) : ∃ w', w.write e = some w' ∧
      w'.bytes = w.bytes + e.text.length ∧ w'.stringBuffer.length = w.stringBuffer.length := by
  cases e with
  | chars text => exact putAll_some h
  | formatted text =>
    have hroom : w.bytes + (text ++ ['\x00']).length ≤ w.stringBuffer.length := by
      simpa [Escape.room] using h
    obtain ⟨w', hw', -, hlen⟩ := putAll_some hroom
    exact ⟨{ w' with bytes := w.bytes + text.length }, by rw [Writer.write, hw']; rfl, rfl, hlen⟩

theorem write_none {w : Writer} {e : Escape} (hle : w.bytes ≤ w.stringBuffer.length)
    (h : w.stringBuffer.length < w.bytes + Escape.room e) : w.write e = none := by
  cases e with
  | chars text => exact putAll_none hle h
  | formatted text =>
    rw [Writer.write, putAll_none hle (by simpa [Escape.room] using h)]
    rfl

theorem room_ge (e : Escape) : e.text.length ≤ Escape.room e := by
  cases e with
  | chars text => exact le_refl _
  | formatted text => exact Nat.le_succ _

theorem write_illFormed (w : Writer) : w.write Piece.illFormed.escape = emit w .illFormed := rfl

theorem emit_wellFormed {w w' : Writer} {codePoint : ℕ} {byte : UInt8}
    (h : w.write (Piece.wellFormed codePoint byte).escape = some w') :
    emit w (.wellFormed codePoint byte) = w'.flush := by
  change (w.write (Piece.wellFormed codePoint byte).escape).bind Writer.flush = w'.flush
  rw [h, Option.bind_some]

theorem emit_some {w : Writer} {p : Piece} (hlen : w.stringBuffer.length = stringBufferSize)
    (h : w.bytes + packing.room p ≤ stringBufferSize) : ∃ w', emit w p = some w' ∧
      w'.stringBuffer.length = stringBufferSize ∧ w'.bytes ≤ stringBufferSize ∧
        w'.bytes = packing.advance w.bytes p := by
  have hroom := room_ge p.escape
  obtain ⟨w', hw', hbytes, hlen'⟩ := write_some (w := w) (e := p.escape) (hlen ▸ h)
  rw [hlen] at hlen'
  have hle : w'.bytes ≤ stringBufferSize := hbytes ▸ le_trans (Nat.add_le_add_left hroom _) h
  cases p with
  | illFormed =>
    rw [write_illFormed] at hw'
    refine ⟨w', hw', hlen', hle, ?_⟩
    rw [hbytes, Packing.advance, if_neg (by simp [packing])]
    rfl
  | wellFormed codePoint byte =>
    have hemit := emit_wellFormed hw'
    have hfull : stringBufferSize - w'.bytes < 13 ↔
        stringBufferSize - 13 < w.bytes + packing.length (.wellFormed codePoint byte) := by
      change _ ↔ _ < w.bytes + (Piece.wellFormed codePoint byte).escape.text.length
      rw [← hbytes]
      unfold stringBufferSize at hle ⊢
      omega
    rw [hemit, Writer.flush, hlen', if_neg (not_lt.2 hle)]
    by_cases hflush : stringBufferSize - w'.bytes < 13
    · rw [if_pos hflush]
      refine ⟨_, rfl, hlen', Nat.zero_le _, ?_⟩
      rw [Packing.advance, if_pos ⟨rfl, hfull.1 hflush⟩]
    · rw [if_neg hflush]
      refine ⟨w', rfl, hlen', hle, ?_⟩
      rw [Packing.advance, if_neg fun hc => hflush (hfull.2 hc.2), hbytes]
      rfl

theorem emit_none {w : Writer} {p : Piece} (hlen : w.stringBuffer.length = stringBufferSize)
    (hle : w.bytes ≤ stringBufferSize) (h : stringBufferSize < w.bytes + packing.room p) :
    emit w p = none := by
  have hwrite : w.write p.escape = none := write_none (hlen ▸ hle) (hlen ▸ h)
  cases p with
  | illFormed => rwa [write_illFormed] at hwrite
  | wellFormed codePoint byte =>
    change (w.write (Piece.wellFormed codePoint byte).escape).bind Writer.flush = none
    rw [hwrite]
    rfl

theorem emitAll_isSome_iff {w : Writer} (hlen : w.stringBuffer.length = stringBufferSize)
    (hle : w.bytes ≤ stringBufferSize) (ps : List Piece) :
    (ps.foldlM emit w).isSome ↔ packing.Fits w.bytes ps := by
  induction ps generalizing w with
  | nil => simp [Packing.Fits]
  | cons p ps ih =>
    rw [List.foldlM_cons, Packing.Fits]
    by_cases hroom : w.bytes + packing.room p ≤ stringBufferSize
    · obtain ⟨w', hw', hlen', hle', hbytes⟩ := emit_some hlen hroom
      rw [hw', Option.bind_eq_bind, Option.bind_some, ih hlen' hle', hbytes]
      exact (and_iff_right hroom).symm
    · rw [emit_none hlen hle (not_le.1 hroom)]
      constructor
      · intro h
        cases h
      · intro h
        exact (hroom h.1).elim

theorem dumpEscaped_isSome_iff_fits (out : Text) (str : List UInt8) :
    (dumpEscaped out str).isSome ↔ packing.Fits 0 (pieces {} str) := by
  have hstart :
      Between { writer := { stringBuffer := List.replicate stringBufferSize '\x00', out } } :=
    ⟨rfl, by simp⟩
  rw [← emitAll_isSome_iff (w := { stringBuffer := List.replicate stringBufferSize '\x00', out })
    List.length_replicate (Nat.zero_le _), ← dumpLoop_eq_emit hstart, Option.isSome_map]
  unfold dumpEscaped dumpEscapedSized
  rcases dumpLoop _ str with _ | d
  · exact Iff.rfl
  · simp only [Option.bind_eq_bind, Option.bind_some]
    split_ifs <;> exact Iff.rfl

/-- No write of `dumpEscaped` leaves the buffer, and no subtraction underflows,
if and only if the escapes of the pieces pack into blocks of the buffer's size. -/
theorem dumpEscaped_in_bounds_iff (out : Text) (str : List UInt8) :
    (dumpEscaped out str).isSome ↔ packing.Packs (pieces {} str) := by
  rw [dumpEscaped_isSome_iff_fits, Packing.fits_iff_packs]

theorem room_escapeOf_le (codePoint : ℕ) (byte : UInt8) :
    Escape.room (escapeOf codePoint byte) ≤ 13 := by
  unfold escapeOf
  split
  case h_11 => split_ifs <;> simp [Escape.room, unicodeEscape]
  all_goals simp [Escape.room]

theorem fits_of_wellFormed {ps : List Piece} (h : ∀ p ∈ ps, packing.closing p) {fill : ℕ}
    (hfill : fill ≤ stringBufferSize - 13) : packing.Fits fill ps := by
  induction ps generalizing fill with
  | nil => trivial
  | cons p ps ih =>
    have hp := h p List.mem_cons_self
    have hroom : packing.room p ≤ 13 := by
      cases p with
      | wellFormed codePoint byte => exact room_escapeOf_le codePoint byte
      | illFormed => cases hp
    refine ⟨?_, ih (fun q hq => h q (List.mem_cons_of_mem _ hq)) ?_⟩
    · change fill + packing.room p ≤ stringBufferSize
      unfold stringBufferSize at *
      omega
    · unfold Packing.advance
      split_ifs with hfull
      · exact Nat.zero_le _
      · exact not_lt.1 fun hlt => hfull ⟨hp, hlt⟩

theorem dumpEscaped_isSome_of_wellFormed (out : Text) {str : List UInt8}
    (h : ∀ p ∈ pieces {} str, packing.closing p) : (dumpEscaped out str).isSome :=
  (dumpEscaped_isSome_iff_fits out str).2 (fits_of_wellFormed h (Nat.zero_le _))

theorem pieces_invalid (n : ℕ) (codePoint : ℕ) :
    pieces { codePoint } (List.replicate n 0xFF) = List.replicate n .illFormed := by
  have hdecode : ∀ codePoint, decode { codePoint } 0xFF = ⟨utf8Reject, 0⟩ := fun _ => rfl
  induction n generalizing codePoint with
  | zero => simp [pieces]
  | succ n ih =>
    rw [List.replicate_succ, pieces, hdecode, if_neg (by decide), if_pos rfl, if_pos rfl, ih]
    rfl

/-- 86 bytes that are no UTF-8 take 516 bytes of the buffer. -/
theorem dumpEscaped_overflows : ¬ (dumpEscaped [] (List.replicate 86 0xFF)).isSome := by
  rw [dumpEscaped_isSome_iff_fits, pieces_invalid 86 0]
  decide +kernel

end CrowCore.EscapeBuffer
