import Mathlib

set_option autoImplicit false

/-!
# Base64

`Base64Encoder` gets a string in parts and keeps up to two bytes until the next
part or the end. `Base64FileBody` encodes a file that is read in parts.
-/
namespace CrowCore.Base64

abbrev Text := List Char

def key : Text := "ABCDEFGHIJKLMNOPQRSTUVWXYZabcdefghijklmnopqrstuvwxyz0123456789+/".toList

def keyAt (keyIndex : ℕ) : Char := key.getD keyIndex '\x00'

def encodeTriple (first second third : UInt8) (output : Text) : Text :=
  let output := output ++ [keyAt ((first &&& 0xFC).toNat >>> 2)]
  let output := output ++ [keyAt ((first &&& 0x03).toNat <<< 4 + (second &&& 0xF0).toNat >>> 4)]
  let output := output ++ [keyAt ((second &&& 0x0F).toNat <<< 2 + (third &&& 0xC0).toNat >>> 6)]
  output ++ [keyAt (third &&& 0x3F).toNat]

/-- `overflowCount` bytes are kept. -/
structure Base64Encoder where
  overflow1 : UInt8 := 0
  overflow2 : UInt8 := 0
  overflowCount : ℕ := 0
deriving DecidableEq, Repr

namespace Base64Encoder

/-- The kept bytes, completed to a triple where there are enough. -/
def encodeOverflow (e : Base64Encoder) (data : List UInt8) (output : Text) :
    Base64Encoder × List UInt8 × Text :=
  if e.overflowCount = 2 then
    match data with
    | [] => (e, data, output)
    | b :: data =>
      ({ e with overflowCount := 0 }, data, encodeTriple e.overflow1 e.overflow2 b output)
  else if e.overflowCount = 1 then
    match data with
    | b :: c :: data => ({ e with overflowCount := 0 }, data, encodeTriple e.overflow1 b c output)
    | data => (e, data, output)
  else (e, data, output)

def encodeTriples : List UInt8 → Text → List UInt8 × Text
  | a :: b :: c :: data, output => encodeTriples data (encodeTriple a b c output)
  | data, output => (data, output)

def keepFirst (e : Base64Encoder) (data : List UInt8) : Base64Encoder × List UInt8 :=
  match data with
  | [] => (e, data)
  | b :: rest =>
    if e.overflowCount = 0 then ({ e with overflow1 := b, overflowCount := 1 }, rest) else (e, data)

def keepSecond (e : Base64Encoder) (data : List UInt8) : Base64Encoder :=
  match data with
  | [] => e
  | b :: _ => if e.overflowCount = 1 then { e with overflow2 := b, overflowCount := 2 } else e

def encode (e : Base64Encoder) (data : List UInt8) (output : Text) : Base64Encoder × Text :=
  let (e, data, output) := e.encodeOverflow data output
  let (data, output) := encodeTriples data output
  let (e, data) := e.keepFirst data
  (e.keepSecond data, output)

def finalize (e : Base64Encoder) (output : Text) : Base64Encoder × Text :=
  if e.overflowCount = 0 then (e, output)
  else
    let output := output ++ [keyAt ((e.overflow1 &&& 0xFC).toNat >>> 2)]
    let keyIndex := (e.overflow1 &&& 0x03).toNat <<< 4
    let output :=
      if e.overflowCount = 2 then
        output ++ [keyAt (keyIndex + (e.overflow2 &&& 0xF0).toNat >>> 4)] ++
          [keyAt ((e.overflow2 &&& 0x0F).toNat <<< 2)]
      else output ++ [keyAt keyIndex] ++ ['=']
    ({ e with overflowCount := 0 }, output ++ ['='])

/-- On a 64-bit `size_t`. -/
def encodedSize (inputSize : ℕ) : ℕ := (inputSize + 2) % 2 ^ 64 / 3 * 4 % 2 ^ 64

def encodeAll (e : Base64Encoder) (chunks : List (List UInt8)) (output : Text) :
    Base64Encoder × Text :=
  chunks.foldl (fun acc data => acc.1.encode data acc.2) (e, output)

end Base64Encoder

open Base64Encoder

def base64encode (data : List UInt8) : Text :=
  let (base64, out) := ({} : Base64Encoder).encode data []
  (base64.finalize out).2

namespace Base64FileBody

/-- What `get` of a `file_body` writer returns, call by call: a buffer, and
whether there is more data. -/
abbrev FileBody := List (List UInt8 × Bool)

structure Writer where
  buf : Text := []
  encoder : Base64Encoder := {}
  base : FileBody

def Writer.get (w : Writer) : Option ((Text × Bool) × Writer) :=
  match w.base with
  | [] => none
  | (chunkView, more) :: base =>
    let (encoder, buf) := w.encoder.encode chunkView []
    let (encoder, buf) := if !more then encoder.finalize buf else (encoder, buf)
    some ((buf, more), { buf, encoder, base })

def Writer.serialize (w : Writer) : Text :=
  match _h : w.get with
  | none => []
  | some ((buf, more), w') => if more then buf ++ w'.serialize else buf
termination_by w.base.length
decreasing_by
  have h : w.get = some ((buf, more), w') := _h
  unfold Writer.get at h
  split at h
  · cases h
  · rename_i hbase
    rw [hbase, ← (Prod.mk.inj (Option.some.inj h)).2]
    exact Nat.lt_succ_self _

def size (content : List UInt8) : ℕ := encodedSize content.length

def fileBody : List (List UInt8) → FileBody
  | [] => []
  | [chunk] => [(chunk, false)]
  | chunk :: chunks => (chunk, true) :: fileBody chunks

end Base64FileBody

def group (n : ℕ) : Text := [3, 2, 1, 0].map fun i => keyAt (n / 64 ^ i % 64)

def value (a b c : UInt8) : ℕ := a.toNat * 2 ^ 16 + b.toNat * 2 ^ 8 + c.toNat

/-- Groups of three bytes, the last one padded. -/
def base64 : List UInt8 → Text
  | [] => []
  | [a] => (group (value a 0 0)).take 2 ++ ['=', '=']
  | [a, b] => (group (value a b 0)).take 3 ++ ['=']
  | a :: b :: c :: data => group (value a b c) ++ base64 data

theorem byte_parts : ∀ n < 256, (n &&& 252) >>> 2 = n / 4 ∧ (n &&& 3) <<< 4 = n % 4 * 16 ∧
    (n &&& 240) >>> 4 = n / 16 ∧ (n &&& 15) <<< 2 = n % 16 * 4 ∧ (n &&& 192) >>> 6 = n / 64 ∧
    n &&& 63 = n % 64 := by
  decide +kernel

theorem bits_first (b : UInt8) : (b &&& 0xFC).toNat >>> 2 = b.toNat / 4 := by
  obtain ⟨h, -⟩ := byte_parts b.toNat b.toNat_lt
  simpa using h

theorem bits_second (a b : UInt8) :
    (a &&& 0x03).toNat <<< 4 + (b &&& 0xF0).toNat >>> 4 = a.toNat % 4 * 16 + b.toNat / 16 := by
  obtain ⟨-, ha, -⟩ := byte_parts a.toNat a.toNat_lt
  obtain ⟨-, -, hb, -⟩ := byte_parts b.toNat b.toNat_lt
  simp only [UInt8.toNat_and]
  exact congrArg₂ (· + ·) ha hb

theorem bits_third (a b : UInt8) :
    (a &&& 0x0F).toNat <<< 2 + (b &&& 0xC0).toNat >>> 6 = a.toNat % 16 * 4 + b.toNat / 64 := by
  obtain ⟨-, -, -, ha, -⟩ := byte_parts a.toNat a.toNat_lt
  obtain ⟨-, -, -, -, hb, -⟩ := byte_parts b.toNat b.toNat_lt
  simp only [UInt8.toNat_and]
  exact congrArg₂ (· + ·) ha hb

theorem bits_fourth (b : UInt8) : (b &&& 0x3F).toNat = b.toNat % 64 := by
  obtain ⟨-, -, -, -, -, h⟩ := byte_parts b.toNat b.toNat_lt
  simpa using h

theorem group_value (a b c : UInt8) : group (value a b c) =
    [keyAt (a.toNat / 4), keyAt (a.toNat % 4 * 16 + b.toNat / 16),
      keyAt (b.toNat % 16 * 4 + c.toNat / 64), keyAt (c.toNat % 64)] := by
  have ha := a.toNat_lt
  have hb := b.toNat_lt
  have hc := c.toNat_lt
  have h3 : value a b c / 64 ^ 3 % 64 = a.toNat / 4 := by unfold value; omega
  have h2 : value a b c / 64 ^ 2 % 64 = a.toNat % 4 * 16 + b.toNat / 16 := by unfold value; omega
  have h1 : value a b c / 64 ^ 1 % 64 = b.toNat % 16 * 4 + c.toNat / 64 := by unfold value; omega
  have h0 : value a b c / 64 ^ 0 % 64 = c.toNat % 64 := by unfold value; omega
  simp only [group, List.map_cons, List.map_nil, h3, h2, h1, h0]

theorem encodeTriple_eq (a b c : UInt8) (output : Text) :
    encodeTriple a b c output = output ++ group (value a b c) := by
  rw [group_value]
  unfold encodeTriple
  rw [bits_first, bits_second, bits_third, bits_fourth]
  simp

namespace Base64Encoder

def pending (e : Base64Encoder) : List UInt8 :=
  match e.overflowCount with
  | 0 => []
  | 1 => [e.overflow1]
  | _ => [e.overflow1, e.overflow2]

/-- The invariant between two parts: what was written, and the encoding of what
is kept and of what follows, is the encoding of the whole string. -/
structure Encoded (consumed : List UInt8) (e : Base64Encoder) (output : Text) : Prop where
  count_le : e.overflowCount ≤ 2
  output_eq : ∀ rest, output ++ base64 (e.pending ++ rest) = base64 (consumed ++ rest)

theorem encoded_new : Encoded [] {} [] := ⟨Nat.zero_le _, fun _ => rfl⟩

theorem encoded_encode_of_zero (o1 o2 : UInt8) {consumed : List UInt8} (data : List UInt8)
    {output : Text}
    (h : Encoded consumed ⟨o1, o2, 0⟩ output) :
    let r := encode ⟨o1, o2, 0⟩ data output
    Encoded (consumed ++ data) r.1 r.2 := by
  intro r
  induction data using base64.induct generalizing consumed output with
  | case1 =>
    rw [List.append_nil]
    exact h
  | case2 a =>
    refine ⟨Nat.le_succ 1, fun rest => ?_⟩
    rw [List.append_assoc]
    exact h.output_eq ([a] ++ rest)
  | case3 a b =>
    refine ⟨le_refl 2, fun rest => ?_⟩
    rw [List.append_assoc]
    exact h.output_eq ([a, b] ++ rest)
  | case4 a b c data ih =>
    have hstep : Encoded (consumed ++ [a, b, c]) ⟨o1, o2, 0⟩ (encodeTriple a b c output) := by
      refine ⟨h.count_le, fun rest => ?_⟩
      rw [encodeTriple_eq, List.append_assoc, List.append_assoc]
      exact h.output_eq ([a, b, c] ++ rest)
    have hrest := ih hstep
    rw [List.append_assoc] at hrest
    exact hrest

theorem encoded_encode {consumed : List UInt8} {e : Base64Encoder} {output : Text}
    (h : Encoded consumed e output) (data : List UInt8) :
    let r := e.encode data output
    Encoded (consumed ++ data) r.1 r.2 := by
  intro r
  obtain ⟨o1, o2, n⟩ := e
  have hn : n = 0 ∨ n = 1 ∨ n = 2 := by
    have hle : n ≤ 2 := h.count_le
    omega
  rcases hn with rfl | rfl | rfl
  · exact encoded_encode_of_zero o1 o2 data h
  · rcases data with _ | ⟨b, _ | ⟨c, data⟩⟩
    · rw [List.append_nil]
      exact h
    · refine ⟨le_refl 2, fun rest => ?_⟩
      rw [List.append_assoc]
      exact h.output_eq ([b] ++ rest)
    · have hstep : Encoded (consumed ++ [b, c]) ⟨o1, o2, 0⟩ (encodeTriple o1 b c output) := by
        refine ⟨Nat.zero_le _, fun rest => ?_⟩
        rw [encodeTriple_eq, List.append_assoc, List.append_assoc]
        exact h.output_eq ([b, c] ++ rest)
      have hrest := encoded_encode_of_zero o1 o2 data hstep
      rw [List.append_assoc] at hrest
      exact hrest
  · rcases data with _ | ⟨b, data⟩
    · rw [List.append_nil]
      exact h
    · have hstep : Encoded (consumed ++ [b]) ⟨o1, o2, 0⟩ (encodeTriple o1 o2 b output) := by
        refine ⟨Nat.zero_le _, fun rest => ?_⟩
        rw [encodeTriple_eq, List.append_assoc, List.append_assoc]
        exact h.output_eq ([b] ++ rest)
      have hrest := encoded_encode_of_zero o1 o2 data hstep
      rw [List.append_assoc] at hrest
      exact hrest

theorem encoded_encodeAll {consumed : List UInt8} {e : Base64Encoder} {output : Text}
    (h : Encoded consumed e output) (chunks : List (List UInt8)) :
    let r := e.encodeAll chunks output
    Encoded (consumed ++ chunks.flatten) r.1 r.2 := by
  intro r
  induction chunks generalizing consumed e output with
  | nil =>
    rw [List.flatten_nil, List.append_nil]
    exact h
  | cons data chunks ih =>
    rw [List.flatten_cons, ← List.append_assoc]
    exact ih (encoded_encode h data)

theorem finalize_eq {consumed : List UInt8} {e : Base64Encoder} {output : Text}
    (h : Encoded consumed e output) : (e.finalize output).2 = base64 consumed := by
  obtain ⟨o1, o2, n⟩ := e
  have hn : n = 0 ∨ n = 1 ∨ n = 2 := by
    have hle : n ≤ 2 := h.count_le
    omega
  have hout := h.output_eq []
  rw [List.append_nil, List.append_nil] at hout
  rw [← hout]
  have hfirst := bits_first o1
  rcases hn with rfl | rfl | rfl
  · exact (List.append_nil _).symm
  · have hsecond : (o1 &&& 0x03).toNat <<< 4 = o1.toNat % 4 * 16 := by simpa using bits_second o1 0
    simp only [finalize, pending, base64, group_value, hfirst, hsecond]
    simp
  · have hsecond := bits_second o1 o2
    have hthird : (o2 &&& 0x0F).toNat <<< 2 = o2.toNat % 16 * 4 := by simpa using bits_third o2 0
    simp only [finalize, pending, base64, group_value, hfirst, hsecond, hthird]
    simp

theorem encodeTriples_eq (data : List UInt8) (output : Text) : encodeTriples data output =
    ((encodeTriples data []).1, output ++ (encodeTriples data []).2) := by
  induction data using base64.induct generalizing output with
  | case1 => simp [encodeTriples]
  | case2 a => simp [encodeTriples]
  | case3 a b => simp [encodeTriples]
  | case4 a b c data ih =>
    rw [encodeTriples, encodeTriples, ih (encodeTriple a b c output), ih (encodeTriple a b c []),
      encodeTriple_eq, encodeTriple_eq]
    simp

theorem encode_eq (e : Base64Encoder) (data : List UInt8) (output : Text) : e.encode data output =
    ((e.encode data []).1, output ++ (e.encode data []).2) := by
  have hoverflow : e.encodeOverflow data output = ((e.encodeOverflow data []).1,
      (e.encodeOverflow data []).2.1, output ++ (e.encodeOverflow data []).2.2) := by
    unfold encodeOverflow
    split_ifs
    · rcases data with _ | ⟨b, data⟩ <;> simp [encodeTriple_eq]
    · rcases data with _ | ⟨b, _ | ⟨c, data⟩⟩ <;> simp [encodeTriple_eq]
    · simp
  unfold encode
  rw [hoverflow]
  dsimp only
  rw [encodeTriples_eq _ (output ++ _), encodeTriples_eq _ (e.encodeOverflow data []).2.2]
  simp

theorem finalize_append (e : Base64Encoder) (output : Text) :
    (e.finalize output).2 = output ++ (e.finalize []).2 := by
  unfold finalize
  split_ifs <;> simp

end Base64Encoder

theorem base64encode_eq (data : List UInt8) : base64encode data = base64 data :=
  finalize_eq (encoded_encode encoded_new data)

theorem length_base64 (data : List UInt8) :
    (base64 data).length = (data.length + 2) / 3 * 4 := by
  have hgroup : ∀ n, (group n).length = 4 := fun n => rfl
  induction data using base64.induct with
  | case1 => rfl
  | case2 a => simp [base64, hgroup]
  | case3 a b => simp [base64, hgroup]
  | case4 a b c data ih =>
    simp only [base64, List.length_append, hgroup, ih, List.length_cons]
    omega

theorem encodedSize_eq {inputSize : ℕ} (h : inputSize < 2 ^ 63) :
    encodedSize inputSize = (inputSize + 2) / 3 * 4 := by
  unfold encodedSize
  omega

namespace Base64FileBody

theorem serialize_eq (w : Writer) : w.serialize = match w.base with
    | [] => []
    | (chunkView, more) :: base =>
      let r := w.encoder.encode chunkView []
      if more then r.2 ++ ({ buf := r.2, encoder := r.1, base } : Writer).serialize
      else (r.1.finalize r.2).2 := by
  obtain ⟨buf, encoder, _ | ⟨⟨chunkView, more⟩, base⟩⟩ := w
  · rw [Writer.serialize]
    rfl
  · rw [Writer.serialize]
    cases more <;> rfl

theorem serialize_fileBody {consumed : List UInt8} {output : Text} {w : Writer}
    (h : Encoded consumed w.encoder output) {chunks : List (List UInt8)} (hne : chunks ≠ [])
    (hbase : w.base = fileBody chunks) :
    output ++ w.serialize = base64 (consumed ++ chunks.flatten) := by
  induction chunks generalizing consumed output w with
  | nil => exact (hne rfl).elim
  | cons chunk chunks ih =>
    have hstep := encoded_encode h chunk
    rw [encode_eq w.encoder chunk output] at hstep
    rcases chunks with _ | ⟨chunk', chunks⟩
    · have hdone := finalize_eq hstep
      rw [finalize_append, List.append_assoc, ← finalize_append] at hdone
      rw [serialize_eq, hbase]
      simpa [fileBody] using hdone
    · have hrest := ih (w := ⟨(w.encoder.encode chunk []).2, (w.encoder.encode chunk []).1,
        fileBody (chunk' :: chunks)⟩) hstep (List.cons_ne_nil _ _) rfl
      rw [List.append_assoc consumed, ← List.flatten_cons] at hrest
      rw [serialize_eq, hbase, ← hrest]
      simp [fileBody]

end Base64FileBody

def encodeInParts (chunks : List (List UInt8)) : Text :=
  let r := ({} : Base64Encoder).encodeAll chunks []
  (r.1.finalize r.2).2

def serializeInParts (chunks : List (List UInt8)) : Text :=
  ({ base := Base64FileBody.fileBody chunks } : Base64FileBody.Writer).serialize

theorem serializeInParts_eq (chunks : List (List UInt8)) :
    serializeInParts chunks = base64 chunks.flatten := by
  unfold serializeInParts
  by_cases hne : chunks = []
  · rw [hne, Base64FileBody.serialize_eq]
    simp [Base64FileBody.fileBody, base64]
  · have h : Encoded [] ({ base := Base64FileBody.fileBody chunks } :
        Base64FileBody.Writer).encoder [] := encoded_new
    exact Base64FileBody.serialize_fileBody h hne rfl

theorem size_eq {content : List UInt8} (h : content.length < 2 ^ 63) :
    Base64FileBody.size content = (base64 content).length := by
  rw [Base64FileBody.size, encodedSize_eq h, length_base64]

/-- Encoding in parts gives the encoding of the whole, and as many characters as
announced. -/
theorem streaming_eq_base64encode (chunks : List (List UInt8)) :
    encodeInParts chunks = base64encode chunks.flatten ∧
      serializeInParts chunks = base64encode chunks.flatten ∧
      (chunks.flatten.length < 2 ^ 63 →
        (base64encode chunks.flatten).length = encodedSize chunks.flatten.length ∧
          (base64encode chunks.flatten).length = Base64FileBody.size chunks.flatten) := by
  rw [base64encode_eq]
  refine ⟨?_, serializeInParts_eq chunks, fun h => ⟨(size_eq h).symm, (size_eq h).symm⟩⟩
  exact finalize_eq (encoded_encodeAll encoded_new chunks)

/-- The text of the repository's test, read in three parts. -/
theorem streaming_eq_base64encode_sample :
    let content := [115, 97, 109, 112, 108, 101, 32, 116, 101, 120, 116]
    content.length < 2 ^ 63 ∧
      serializeInParts [content.take 2, [], content.drop 2] = base64encode content ∧
      (base64encode content).length = Base64FileBody.size content := by
  intro content
  obtain ⟨-, hwriter, hsize⟩ :=
    streaming_eq_base64encode [content.take 2, [], content.drop 2]
  exact ⟨by decide, hwriter, (hsize (by decide)).2⟩

end CrowCore.Base64
