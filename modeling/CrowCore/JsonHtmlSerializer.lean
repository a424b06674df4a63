import Mathlib

set_option autoImplicit false

/-!
# Escaping strings for the HTML view

`dumpEscaped` decodes a byte string as UTF-8 and collects the escapes of its
code points in a buffer on the stack, which it flushes to the output.
-/
namespace CrowCore.JsonHtmlSerializer

abbrev Text := List Char

def utf8Accept : ℕ := 0
def utf8Reject : ℕ := 1

/-- Character classes of the 256 bytes, then 16 transitions for each state. -/
def utf8d : List ℕ := [
    0, 0, 0, 0, 0, 0, 0, 0, 0, 0, 0, 0, 0, 0, 0, 0, 0, 0, 0, 0, 0, 0, 0, 0, 0, 0, 0, 0, 0, 0, 0, 0,
    0, 0, 0, 0, 0, 0, 0, 0, 0, 0, 0, 0, 0, 0, 0, 0, 0, 0, 0, 0, 0, 0, 0, 0, 0, 0, 0, 0, 0, 0, 0, 0,
    0, 0, 0, 0, 0, 0, 0, 0, 0, 0, 0, 0, 0, 0, 0, 0, 0, 0, 0, 0, 0, 0, 0, 0, 0, 0, 0, 0, 0, 0, 0, 0,
    0, 0, 0, 0, 0, 0, 0, 0, 0, 0, 0, 0, 0, 0, 0, 0, 0, 0, 0, 0, 0, 0, 0, 0, 0, 0, 0, 0, 0, 0, 0, 0,
    1, 1, 1, 1, 1, 1, 1, 1, 1, 1, 1, 1, 1, 1, 1, 1, 9, 9, 9, 9, 9, 9, 9, 9, 9, 9, 9, 9, 9, 9, 9, 9,
    7, 7, 7, 7, 7, 7, 7, 7, 7, 7, 7, 7, 7, 7, 7, 7, 7, 7, 7, 7, 7, 7, 7, 7, 7, 7, 7, 7, 7, 7, 7, 7,
    8, 8, 2, 2, 2, 2, 2, 2, 2, 2, 2, 2, 2, 2, 2, 2, 2, 2, 2, 2, 2, 2, 2, 2, 2, 2, 2, 2, 2, 2, 2, 2,
    0xA, 0x3, 0x3, 0x3, 0x3, 0x3, 0x3, 0x3, 0x3, 0x3, 0x3, 0x3, 0x3, 0x4, 0x3, 0x3,
    0xB, 0x6, 0x6, 0x6, 0x5, 0x8, 0x8, 0x8, 0x8, 0x8, 0x8, 0x8, 0x8, 0x8, 0x8, 0x8,
    0x0, 0x1, 0x2, 0x3, 0x5, 0x8, 0x7, 0x1, 0x1, 0x1, 0x4, 0x6, 0x1, 0x1, 0x1, 0x1,
    1, 1, 1, 1, 1, 1, 1, 1, 1, 1, 1, 1, 1, 1, 1, 1, 1, 0, 1, 1, 1, 1, 1, 0, 1, 0, 1, 1, 1, 1, 1, 1,
    1, 2, 1, 1, 1, 1, 1, 2, 1, 2, 1, 1, 1, 1, 1, 1, 1, 1, 1, 1, 1, 1, 1, 2, 1, 1, 1, 1, 1, 1, 1, 1,
    1, 2, 1, 1, 1, 1, 1, 1, 1, 2, 1, 1, 1, 1, 1, 1, 1, 1, 1, 1, 1, 1, 1, 3, 1, 3, 1, 1, 1, 1, 1, 1,
    1, 3, 1, 1, 1, 1, 1, 3, 1, 3, 1, 1, 1, 1, 1, 1, 1, 3, 1, 1, 1, 1, 1, 1, 1, 1, 1, 1, 1, 1, 1, 1]

structure Decoder where
  state : ℕ := utf8Accept
  codePoint : ℕ := 0
deriving DecidableEq, Repr

/-- `decode`, on a 32-bit code point; the new state is also its result. -/
def decode (d : Decoder) (byte : UInt8) : Decoder :=
  if d.state > 0x8 then d
  else
    let type := utf8d.getD byte.toNat 0
    { codePoint :=
        if d.state ≠ utf8Accept then (byte.toNat &&& 0x3f) ||| (d.codePoint <<< 6 % 2 ^ 32)
        else (0xff >>> type) &&& byte.toNat
      state := utf8d.getD (256 + d.state * 16 + type) 0 }

def hexDigit (n : ℕ) : Char := "0123456789abcdef".toList.getD n '0'

/-- "\\u%04x" of a `uint16_t`. -/
def unicodeEscape (n : ℕ) : Text :=
  ['\\', 'u', hexDigit (n / 0x1000 % 0x10), hexDigit (n / 0x100 % 0x10), hexDigit (n / 0x10 % 0x10),
    hexDigit (n % 0x10)]

/-- What is written for one code point: single characters, or the result of
`snprintf`, which puts a NUL behind it. -/
inductive Escape where
  | chars (text : Text)
  | formatted (text : Text)
deriving DecidableEq, Repr

def Escape.text : Escape → Text
  | .chars text => text
  | .formatted text => text

/-- The inner `switch`; `byte` is `str[i]`, the last one of the code point. -/
def escapeOf (codePoint : ℕ) (byte : UInt8) : Escape :=
  match codePoint with
  | 0x08 => .chars ['\\', 'b']
  | 0x09 => .chars ['\\', 't']
  | 0x0A => .chars ['\\', 'n']
  | 0x0C => .chars ['\\', 'f']
  | 0x0D => .chars ['\\', 'r']
  | 0x22 => .chars ['&', 'q', 'u', 'o', 't', ';']
  | 0x27 => .chars ['&', 'a', 'p', 'o', 's', ';']
  | 0x26 => .chars ['&', 'a', 'm', 'p', ';']
  | 0x3C => .chars ['\\', 'l', 't', ';']
  | 0x3E => .chars ['\\', 'g', 't', ';']
  | _ =>
    if codePoint ≤ 0x1F ∨ codePoint ≥ 0x7F then
      if codePoint ≤ 0xFFFF then .formatted (unicodeEscape (codePoint % 2 ^ 16))
      else .formatted (unicodeEscape ((0xD7C0 + codePoint >>> 10) % 2 ^ 16) ++
        unicodeEscape ((0xDC00 + (codePoint &&& 0x3FF)) % 2 ^ 16))
    else .chars [Char.ofNat byte.toNat]

def replacement : Text := ['\\', 'u', 'f', 'f', 'f', 'd']

/-- The buffer, with the number of bytes written to it, and the output. -/
structure Writer where
  stringBuffer : Text
  bytes : ℕ := 0
  out : Text

namespace Writer

/-- `stringBuffer[bytes++] = c`; `none` is a write outside of the buffer. -/
def put (w : Writer) (c : Char) : Option Writer :=
  if w.bytes < w.stringBuffer.length then
    some { w with stringBuffer := w.stringBuffer.set w.bytes c, bytes := w.bytes + 1 }
  else none

def putAll (w : Writer) (text : Text) : Option Writer := text.foldlM put w

def write (w : Writer) : Escape → Option Writer
  | .chars text => w.putAll text
  | .formatted text => do
    let w' ← w.putAll (text ++ ['\x00'])
    return { w' with bytes := w.bytes + text.length }

/-- The flush test; `none` is an underflow of `stringBuffer.size() - bytes`. -/
def flush (w : Writer) : Option Writer :=
  if w.bytes > w.stringBuffer.length then none
  else if w.stringBuffer.length - w.bytes < 13 then
    some { w with out := w.out ++ w.stringBuffer.take w.bytes, bytes := 0 }
  else some w

end Writer

structure Dump where
  decoder : Decoder := {}
  writer : Writer
  bytesAfterLastAccept : ℕ := 0
  undumpedChars : ℕ := 0

def dumpLoop (d : Dump) (str : List UInt8) : Option Dump :=
  match str with
  | [] => some d
  | byte :: rest =>
    let decoder := decode d.decoder byte
    if decoder.state = utf8Accept then
      match d.writer.write (escapeOf decoder.codePoint byte) with
      | none => none
      | some writer =>
        match writer.flush with
        | none => none
        | some writer => dumpLoop
            { decoder, writer, bytesAfterLastAccept := writer.bytes, undumpedChars := 0 } rest
    else if decoder.state = utf8Reject then
      match { d.writer with bytes := d.bytesAfterLastAccept }.putAll replacement with
      | none => none
      | some writer =>
        let d' : Dump :=
          { decoder := { decoder with state := utf8Accept }, writer,
            bytesAfterLastAccept := writer.bytes, undumpedChars := 0 }
        -- `--i`: the byte is read once more, on its own
        if d.undumpedChars > 0 then dumpLoop d' (byte :: rest) else dumpLoop d' rest
    else dumpLoop { d with decoder, undumpedChars := d.undumpedChars + 1 } rest
termination_by 2 * str.length + min d.undumpedChars 1
decreasing_by
  all_goals simp only [List.length_cons]
  all_goals omega

def stringBufferSize : ℕ := 512

/-- What is appended to `out`, with a buffer of this size; `none` when a write or
the flush test leaves the buffer. -/
def dumpEscapedSized (size : ℕ) (out : Text) (str : List UInt8) : Option Text := do
  let d ← dumpLoop { writer := { stringBuffer := List.replicate size '\x00', out } } str
  if d.decoder.state = utf8Accept then
    if d.writer.bytes > 0 then
      return d.writer.out ++ d.writer.stringBuffer.take d.writer.bytes
    else return d.writer.out
  else
    return d.writer.out ++ d.writer.stringBuffer.take d.bytesAfterLastAccept ++ replacement

def dumpEscaped (out : Text) (str : List UInt8) : Option Text :=
  dumpEscapedSized stringBufferSize out str

end CrowCore.JsonHtmlSerializer
