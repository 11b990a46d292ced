set_option autoImplicit false

/-! # Reading and writing bytes as text

A manifest is UTF-8, possibly behind a byte order mark. Bytes that are not valid UTF-8 are
read as Latin-1 instead, one character for each byte, so that every file can be read. The
encoding that was found is kept, because a repaired file is written back in it. -/

namespace ManifestLint

/-- How the bytes of a file stand for text. -/
inductive Encoding where
  /-- UTF-8 without a mark. -/
  | utf8
  /-- UTF-8 behind one byte order mark. -/
  | utf8Marked
  /-- One byte for each of the first 256 characters. -/
  | latin1
deriving DecidableEq, Repr, Inhabited

namespace Encoding

/-- The name an encoding is reported under. -/
def name : Encoding → String
  | utf8 => "utf-8"
  | utf8Marked => "utf-8-sig"
  | latin1 => "latin-1"

/-- The byte order mark. -/
def mark : ByteArray := ⟨#[0xEF, 0xBB, 0xBF]⟩

/-- Every byte as the character of that number. -/
def decodeLatin1 (bytes : ByteArray) : String :=
  String.ofList (bytes.data.toList.map fun b => Char.ofNat b.toNat)

/-- Reads bytes as text, with the encoding to write the text back in. -/
def decode (bytes : ByteArray) : String × Encoding :=
  if (bytes.extract 0 3).data.toList = mark.data.toList then
    match String.fromUTF8? (bytes.extract 3 bytes.size) with
    | some text => (text, utf8Marked)
    | none => (decodeLatin1 bytes, latin1)
  else
    match String.fromUTF8? bytes with
    | some text => (text, utf8)
    | none => (decodeLatin1 bytes, latin1)

/-- Writes text as bytes; fails on a character that the encoding cannot write. -/
def encode? : Encoding → String → Option ByteArray
  | utf8, text => some text.toUTF8
  | utf8Marked, text => some (mark ++ text.toUTF8)
  | latin1, text =>
      if text.toList.all fun c => decide (c.toNat < 256) then
        some ⟨(text.toList.map fun c => UInt8.ofNat c.toNat).toArray⟩
      else none

end Encoding

end ManifestLint
