import ManifestLint.Text.Printable

set_option autoImplicit false

/-! # Quoted text

A text is shown in a message between quotes. Single quotes are used unless the text holds a
single quote and no double quote. The quote in use and the backslash are escaped by a
backslash, tabs and line ends have letters of their own, and every other character without a
printed form is written by its code point in hexadecimal, in two, four or eight digits. -/

namespace ManifestLint.Text

/-- The hexadecimal digits of `n`, filled up with zeros to at least `width` digits. -/
def hexDigits (width n : Nat) : List Char :=
  let digits := Nat.toDigits 16 n
  List.replicate (width - digits.length) '0' ++ digits

/-- The quote to put around a text. -/
def quoteFor (cs : List Char) : Char :=
  if cs.contains '\'' && !cs.contains '"' then '"' else '\''

/-- One character as it is written between the given quotes. -/
def escapeChar (quote c : Char) : List Char :=
  if c = quote ∨ c = '\\' then ['\\', c]
  else if c = '\t' then ['\\', 't']
  else if c = '\n' then ['\\', 'n']
  else if c = '\r' then ['\\', 'r']
  else if isPrintable c then [c]
  else if c.toNat < 256 then '\\' :: 'x' :: hexDigits 2 c.toNat
  else if c.toNat < 65536 then '\\' :: 'u' :: hexDigits 4 c.toNat
  else '\\' :: 'U' :: hexDigits 8 c.toNat

/-- A text between quotes, with every character escaped that needs it. -/
def quoted (s : String) : String :=
  let quote := quoteFor s.toList
  String.ofList (quote :: (s.toList.flatMap (escapeChar quote) ++ [quote]))

/-- One byte as it is written between the given quotes: of the bytes, only those of ASCII have a
printed form. -/
def escapeByte (quote : Char) (byte : UInt8) : List Char :=
  if byte < 128 then escapeChar quote (Char.ofUInt8 byte) else '\\' :: 'x' :: hexDigits 2 byte.toNat

/-- Bytes between quotes, with every byte escaped that needs it. -/
def quotedBytes (bytes : List UInt8) : String :=
  let quote := quoteFor (bytes.map Char.ofUInt8)
  String.ofList ('b' :: quote :: (bytes.flatMap (escapeByte quote) ++ [quote]))

end ManifestLint.Text
