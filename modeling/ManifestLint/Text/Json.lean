set_option autoImplicit false

/-! # JSON text

JSON in ASCII: a character outside of printable ASCII is written by the units of its UTF-16
form, in four hexadecimal digits each. A list of objects is laid out with one field a line. -/

namespace ManifestLint.Text

/-- A number below 65536 as four hexadecimal digits behind the sign of an escape. -/
def unicodeEscape (n : Nat) : List Char :=
  let digits := Nat.toDigits 16 n
  '\\' :: 'u' :: (List.replicate (4 - digits.length) '0' ++ digits)

/-- One character of a JSON text. -/
def jsonChar (c : Char) : List Char :=
  if c = '"' then ['\\', '"']
  else if c = '\\' then ['\\', '\\']
  else if c = '\n' then ['\\', 'n']
  else if c = '\r' then ['\\', 'r']
  else if c = '\t' then ['\\', 't']
  else if c = '\x08' then ['\\', 'b']
  else if c = '\x0c' then ['\\', 'f']
  else if 32 ≤ c.toNat ∧ c.toNat ≤ 126 then [c]
  else if c.toNat < 65536 then unicodeEscape c.toNat
  else
    let n := c.toNat - 65536
    unicodeEscape (0xD800 + n / 1024) ++ unicodeEscape (0xDC00 + n % 1024)

/-- A text as JSON. -/
def jsonText (s : String) : String :=
  String.ofList ('"' :: (s.toList.flatMap jsonChar ++ ['"']))

/-- An object whose values are written already, one field a line, two levels in. -/
def jsonObject (fields : List (String × String)) : String :=
  let line (field : String × String) : String := "    " ++ jsonText field.1 ++ ": " ++ field.2
  "  \x7b\n" ++ String.intercalate ",\n" (fields.map line) ++ "\n  \x7d"

/-- A list of objects that are written already. -/
def jsonList (objects : List String) : String :=
  if objects.isEmpty then "[]" else "[\n" ++ String.intercalate ",\n" objects ++ "\n]"

end ManifestLint.Text
