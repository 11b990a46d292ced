import ManifestLint.Text.Ranges

set_option autoImplicit false

/-! # Blank characters

The characters that are trimmed from both ends of an environment setting: the white space of
Unicode together with the four ASCII information separators. -/

namespace ManifestLint.Text

/-- The intervals of blank characters. -/
def blankRanges : List (Nat × Nat) :=
  [(9, 13), (28, 32), (133, 133), (160, 160), (5760, 5760), (8192, 8202), (8232, 8233),
   (8239, 8239), (8287, 8287), (12288, 12288)]

/-- Decides whether a character is blank. -/
def isBlank (c : Char) : Bool := inRanges blankRanges c.toNat

/-- The characters without the blank ones at either end. -/
def stripBlank (cs : List Char) : List Char :=
  ((cs.dropWhile isBlank).reverse.dropWhile isBlank).reverse

/-- The text without blank characters at either end. -/
def strip (s : String) : String := String.ofList (stripBlank s.toList)

end ManifestLint.Text
