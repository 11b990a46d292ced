import ManifestLint.Text.Position
import ManifestLint.Text.Quoted
import ManifestLint.Token.Kind

set_option autoImplicit false

/-! # Lexemes

A lexeme is a piece of a source with its kind and the position of its first character. Nothing
of a source is left out: the values of all lexemes, one after another, are the source again.
Reading a source can fail in two ways only, and the failure is placed at the character that
could not be read. -/

namespace ManifestLint

/-- A piece of source text, its kind, and where it begins. -/
structure Lexeme where
  kind : Kind
  value : String
  position : Position
deriving DecidableEq, Repr, Inhabited

/-- Why no token begins at a character. -/
inductive LexFault where
  /-- A quote whose closing partner is missing. -/
  | unterminatedText
  /-- A character that begins no token. -/
  | unexpected (c : Char)
deriving DecidableEq, Repr

/-- A fault together with the position it was found at. -/
structure LexError where
  fault : LexFault
  position : Position
deriving DecidableEq, Repr

/-- A fault in words. -/
def LexFault.message : LexFault → String
  | unterminatedText => "Unterminated string"
  | unexpected c => "Unexpected character " ++ Text.quoted (String.singleton c)

/-- An error in words, with its position. -/
def LexError.message (e : LexError) : String :=
  s!"Lexer error at line {e.position.line}, column {e.position.column}: " ++ e.fault.message

end ManifestLint
