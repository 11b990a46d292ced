import ManifestLint.Token.Scan

set_option autoImplicit false

/-! # Lexing a source

A source is read token by token from its beginning. The result of a lexing is the list of
lexemes that were read and, if reading stopped early, the error that stopped it. A source that
is read to its end is closed by one empty lexeme of kind `endOfFile`; after an error there is
no such lexeme, and those that came before the error are kept. -/

namespace ManifestLint

/-- The lexemes of a source up to its end or to the first error. -/
structure Lexing where
  lexemes : List Lexeme
  error : Option LexError
deriving DecidableEq, Repr

namespace Lexing

/-- A lexing with one more lexeme in front. -/
def cons (lexeme : Lexeme) (lexing : Lexing) : Lexing :=
  ⟨lexeme :: lexing.lexemes, lexing.error⟩

@[simp] theorem cons_lexemes (lexeme : Lexeme) (lexing : Lexing) :
    (cons lexeme lexing).lexemes = lexeme :: lexing.lexemes := rfl

@[simp] theorem cons_error (lexeme : Lexeme) (lexing : Lexing) :
    (cons lexeme lexing).error = lexing.error := rfl

/-- The lexing of the characters `cs`, the first of which stands at `position`. -/
def ofChars (context : Context) (position : Position) : List Char → Lexing
  | [] => ⟨[⟨.endOfFile, "", position⟩], none⟩
  | c :: cs =>
    match h : scan context c cs with
    | .error fault => ⟨[], some ⟨fault, position⟩⟩
    | .ok s =>
      have := scan_rest_length h
      cons ⟨s.kind, String.ofList s.text, position⟩
        (ofChars (context.after s.kind s.text) (position.after s.text) s.rest)
termination_by cs => cs.length
decreasing_by exact this

theorem ofChars_nil (context : Context) (position : Position) :
    ofChars context position [] = ⟨[⟨.endOfFile, "", position⟩], none⟩ := by
  rw [ofChars]

theorem ofChars_error {context : Context} {position : Position} {c : Char} {cs : List Char}
    {fault : LexFault} (h : scan context c cs = .error fault) :
    ofChars context position (c :: cs) = ⟨[], some ⟨fault, position⟩⟩ := by
  rw [ofChars]
  split <;> simp_all

theorem ofChars_ok {context : Context} {position : Position} {c : Char} {cs : List Char}
    {s : Scanned} (h : scan context c cs = .ok s) :
    ofChars context position (c :: cs) =
      cons ⟨s.kind, String.ofList s.text, position⟩
        (ofChars (context.after s.kind s.text) (position.after s.text) s.rest) := by
  rw [ofChars]
  split
  · simp_all
  · rename_i t ht
    rw [h] at ht
    cases ht
    rfl

/-- The lexing of a whole source. -/
def ofSource (source : String) : Lexing :=
  ofChars Context.start Position.start source.toList

/-- The lexemes of a source without the closing one, or the error that stopped the lexing. -/
def toExcept (lexing : Lexing) : Except LexError (List Lexeme) :=
  match lexing.error with
  | some error => .error error
  | none => .ok (lexing.lexemes.filter fun lexeme => lexeme.kind != .endOfFile)

end Lexing

end ManifestLint
