set_option autoImplicit false

/-! # Kinds of tokens

The kinds of token in a manifest. Four of them carry no code: white space inside a line, the
indent at the start of a line, line ends, and comments. The first three are the *spaces*,
which the rules measure and the repairs change; all four together are the *trivia*, which a
search for the neighbouring code passes over. -/

namespace ManifestLint

/-- What a token is. -/
inductive Kind where
  | identifier
  | classWord
  | defineWord
  | inheritsWord
  | variableName
  | quotedText
  | number
  | equals
  | fatArrow
  | leftBrace
  | rightBrace
  | leftBracket
  | rightBracket
  | leftParen
  | rightParen
  | lessThan
  | greaterThan
  | lessEqual
  | greaterEqual
  | notEqual
  | doubleEqual
  | bang
  | question
  | colon
  | comma
  | semicolon
  | atSign
  | plus
  | minus
  | star
  | slash
  | percent
  | ampersand
  | tilde
  | dot
  | pipe
  | regexMatch
  | regexNoMatch
  | inEdge
  | inEdgeSub
  | outEdge
  | outEdgeSub
  | leftCollect
  | rightCollect
  | leftDoubleCollect
  | rightDoubleCollect
  | regex
  | comment
  | whitespace
  | indent
  | newline
  | endOfFile
deriving DecidableEq, Repr, Inhabited

namespace Kind

/-- The name a kind is shown under. -/
def name : Kind → String
  | identifier => "IDENTIFIER"
  | classWord => "CLASS"
  | defineWord => "DEFINE"
  | inheritsWord => "INHERITS"
  | variableName => "VARIABLE"
  | quotedText => "STRING"
  | number => "NUMBER"
  | equals => "EQUALS"
  | fatArrow => "FARROW"
  | leftBrace => "LBRACE"
  | rightBrace => "RBRACE"
  | leftBracket => "LBRACKET"
  | rightBracket => "RBRACKET"
  | leftParen => "LPAREN"
  | rightParen => "RPAREN"
  | lessThan => "LESS_THAN"
  | greaterThan => "GREATER_THAN"
  | lessEqual => "LESS_EQUAL"
  | greaterEqual => "GREATER_EQUAL"
  | notEqual => "NOT_EQUAL"
  | doubleEqual => "COMPARE_EQUAL"
  | bang => "NOT"
  | question => "QUESTION"
  | colon => "COLON"
  | comma => "COMMA"
  | semicolon => "SEMICOLON"
  | atSign => "AT"
  | plus => "PLUS"
  | minus => "MINUS"
  | star => "STAR"
  | slash => "SLASH"
  | percent => "MODULO"
  | ampersand => "AMPERSAND"
  | tilde => "TILDE"
  | dot => "DOT"
  | pipe => "PIPE"
  | regexMatch => "MATCH"
  | regexNoMatch => "NOMATCH"
  | inEdge => "IN_EDGE"
  | inEdgeSub => "IN_EDGE_SUB"
  | outEdge => "OUT_EDGE"
  | outEdgeSub => "OUT_EDGE_SUB"
  | leftCollect => "LCOLLECT"
  | rightCollect => "RCOLLECT"
  | leftDoubleCollect => "LLCOLLECT"
  | rightDoubleCollect => "RRCOLLECT"
  | regex => "REGEX"
  | comment => "COMMENT"
  | whitespace => "WHITESPACE"
  | indent => "INDENT"
  | newline => "NEWLINE"
  | endOfFile => "EOF"

/-- All kinds. -/
def all : List Kind :=
  [identifier, classWord, defineWord, inheritsWord, variableName, quotedText, number, equals,
   fatArrow, leftBrace, rightBrace, leftBracket, rightBracket, leftParen, rightParen, lessThan,
   greaterThan, lessEqual, greaterEqual, notEqual, doubleEqual, bang, question, colon, comma,
   semicolon, atSign, plus, minus, star, slash, percent, ampersand, tilde, dot, pipe, regexMatch,
   regexNoMatch, inEdge, inEdgeSub, outEdge, outEdgeSub, leftCollect, rightCollect,
   leftDoubleCollect, rightDoubleCollect, regex, comment, whitespace, indent, newline,
   endOfFile]

/-- The kind with the given name. -/
def ofName? (s : String) : Option Kind := all.find? fun kind => kind.name == s

/-! ## Spaces and trivia -/

/-- White space, indents and line ends only keep other tokens apart. -/
def isSpace : Kind → Bool
  | whitespace | indent | newline => true
  | _ => false

/-- The spaces and the comments carry no code. -/
def isTrivia (kind : Kind) : Bool := kind.isSpace || kind == comment

theorem isTrivia_of_isSpace {kind : Kind} (h : kind.isSpace = true) : kind.isTrivia = true := by
  simp [isTrivia, h]

theorem isSpace_iff (kind : Kind) :
    kind.isSpace = true ↔ kind = whitespace ∨ kind = indent ∨ kind = newline := by
  cases kind <;> decide

end Kind

end ManifestLint
