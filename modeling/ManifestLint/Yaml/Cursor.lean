set_option autoImplicit false

/-! # Reading position in a document

A cursor is what is left of a document together with where it stands: how many characters were
read, and the line and column, both counted from zero. Four characters end a line. A byte order
mark takes no column. -/

namespace ManifestLint.Yaml

/-- Decides whether a character ends a line. -/
def isBreak (c : Char) : Bool :=
  c == '\n' || c == '\u0085' || c == '\u2028' || c == '\u2029'

/-- The line end that a break stands for in a text that spans lines. -/
def breakText (c : Char) : Char := if c = '\u0085' then '\n' else c

/-- The byte order mark. -/
def byteOrderMark : Char := '\ufeff'

/-- Decides whether a word ends before a character: at white space, a line end, or the end of
the document. -/
def endsWord : Option Char → Bool
  | none => true
  | some c => c == ' ' || c == '\t' || isBreak c

/-- Decides whether a line ends before a character. -/
def endsLine : Option Char → Bool
  | none => true
  | some c => isBreak c

/-- What is left of a document and where it stands. -/
structure Cursor where
  rest : List Char
  index : Nat
  line : Nat
  column : Nat
deriving Repr, Inhabited

namespace Cursor

/-- The beginning of a document. -/
def start (cs : List Char) : Cursor := ⟨cs, 0, 0, 0⟩

/-- The next character. -/
def peek (cur : Cursor) : Option Char := cur.rest.head?

/-- The character after `n` others. -/
def peekAt (cur : Cursor) (n : Nat) : Option Char := cur.rest[n]?

/-- The cursor after the next character. -/
def step (cur : Cursor) : Cursor :=
  match cur.rest with
  | [] => cur
  | c :: cs =>
    if isBreak c then ⟨cs, cur.index + 1, cur.line + 1, 0⟩
    else ⟨cs, cur.index + 1, cur.line, if c = byteOrderMark then cur.column else cur.column + 1⟩

/-- The cursor after the next `n` characters. -/
def skip (cur : Cursor) : Nat → Cursor
  | 0 => cur
  | n + 1 => cur.step.skip n

/-- The characters up to the first that does not satisfy `p`, and the cursor there. -/
def readWhile (p : Char → Bool) (cur : Cursor) : List Char × Cursor :=
  let taken := cur.rest.takeWhile p
  (taken, cur.skip taken.length)

/-- The cursor after the characters that satisfy `p`. -/
def skipWhile (p : Char → Bool) (cur : Cursor) : Cursor := (cur.readWhile p).2

/-- Decides whether the three characters of a document marker stand here as a word. -/
def atMarker (cur : Cursor) (c : Char) : Bool :=
  cur.rest.take 3 == [c, c, c] && endsWord (cur.peekAt 3)

/-- Decides whether a marker that begins or ends a document stands here. -/
def atDocumentMarker (cur : Cursor) : Bool := cur.atMarker '-' || cur.atMarker '.'

/-- The line ends that follow, with the white space characters satisfying `p` before and between
them passed over. -/
def breaks (p : Char → Bool) : Nat → Cursor → List Char × Cursor
  | 0, cur => ([], cur)
  | fuel + 1, cur =>
    let cur := cur.skipWhile p
    match cur.peek with
    | some c =>
      if isBreak c then
        let more := breaks p fuel cur.step
        (breakText c :: more.1, more.2)
      else ([], cur)
    | none => ([], cur)

end Cursor

end ManifestLint.Yaml
