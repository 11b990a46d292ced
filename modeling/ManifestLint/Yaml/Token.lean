import ManifestLint.Yaml.Scalar

set_option autoImplicit false

/-! # Tokens of a document

A document is first cut into tokens: signs, names, scalars, and the marks for the beginning and
end of a block, which stand for changes of indentation.

That a scalar is a key is noticed only at the colon after it. Whatever can be a key is therefore
remembered as a *candidate* together with its place among the tokens, one for each level of
brackets, and when the colon comes the key mark is put in front of it. A candidate is dropped
when its line ends. One that stands where only a key can stand is *required*, and dropping it is
an error. -/

namespace ManifestLint.Yaml

/-- A token of a document. -/
inductive Token where
  | documentStart
  | documentEnd
  | sequenceStart
  | mappingStart
  | blockEnd
  | flowSequenceStart
  | flowSequenceEnd
  | flowMappingStart
  | flowMappingEnd
  | entry
  | flowEntry
  | key
  | value
  | reference (name : List Char)
  | anchor (name : List Char)
  | scalar (plain : Bool) (text : List Char)
deriving DecidableEq, Repr

/-- Something that is a key if a colon follows. -/
structure Candidate where
  /-- The level of brackets it stands at. -/
  level : Nat
  /-- The number of tokens before it. -/
  place : Nat
  required : Bool
  index : Nat
  line : Nat
  column : Nat
deriving Repr

/-- The state of cutting a document into tokens. -/
structure Scanner where
  cursor : Cursor
  tokens : Array Token
  /-- The number of brackets that are open. -/
  level : Nat
  /-- The column of the innermost block, or minus one. -/
  indent : Int
  /-- The columns of the blocks around it. -/
  outer : List Int
  candidates : List Candidate
  /-- A key may begin here. -/
  keyAllowed : Bool

namespace Scanner

/-- The beginning of a document. -/
def start (cs : List Char) : Scanner :=
  let cursor := Cursor.start cs
  ⟨if cursor.peek = some byteOrderMark then cursor.step else cursor, #[], 0, -1, [], [], true⟩

/-- The scanner with a token more. -/
def push (s : Scanner) (token : Token) : Scanner := { s with tokens := s.tokens.push token }

/-- The scanner with a token more that is as many characters long. -/
def pushOver (s : Scanner) (token : Token) (length : Nat) : Scanner :=
  { s with tokens := s.tokens.push token, cursor := s.cursor.skip length }

/-- The scanner with a token put between those it has. -/
def pushAt (s : Scanner) (place : Nat) (token : Token) : Scanner :=
  { s with tokens := s.tokens.toList.insertIdx place token |>.toArray }

/-! ## Candidates for keys -/

/-- Drops the candidates that cannot be keys any more. -/
def dropStale (s : Scanner) : Option Scanner :=
  let isStale (c : Candidate) : Bool :=
    c.line != s.cursor.line || decide (1024 < s.cursor.index - c.index)
  if s.candidates.any fun c => isStale c && c.required then none
  else some { s with candidates := s.candidates.filter fun c => !isStale c }

/-- Drops the candidate at the present level. -/
def dropCandidate (s : Scanner) : Option Scanner :=
  if s.candidates.any fun c => c.level == s.level && c.required then none
  else some { s with candidates := s.candidates.filter fun c => c.level != s.level }

/-- Remembers a candidate that begins here, if a key may begin here. -/
def saveCandidate (s : Scanner) : Option Scanner :=
  if s.keyAllowed then do
    let s ← s.dropCandidate
    let candidate : Candidate :=
      ⟨s.level, s.tokens.size, s.level == 0 && s.indent == s.cursor.column, s.cursor.index,
        s.cursor.line, s.cursor.column⟩
    return { s with candidates := candidate :: s.candidates }
  else some s

/-! ## Indentation -/

/-- Closes the blocks that are further in than a column. -/
def unwindFrom (column : Int) : Nat → Scanner → Scanner
  | 0, s => s
  | fuel + 1, s =>
    if column < s.indent then
      match s.outer with
      | [] => { s with indent := -1 }
      | indent :: rest =>
        unwindFrom column fuel ({ s with indent := indent, outer := rest }.push .blockEnd)
    else s

/-- Closes the blocks that are further in than a column; inside brackets indentation does not
count. -/
def unwind (s : Scanner) (column : Int) : Scanner :=
  if s.level = 0 then unwindFrom column (s.outer.length + 1) s else s

/-- Opens a block at a column if it is further in than the present one; the mark for it goes
where it is told. -/
def indentTo (s : Scanner) (column : Nat) (mark : Scanner → Scanner) : Scanner :=
  if s.indent < column then
    mark { s with outer := s.indent :: s.outer, indent := column }
  else s

/-! ## White space between tokens -/

/-- Passes over spaces, comments and line ends; after a line end a key may begin, except inside
brackets. -/
def toNextToken : Nat → Scanner → Scanner
  | 0, s => s
  | fuel + 1, s =>
    let cursor := s.cursor.skipWhile (· == ' ')
    let cursor :=
      if cursor.peek = some '#' then cursor.skipWhile fun c => !isBreak c else cursor
    match cursor.peek with
    | some c =>
      if isBreak c then
        toNextToken fuel
          { s with cursor := cursor.step, keyAllowed := s.keyAllowed || s.level == 0 }
      else { s with cursor := cursor }
    | none => { s with cursor := cursor }

/-! ## Signs -/

/-- A marker that begins or ends a document. -/
def marker (s : Scanner) (token : Token) : Option Scanner := do
  let s ← (s.unwind (-1)).dropCandidate
  return { s with keyAllowed := false }.pushOver token 3

/-- An opening bracket. -/
def openFlow (s : Scanner) (token : Token) : Option Scanner := do
  let s ← s.saveCandidate
  return { s with level := s.level + 1, keyAllowed := true }.pushOver token 1

/-- A closing bracket; one that closes nothing is an error. -/
def closeFlow (s : Scanner) (token : Token) : Option Scanner := do
  let s ← s.dropCandidate
  if s.level = 0 then none
  else return { s with level := s.level - 1, keyAllowed := false }.pushOver token 1

/-- A comma. -/
def comma (s : Scanner) : Option Scanner := do
  let s ← s.dropCandidate
  return { s with keyAllowed := true }.pushOver .flowEntry 1

/-- The hyphen of a sequence entry. -/
def hyphen (s : Scanner) : Option Scanner := do
  let s ←
    if s.level = 0 then
      if s.keyAllowed then some (s.indentTo s.cursor.column (·.push .sequenceStart)) else none
    else some s
  let s ← s.dropCandidate
  return { s with keyAllowed := true }.pushOver .entry 1

/-- The question mark of a key. -/
def questionMark (s : Scanner) : Option Scanner := do
  let s ←
    if s.level = 0 then
      if s.keyAllowed then some (s.indentTo s.cursor.column (·.push .mappingStart)) else none
    else some s
  let s ← s.dropCandidate
  return { s with keyAllowed := s.level == 0 }.pushOver .key 1

/-- The colon of a value. If a candidate stands at this level it is the key; otherwise the key
is missing, or was begun by a question mark. -/
def colon (s : Scanner) : Option Scanner :=
  match s.candidates.find? fun c => c.level == s.level with
  | some c =>
    let s := { s with candidates := s.candidates.filter fun d => d.level != s.level }
    let s := s.pushAt c.place .key
    let s := if s.level = 0 then s.indentTo c.column (·.pushAt c.place .mappingStart) else s
    some ({ s with keyAllowed := false }.pushOver .value 1)
  | none => do
    let s ←
      if s.level = 0 then
        if s.keyAllowed then some (s.indentTo s.cursor.column (·.push .mappingStart)) else none
      else some s
    let s ← { s with keyAllowed := s.level == 0 }.dropCandidate
    return s.pushOver .value 1

/-! ## Names and scalars -/

/-- Decides whether a character can stand in the name of an anchor. -/
def isNameChar (c : Char) : Bool := c.isAlphanum || c == '-' || c == '_'

/-- Decides whether the name of an anchor ends before a character. -/
def endsName : Option Char → Bool
  | none => true
  | some c =>
    endsWord (some c) || c == '?' || c == ':' || c == ',' || c == ']' || c == '\x7d' ||
      c == '%' || c == '@' || c == '\x60'

/-- An anchor or a reference to one. -/
def named (s : Scanner) (token : List Char → Token) : Option Scanner := do
  let s ← s.saveCandidate
  let name := s.cursor.step.readWhile isNameChar
  if name.1 = [] ∨ !endsName name.2.peek then none
  else return { s with cursor := name.2, keyAllowed := false }.push (token name.1)

/-- A scalar in quotes. -/
def quotedScalar (s : Scanner) (double : Bool) : Option Scanner := do
  let s ← s.saveCandidate
  let (text, cursor) ← Scalar.quoted double (s.cursor.rest.length + 1) s.cursor.step
  return { s with cursor := cursor, keyAllowed := false }.push (.scalar false text)

/-- A scalar that is a block of lines. -/
def blockScalar (s : Scanner) (folded : Bool) : Option Scanner := do
  let s ← { s with keyAllowed := true }.dropCandidate
  let (text, cursor) ← Scalar.block folded s.indent s.cursor.step
  return { s with cursor := cursor }.push (.scalar false text)

/-- A plain scalar. -/
def plainScalar (s : Scanner) : Option Scanner := do
  let s ← s.saveCandidate
  let (text, ended, cursor) :=
    Scalar.plain (s.level != 0) (s.indent + 1) (s.cursor.rest.length + 1) [] false s.cursor
  return { s with cursor := cursor, keyAllowed := ended }.push (.scalar true text)

/-- Decides whether a plain scalar can begin with a character. -/
def startsPlain (s : Scanner) (c : Char) : Bool :=
  let special := endsWord (some c) ||
    ['-', '?', ':', ',', '[', ']', '\x7b', '\x7d', '#', '&', '*', '!', '|', '>', '\'', '"', '%',
      '@', '\x60'].contains c
  !special ||
    (!endsWord (s.cursor.peekAt 1) &&
      (c == '-' || (s.level == 0 && (c == '?' || c == ':'))))

/-! ## The whole document -/

/-- Reads the token that begins with the character `c` at the cursor. -/
def scanAt (s : Scanner) (c : Char) : Option Scanner :=
  let spaced := endsWord (s.cursor.peekAt 1)
  let flow := s.level != 0
  if c = '%' ∧ s.cursor.column = 0 then none
  else if s.cursor.column = 0 ∧ s.cursor.atMarker '-' then s.marker .documentStart
  else if s.cursor.column = 0 ∧ s.cursor.atMarker '.' then s.marker .documentEnd
  else if c = '[' then s.openFlow .flowSequenceStart
  else if c = '\x7b' then s.openFlow .flowMappingStart
  else if c = ']' then s.closeFlow .flowSequenceEnd
  else if c = '\x7d' then s.closeFlow .flowMappingEnd
  else if c = ',' then s.comma
  else if c = '-' ∧ spaced then s.hyphen
  else if c = '?' ∧ (flow || spaced) then s.questionMark
  else if c = ':' ∧ (flow || spaced) then s.colon
  else if c = '*' then s.named .reference
  else if c = '&' then s.named .anchor
  else if c = '|' ∧ !flow then s.blockScalar false
  else if c = '>' ∧ !flow then s.blockScalar true
  else if c = '\'' then s.quotedScalar false
  else if c = '"' then s.quotedScalar true
  else if s.startsPlain c then s.plainScalar
  else none

/-- Reads tokens to the end of the document. -/
def scanAll : Nat → Scanner → Option Scanner
  | 0, _ => none
  | fuel + 1, s => do
    let s ← (toNextToken (s.cursor.rest.length + 1) s).dropStale
    let s := s.unwind s.cursor.column
    match s.cursor.peek with
    | none => (s.unwind (-1)).dropCandidate
    | some c => scanAll fuel (← s.scanAt c)

end Scanner

/-- The tokens of a document, or nothing if it cannot be cut into tokens. -/
def Token.ofDocument? (cs : List Char) : Option (List Token) :=
  (Scanner.scanAll (cs.length + 2) (.start cs)).map fun s => s.tokens.toList

end ManifestLint.Yaml
