import ManifestLint.Yaml.Cursor

set_option autoImplicit false

/-! # Scalars

The four ways a text is written in a document: plain, in single quotes, in double quotes, and as
a block of lines. In the first three a single line end between two words is a space, and each
further one is a line end of the text. Every reader gives the text and the cursor after it, or
nothing if the text is malformed. Their `fuel` bounds the number of lines or pieces and is never
smaller than the number of characters left. -/

namespace ManifestLint.Yaml.Scalar

/-- The line ends of a text for those of its writing: one is a space. -/
def foldBreaks (first : Char) (more : List Char) : List Char :=
  if first ≠ '\n' then first :: more else if more = [] then [' '] else more

/-! ## Plain text -/

/-- The characters that cannot stand in a plain text inside brackets. -/
def isFlowMark (c : Char) : Bool :=
  c == ',' || c == '?' || c == '[' || c == ']' || c == '\x7b' || c == '\x7d'

/-- Decides whether a colon before a character ends a plain text. -/
def endsKey (flow : Bool) (following : Option Char) : Bool :=
  endsWord following ||
    (flow && (following.map fun c => isFlowMark c && c != '?').getD false)

/-- The piece of plain text at the front, up to white space or a mark that ends it. -/
def plainPiece (flow : Bool) : List Char → List Char
  | [] => []
  | c :: cs =>
    if endsWord (some c) || (c == ':' && endsKey flow cs.head?) || (flow && isFlowMark c) then []
    else c :: plainPiece flow cs

/-- The line ends after a piece of plain text, blank lines included; nothing if a document
marker begins one of the lines. -/
def plainBreaks : Nat → Cursor → Option (List Char) × Cursor
  | 0, cur => (some [], cur)
  | fuel + 1, cur =>
    match cur.peek with
    | some c =>
      if c = ' ' then plainBreaks fuel cur.step
      else if isBreak c then
        if cur.step.atDocumentMarker then (none, cur.step)
        else
          let more := plainBreaks fuel cur.step
          (more.1.map (breakText c :: ·), more.2)
      else (some [], cur)
    | none => (some [], cur)

/-- The white space after a piece of plain text as it counts for the text, whether a line ended
in it, and the cursor after it. -/
def plainSpaces (cur : Cursor) : List Char × Bool × Cursor :=
  let blanks := cur.readWhile (· == ' ')
  match blanks.2.peek with
  | some c =>
    if isBreak c then
      let after := blanks.2.step
      if after.atDocumentMarker then ([], true, after)
      else
        match plainBreaks (after.rest.length + 1) after with
        | (some more, cur) => (foldBreaks (breakText c) more, true, cur)
        | (none, cur) => ([], true, cur)
    else (blanks.1, false, blanks.2)
  | none => (blanks.1, false, blanks.2)

/-- Reads plain text. `spaces` is the white space since the last piece. The second result tells
whether a line ended after the last piece. -/
def plain (flow : Bool) (indent : Int) :
    Nat → List Char → Bool → Cursor → List Char × Bool × Cursor
  | 0, _, ended, cur => ([], ended, cur)
  | fuel + 1, spaces, ended, cur =>
    let piece := if cur.peek = some '#' then [] else plainPiece flow cur.rest
    if piece = [] then ([], ended, cur)
    else
      let (more, ended, after) := plainSpaces (cur.skip piece.length)
      if more = [] ∨ after.peek = some '#' ∨ (!flow ∧ (after.column : Int) < indent) then
        (spaces ++ piece, ended, after)
      else
        let (text, ended, cur) := plain flow indent fuel more ended after
        (spaces ++ piece ++ text, ended, cur)

/-! ## Quoted text -/

/-- The character of a short escape. -/
def shortEscape? : Char → Option Char
  | '0' => some '\x00'
  | 'a' => some '\x07'
  | 'b' => some '\x08'
  | 't' | '\t' => some '\t'
  | 'n' => some '\n'
  | 'v' => some '\x0b'
  | 'f' => some '\x0c'
  | 'r' => some '\r'
  | 'e' => some '\x1b'
  | ' ' => some ' '
  | '"' => some '"'
  | '\\' => some '\\'
  | '/' => some '/'
  | 'N' => some '\u0085'
  | '_' => some '\u00a0'
  | 'L' => some '\u2028'
  | 'P' => some '\u2029'
  | _ => none

/-- The number of digits of a numeric escape. -/
def escapeDigits? : Char → Option Nat
  | 'x' => some 2
  | 'u' => some 4
  | 'U' => some 8
  | _ => none

/-- The value of a hexadecimal digit. -/
def hexValue? (c : Char) : Option Nat :=
  if '0' ≤ c ∧ c ≤ '9' then some (c.toNat - '0'.toNat)
  else if 'a' ≤ c ∧ c ≤ 'f' then some (c.toNat - 'a'.toNat + 10)
  else if 'A' ≤ c ∧ c ≤ 'F' then some (c.toNat - 'A'.toNat + 10)
  else none

/-- The number written by hexadecimal digits. -/
def hexNumber? (digits : List Char) : Option Nat :=
  digits.foldlM (fun n c => (hexValue? c).map (n * 16 + ·)) 0

/-- The line ends in the middle of a quoted text; a document marker must not begin a line. -/
def quotedBreaks : Nat → Cursor → Option (List Char × Cursor)
  | 0, _ => none
  | fuel + 1, cur =>
    if cur.atDocumentMarker then none
    else
      let cur := cur.skipWhile fun c => c == ' ' || c == '\t'
      match cur.peek with
      | some c =>
        if isBreak c then
          (quotedBreaks fuel cur.step).map fun more => (breakText c :: more.1, more.2)
        else some ([], cur)
      | none => some ([], cur)

/-- The part of a double-quoted text that a backslash begins; the cursor is after the
backslash. -/
def escape (cur : Cursor) : Option (List Char × Cursor) :=
  match cur.peek with
  | none => none
  | some c =>
    match shortEscape? c, escapeDigits? c with
    | some d, _ => some ([d], cur.step)
    | none, some n =>
      let digits := cur.step.rest.take n
      if digits.length = n then
        (hexNumber? digits).bind fun code =>
          if code.isValidChar then some ([Char.ofNat code], (cur.step).skip n) else none
      else none
    | none, none =>
      if isBreak c then quotedBreaks (cur.rest.length + 1) cur.step else none

/-- Reads the rest of a quoted text, whose opening quote has been read. -/
def quoted (double : Bool) : Nat → Cursor → Option (List Char × Cursor)
  | 0, _ => none
  | fuel + 1, cur =>
    let again (text : List Char) (cur : Cursor) : Option (List Char × Cursor) :=
      (quoted double fuel cur).map fun more => (text ++ more.1, more.2)
    match cur.peek with
    | none => none
    | some c =>
      if c = '\'' ∧ !double then
        if cur.peekAt 1 = some '\'' then again [c] (cur.skip 2) else some ([], cur.step)
      else if c = '"' ∧ double then some ([], cur.step)
      else if c = '\\' ∧ double then (escape cur.step).bind fun part => again part.1 part.2
      else if c = ' ' ∨ c = '\t' ∨ isBreak c then
        let blanks := cur.readWhile fun d => d == ' ' || d == '\t'
        match blanks.2.peek with
        | none => none
        | some d =>
          if isBreak d then
            (quotedBreaks (cur.rest.length + 1) blanks.2.step).bind fun more =>
              again (foldBreaks (breakText d) more.1) more.2
          else again blanks.1 blanks.2
      else again [c] cur.step

/-! ## Blocks of lines -/

/-- What becomes of the line ends at the end of a block. -/
inductive Chomp where
  /-- One is kept. -/
  | clip
  /-- None is kept. -/
  | strip
  /-- All are kept. -/
  | keep
deriving DecidableEq, Repr

/-- The chomping sign at the cursor. -/
def chompSign? (cur : Cursor) : Option Chomp :=
  match cur.peek with
  | some '+' => some .keep
  | some '-' => some .strip
  | _ => none

/-- The indentation digit at the cursor. -/
def indentDigit? (cur : Cursor) : Option Nat :=
  (cur.peek).bind fun c => if '0' ≤ c ∧ c ≤ '9' then hexValue? c else none

/-- Reads what stands behind the sign of a block: how it is chomped and how far it is indented,
in either order. -/
def blockHeader (cur : Cursor) : Option (Chomp × Option Nat × Cursor) :=
  let (chomp, indent, cur) : Chomp × Option Nat × Cursor :=
    match chompSign? cur with
    | some chomp =>
      match indentDigit? cur.step with
      | some n => (chomp, some n, cur.step.step)
      | none => (chomp, none, cur.step)
    | none =>
      match indentDigit? cur with
      | some n =>
        match chompSign? cur.step with
        | some chomp => (chomp, some n, cur.step.step)
        | none => (.clip, some n, cur.step)
      | none => (.clip, none, cur)
  if indent = some 0 then none
  else if cur.peek = some ' ' ∨ endsLine cur.peek then
    let cur := cur.skipWhile (· == ' ')
    let cur := if cur.peek = some '#' then cur.skipWhile fun c => !isBreak c else cur
    if endsLine cur.peek then some (chomp, indent, cur.step) else none
  else none

/-- The line ends and spaces before the first line of a block, and the widest indent among
them. -/
def blockIndent : Nat → Nat → Cursor → List Char × Nat × Cursor
  | 0, widest, cur => ([], widest, cur)
  | fuel + 1, widest, cur =>
    match cur.peek with
    | some c =>
      if c = ' ' then blockIndent fuel (max widest cur.step.column) cur.step
      else if isBreak c then
        let (more, widest, cur) := blockIndent fuel widest cur.step
        (breakText c :: more, widest, cur)
      else ([], widest, cur)
    | none => ([], widest, cur)

/-- The cursor after at most `n` spaces. -/
def skipSpaces (cur : Cursor) : Nat → Cursor
  | 0 => cur
  | n + 1 => if cur.peek = some ' ' then skipSpaces cur.step n else cur

/-- The line ends between two lines of a block, with the indent of the next line passed over. -/
def blockBreaks (indent : Nat) : Nat → Cursor → List Char × Cursor
  | 0, cur => ([], cur)
  | fuel + 1, cur =>
    let cur := skipSpaces cur (indent - cur.column)
    match cur.peek with
    | some c =>
      if isBreak c then
        let more := blockBreaks indent fuel cur.step
        (breakText c :: more.1, more.2)
      else ([], cur)
    | none => ([], cur)

/-- Decides whether a line begins with white space. -/
def startsBlank (cur : Cursor) : Bool := cur.peek == some ' ' || cur.peek == some '\t'

/-- Reads the lines of a block. `breaks` are the line ends since the last line. -/
def blockLines (folded : Bool) (chomp : Chomp) (indent : Nat) :
    Nat → List Char → Cursor → List Char × Cursor
  | 0, _, cur => ([], cur)
  | fuel + 1, breaks, cur =>
    let solid := !startsBlank cur
    let line := cur.readWhile fun c => !isBreak c
    let lineEnd : List Char := (line.2.peek.map breakText).toList
    let (more, after) := blockBreaks indent (line.2.rest.length + 1) line.2.step
    if after.column = indent ∧ after.peek.isSome then
      let joint :=
        if folded ∧ lineEnd = ['\n'] ∧ solid ∧ !startsBlank after then
          if more = [] then [' '] else []
        else lineEnd
      let (text, cur) := blockLines folded chomp indent fuel more after
      (breaks ++ line.1 ++ joint ++ text, cur)
    else
      let tail :=
        match chomp with
        | .strip => []
        | .clip => lineEnd
        | .keep => lineEnd ++ more
      (breaks ++ line.1 ++ tail, after)

/-- Reads a block of lines whose sign has been read; `outer` is the indent around it. -/
def block (folded : Bool) (outer : Int) (cur : Cursor) : Option (List Char × Cursor) :=
  (blockHeader cur).map fun (chomp, increment, cur) =>
    let least := (max (outer + 1) 1).toNat
    let fuel := cur.rest.length + 1
    let (breaks, indent, cur) : List Char × Nat × Cursor :=
      match increment with
      | none =>
        let (breaks, widest, cur) := blockIndent fuel 0 cur
        (breaks, max least widest, cur)
      | some n =>
        let indent := least + n - 1
        let (breaks, cur) := blockBreaks indent fuel cur
        (breaks, indent, cur)
    if cur.column = indent ∧ cur.peek.isSome then
      blockLines folded chomp indent fuel breaks cur
    else if chomp = .keep then (breaks, cur)
    else ([], cur)

end ManifestLint.Yaml.Scalar
