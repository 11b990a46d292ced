import ManifestLint.Token.Lexeme
import ManifestLint.Token.Operator
import ManifestLint.Token.Span

set_option autoImplicit false

/-! # Scanning one token

`scan` reads the token at the front of a text. What it reads depends on two facts about the
text before, kept in a `Context`: whether a line begins here, which turns blanks into an
indent, and whether the last code token allows a slash to open a regular expression.

The main statement is `scan_append`: the token that was read and the rest, put together, are
the text that was given. As a token is never empty (`scan_ne_nil`), the rest is shorter. -/

namespace ManifestLint

/-! ## Context -/

/-- What the text before a token tells about reading it. -/
structure Context where
  /-- The token is the first of its line. -/
  atLineStart : Bool
  /-- A slash may open a regular expression. -/
  regexAllowed : Bool
deriving DecidableEq, Repr, Inhabited

/-- The context at the beginning of a source. -/
def Context.start : Context := ⟨true, true⟩

/-- The word `node`, after which a pattern of host names may follow. -/
def nodeWord : List Char := ['n', 'o', 'd', 'e']

/-- After these code tokens a slash may open a regular expression. -/
def allowsRegexAfter (kind : Kind) (text : List Char) : Bool :=
  match kind with
  | .regexMatch | .regexNoMatch | .comma | .leftBracket | .leftParen | .leftBrace
  | .rightBrace => true
  | .identifier => text == nodeWord
  | _ => false

/-! ## Tokens as they are scanned -/

/-- A token at the front of a text, and what is left after it. -/
structure Scanned where
  kind : Kind
  text : List Char
  rest : List Char
deriving DecidableEq, Repr

/-- The context after a token: a line begins after a line end only, and trivia leave the last
code token as it was. -/
def Context.after (context : Context) (kind : Kind) (text : List Char) : Context :=
  ⟨kind == .newline,
   if kind.isTrivia then context.regexAllowed else allowsRegexAfter kind text⟩

/-- The token `first` followed by the first part of a split. -/
def Scanned.ofSplit (kind : Kind) (first : List Char) (split : List Char × List Char) :
    Scanned :=
  ⟨kind, first ++ split.1, split.2⟩

/-- The kind of a name: a keyword or an identifier. -/
def wordKind (text : List Char) : Kind :=
  if text = ['c', 'l', 'a', 's', 's'] then .classWord
  else if text = ['d', 'e', 'f', 'i', 'n', 'e'] then .defineWord
  else if text = ['i', 'n', 'h', 'e', 'r', 'i', 't', 's'] then .inheritsWord
  else .identifier

/-- A word: the longest name at the front of `c :: cs`. -/
def scanWord (c : Char) (cs : List Char) : Scanned :=
  let split := Span.name (c :: cs)
  ⟨wordKind split.1, split.1, split.2⟩

/-- After a minus sign: a digit makes a number and a closing angle an arrow. -/
def scanMinus (cs : List Char) : Scanned :=
  match cs with
  | [] => ⟨.minus, ['-'], []⟩
  | d :: rest =>
    if Text.isDigit d then .ofSplit .number ['-'] (Span.number (d :: rest))
    else if d = '>' then ⟨.inEdge, ['-', d], rest⟩
    else ⟨.minus, ['-'], d :: rest⟩

/-- A regular expression whose opening slash has been read, if it is closed on its line. -/
def scanRegex? (context : Context) (cs : List Char) : Option Scanned :=
  if context.regexAllowed then
    (Span.regexTail cs).map fun split => .ofSplit .regex ['/'] split
  else none

/-- Names, top-scope names, and operators, which are tried last. -/
def scanWordOrOperator (c : Char) (cs : List Char) : Except LexFault Scanned :=
  if c = ':' ∧ cs.head? = some ':' then
    .ok (.ofSplit .identifier (c :: cs.take 1) (Span.name (cs.drop 1)))
  else if Span.startsName c then .ok (scanWord c cs)
  else
    match operatorAt? (c :: cs) with
    | some (text, kind) => .ok ⟨kind, text, (c :: cs).drop text.length⟩
    | none => .error (.unexpected c)

/-- The token at the front of `c :: cs`, or why there is none. -/
def scan (context : Context) (c : Char) (cs : List Char) : Except LexFault Scanned :=
  if Span.startsBlank c cs then
    .ok (.ofSplit (if context.atLineStart then .indent else .whitespace) [] (Span.blanks (c :: cs)))
  else if c = '\n' then .ok ⟨.newline, [c], cs⟩
  else if c = '\r' then .ok ⟨.newline, c :: cs.take 1, cs.drop 1⟩
  else if c = '#' then .ok (.ofSplit .comment [] (Span.comment (c :: cs)))
  else if c = '"' ∨ c = '\'' then
    match Span.quotedTail c cs with
    | some split => .ok (.ofSplit .quotedText [c] split)
    | none => .error .unterminatedText
  else if c = '$' then .ok (.ofSplit .variableName [c] (Span.name cs))
  else if c = '-' then .ok (scanMinus cs)
  else if Text.isDigit c then .ok (.ofSplit .number [] (Span.number (c :: cs)))
  else if c = '/' then
    match scanRegex? context cs with
    | some scanned => .ok scanned
    | none => scanWordOrOperator c cs
  else scanWordOrOperator c cs

/-! ## Nothing is lost -/

theorem Scanned.ofSplit_append {kind : Kind} {first cs : List Char}
    {split : List Char × List Char} (h : split.1 ++ split.2 = cs) :
    (Scanned.ofSplit kind first split).text ++ (Scanned.ofSplit kind first split).rest =
      first ++ cs := by
  simp [ofSplit, h]

theorem scanMinus_append (cs : List Char) :
    (scanMinus cs).text ++ (scanMinus cs).rest = '-' :: cs := by
  unfold scanMinus
  split
  · rfl
  · rename_i d rest
    split
    · exact Scanned.ofSplit_append (Span.number_append (d :: rest))
    · split <;> rfl

theorem scanRegex?_append {context : Context} {cs : List Char} {s : Scanned}
    (h : scanRegex? context cs = some s) : s.text ++ s.rest = '/' :: cs := by
  unfold scanRegex? at h
  split at h
  · obtain ⟨split, hs, rfl⟩ := Option.map_eq_some_iff.1 h
    exact Scanned.ofSplit_append (Span.regexTail_append hs)
  · simp at h

theorem scanWordOrOperator_append {c : Char} {cs : List Char} {s : Scanned}
    (h : scanWordOrOperator c cs = .ok s) : s.text ++ s.rest = c :: cs := by
  unfold scanWordOrOperator at h
  split at h
  · cases h
    rw [Scanned.ofSplit_append (Span.name_append (cs.drop 1)), List.cons_append,
      List.take_append_drop]
  · split at h
    · cases h
      exact Span.name_append (c :: cs)
    · split at h
      · rename_i text kind hop
        cases h
        obtain ⟨rest, hr⟩ := operatorAt?_isPrefix hop
        simp [← hr]
      · simp at h

theorem scan_append {context : Context} {c : Char} {cs : List Char} {s : Scanned}
    (h : scan context c cs = .ok s) : s.text ++ s.rest = c :: cs := by
  unfold scan at h
  split at h
  · cases h
    exact Scanned.ofSplit_append (Span.blanks_append (c :: cs))
  split at h
  · cases h
    rfl
  split at h
  · cases h
    simp only [List.cons_append, List.take_append_drop]
  split at h
  · cases h
    exact Scanned.ofSplit_append (Span.comment_append (c :: cs))
  split at h
  · split at h
    · rename_i hs
      cases h
      exact Scanned.ofSplit_append (Span.quotedTail_append hs)
    · simp at h
  split at h
  · cases h
    exact Scanned.ofSplit_append (Span.name_append cs)
  split at h
  · rename_i hm
    cases h
    subst hm
    exact scanMinus_append cs
  split at h
  · cases h
    exact Scanned.ofSplit_append (Span.number_append (c :: cs))
  split at h
  · rename_i hslash
    split at h
    · rename_i hs
      cases h
      subst hslash
      exact scanRegex?_append hs
    · exact scanWordOrOperator_append h
  · exact scanWordOrOperator_append h

/-! ## No token is empty -/

theorem blanks_ne_nil {c : Char} {cs : List Char} (h : Span.startsBlank c cs = true) :
    (Span.blanks (c :: cs)).1 ≠ [] := by
  simp [Span.blanks, h]

theorem name_ne_nil {c : Char} {cs : List Char} (h : Span.continuesName c = true) :
    (Span.name (c :: cs)).1 ≠ [] := by
  unfold Span.name
  simp [h]

theorem continuesName_of_startsName {c : Char} (h : Span.startsName c = true) :
    Span.continuesName c = true := by
  simp only [Span.startsName, Bool.or_eq_true] at h
  rcases h with h | h <;> simp [Span.continuesName, h]

theorem run_ne_nil {p : Char → Bool} {c : Char} (cs : List Char) (h : p c = true) :
    (Span.run p (c :: cs)).1 ≠ [] := by
  simp [Span.run, h]

theorem number_ne_nil {c : Char} {cs : List Char} (h : Text.isDigit c = true) :
    (Span.number (c :: cs)).1 ≠ [] := by
  have hw := run_ne_nil cs h
  unfold Span.number
  simp only
  split
  · split
    · simp
    · exact hw
  · exact hw

theorem scanWordOrOperator_ne_nil {c : Char} {cs : List Char} {s : Scanned}
    (h : scanWordOrOperator c cs = .ok s) : s.text ≠ [] := by
  unfold scanWordOrOperator at h
  split at h
  · cases h
    simp [Scanned.ofSplit]
  · split at h
    · rename_i hstart
      cases h
      exact name_ne_nil (continuesName_of_startsName hstart)
    · split at h
      · rename_i hop
        cases h
        exact operatorAt?_ne_nil hop
      · simp at h

theorem scan_ne_nil {context : Context} {c : Char} {cs : List Char} {s : Scanned}
    (h : scan context c cs = .ok s) : s.text ≠ [] := by
  unfold scan at h
  split at h
  · rename_i hb
    cases h
    simpa [Scanned.ofSplit] using blanks_ne_nil hb
  split at h
  · cases h
    simp
  split at h
  · cases h
    simp
  split at h
  · rename_i hc
    cases h
    subst hc
    simp [Scanned.ofSplit, Span.comment, Span.run]
  split at h
  · split at h
    · cases h
      simp [Scanned.ofSplit]
    · simp at h
  split at h
  · cases h
    simp [Scanned.ofSplit]
  split at h
  · cases h
    unfold scanMinus
    split
    · simp
    · split
      · simp [Scanned.ofSplit]
      · split <;> simp
  split at h
  · rename_i hd
    cases h
    simpa [Scanned.ofSplit] using number_ne_nil hd
  split at h
  · split at h
    · rename_i hs
      cases h
      unfold scanRegex? at hs
      split at hs
      · obtain ⟨split, _, rfl⟩ := Option.map_eq_some_iff.1 hs
        simp [Scanned.ofSplit]
      · simp at hs
    · exact scanWordOrOperator_ne_nil h
  · exact scanWordOrOperator_ne_nil h

theorem scan_rest_length {context : Context} {c : Char} {cs : List Char} {s : Scanned}
    (h : scan context c cs = .ok s) : s.rest.length < (c :: cs).length := by
  have happ := congrArg List.length (scan_append h)
  have hpos := List.length_pos_iff.2 (scan_ne_nil h)
  simp only [List.length_append, List.length_cons] at happ
  simp only [List.length_cons]
  omega

end ManifestLint
