import ManifestLint.Rule.Basic
import ManifestLint.Rule.Spacing

set_option autoImplicit false

/-! # White space around opening braces

Two rules. *Before* an opening brace and after the code in front of it stands exactly one space,
unless that code is an opening bracket or brace, a colon, a comma or a comment. *After* an
opening brace stands exactly one space or exactly one line end, unless a bracket or brace opens
or the block closes at once. -/

namespace ManifestLint.OpeningBrace

/-! ## Before the brace -/

/-- The name of the rule on the space before a brace. -/
def beforeName : String := "manifest_whitespace_opening_brace_before"

/-- What the rule on the space before a brace reports. -/
def beforeMessage : String := "there should be a single space before an opening brace"

/-- A brace directly after one of these needs no space. -/
def beforeExempt : Kind → Bool
  | .leftBracket | .leftBrace | .colon | .comma | .comment => true
  | _ => false

/-- The finding at one brace, if the space before it is not as it should be. -/
def checkBeforeAt (brace : TokenId) : Edit (Option Finding) := do
  let previous ← Edit.prev brace
  let code ← Edit.prevNonSpace brace
  match previous, code with
  | some _, some c =>
    if beforeExempt (← Edit.token c).kind then return none
    else
      let i ← Edit.index c
      let j ← Edit.index brace
      if i + 2 == j && (← Edit.isSingleSpace previous) then return none
      else return some (← Edit.findingAt beforeName brace beforeMessage .error)
  | _, _ => return none

/-- The findings at all opening braces. -/
def checkBefore : Edit (List Finding) := do
  Edit.collect checkBeforeAt (← Edit.ofKinds [.leftBrace])

/-- Leaves one space between a brace and the code before it. -/
def fixBefore (finding : Finding) : Edit Unit := do
  let brace ← Edit.anchor finding
  let previous ← Edit.prev brace
  let code ← Edit.prevNonSpace brace
  let spaces ← Edit.spacesUntil Edit.prev .unexpectedBeforeBrace code
    ((← get).stream.size + 1) previous
  Edit.removeAll spaces
  Edit.insertSpaceBefore brace

/-! ## After the brace -/

/-- The name of the rule on what follows a brace. -/
def afterName : String := "manifest_whitespace_opening_brace_after"

/-- What the rule on what follows a brace reports. -/
def afterMessage : String :=
  "there should be a single space or single newline after an opening brace"

/-- Directly after a brace these need no space. -/
def afterExempt : Kind → Bool
  | .leftBracket | .leftBrace | .rightBrace => true
  | _ => false

/-- The finding after one brace, if what follows it is not as it should be. One line end opens a
block of several lines; a second one makes a blank line and is what is reported. -/
def checkAfterAt (brace : TokenId) : Edit (Option Finding) := do
  match ← Edit.next brace with
  | none => return none
  | some following =>
    if ← Edit.isSingleSpace (some following) then return none
    else
      let kind := (← Edit.token following).kind
      if afterExempt kind then return none
      else if kind = .newline then
        match ← Edit.next following with
        | none => return none
        | some second =>
          if (← Edit.token second).kind = .newline then
            return some (← Edit.findingAt afterName second afterMessage .error)
          else return none
      else return some (← Edit.findingAt afterName following afterMessage .error)

/-- The findings after all opening braces. -/
def checkAfter : Edit (List Finding) := do
  Edit.collect checkAfterAt (← Edit.ofKinds [.leftBrace])

/-- Takes line ends out of the stream from `current` on, as many as follow one another. -/
def removeNewlines : Nat → Option TokenId → Edit Unit
  | _, none => return
  | fuel, some t => do
    if (← Edit.token t).kind = .newline then
      match fuel with
      | 0 => throw .endlessWalk
      | fuel + 1 =>
        let following ← Edit.next t
        let _ ← Edit.remove t
        removeNewlines fuel following
    else return

/-- Makes white space after a brace one space, drops the line ends of blank lines, and puts a
space before anything else. -/
def fixAfter (finding : Finding) : Edit Unit := do
  let t ← Edit.anchor finding
  match (← Edit.token t).kind with
  | .whitespace => Edit.setValue t " "
  | .newline => removeNewlines ((← get).stream.size + 1) (some t)
  | _ => Edit.insertSpaceBefore t

/-! ## The rules -/

/-- The rule on the space before an opening brace. -/
def beforeRule : Rule := ⟨beforeName, checkBefore, some fixBefore⟩

/-- The rule on what follows an opening brace. -/
def afterRule : Rule := ⟨afterName, checkAfter, some fixAfter⟩

end ManifestLint.OpeningBrace
