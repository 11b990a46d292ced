import ManifestLint.Command.Result
import ManifestLint.Token.Lexing

set_option autoImplicit false

/-! # Listings

The commands that list something: the checks there are, and the tokens of one file as a table
of positions, kinds and values. -/

namespace ManifestLint.Command

/-! ## Checks -/

/-- The line for a rule. -/
def ruleLine (rule : Rule) : String := if rule.fixable then rule.name else rule.name ++ " (no fix)"

/-- Lists the checks. -/
def listChecks (tree : Tree) : Result := .answer tree (Registry.bundled.rules.map ruleLine)

/-! ## Tokens -/

/-- Text in a column of the given width, set to its right end. -/
def alignRight (width : Nat) (s : String) : String :=
  String.ofList (List.replicate (width - s.length) ' ') ++ s

/-- Text in a column of the given width, set to its left end. -/
def alignLeft (width : Nat) (s : String) : String :=
  s ++ String.ofList (List.replicate (width - s.length) ' ')

/-- The line for a lexeme. -/
def lexemeLine (lexeme : Lexeme) : String :=
  let line := alignRight 5 (toString lexeme.position.line)
  let column := alignLeft 4 (toString lexeme.position.column)
  let kind := alignLeft 14 lexeme.kind.name
  s!"{line}:{column} {kind} {Text.quoted lexeme.value}"

/-- Lists the tokens of the file that was given. -/
def listTokens (tree : Tree) (argument : String) : Result :=
  match tree.readText argument with
  | .error fault => .abandoned tree (.unreadable argument fault) []
  | .ok bytes =>
    match (Lexing.ofSource (Encoding.decode bytes).1).toExcept with
    | .error e => .refusal tree 1 [s!"{argument}: {e.message}"]
    | .ok lexemes => .answer tree (lexemes.map lexemeLine)

end ManifestLint.Command
