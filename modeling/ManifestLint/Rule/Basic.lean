import ManifestLint.Rule.Finding

set_option autoImplicit false

/-! # Rules

A rule has a name, a check, and possibly a repair. The check reads a stream and lists its
findings; the repair is given one finding at a time and edits the stream, or refuses. -/

namespace ManifestLint

/-- A check of a stream and the repair of what it finds. -/
structure Rule where
  name : String
  check : Edit (List Finding)
  fix : Option (Finding → Edit Unit)

/-- Decides whether a rule has a repair. -/
def Rule.fixable (rule : Rule) : Bool := rule.fix.isSome

end ManifestLint
