import ManifestLint.Rule.Finding

set_option autoImplicit false

/-! # Problems

A problem is a finding as it is reported for one file, with what became of it: it was repaired,
or it stands as an error or a warning, possibly because its repair was refused. -/

namespace ManifestLint

/-- What became of a finding. -/
inductive Outcome where
  | error
  | warning
  | fixed
deriving DecidableEq, Repr, Inhabited

namespace Outcome

/-- The word for an outcome. -/
def name : Outcome → String
  | error => "error"
  | warning => "warning"
  | fixed => "fixed"

/-- The word for an outcome in capitals. -/
def label : Outcome → String
  | error => "ERROR"
  | warning => "WARNING"
  | fixed => "FIXED"

/-- The outcome of a finding that is not repaired. -/
def ofSeverity : Severity → Outcome
  | .error => error
  | .warning => warning

end Outcome

/-- A finding in a file with its outcome, and why it was not repaired if a repair was tried. -/
structure Problem where
  finding : Finding
  path : String
  outcome : Outcome
  reason : String
deriving DecidableEq, Repr

/-- A problem as text of one line, or two if a repair was refused. -/
def Problem.shown (problem : Problem) : String :=
  let place := s!"{problem.path}:{problem.finding.position.line}:" ++
    s!"{problem.finding.position.column}"
  let line := s!"{place}: {problem.outcome.label}: {problem.finding.message} " ++
    s!"[{problem.finding.check}]"
  if problem.reason = "" then line else line ++ s!"\n    -> not fixed: {problem.reason}"

end ManifestLint
