import ManifestLint.Lint.Report
import ManifestLint.Text.Json

set_option autoImplicit false

/-! # The problems of a run

The answer of the lint command: the problems of all files, either as text with a summary of
their number below, or as a list of JSON objects. -/

namespace ManifestLint

/-- A problem as a JSON object. -/
def Problem.json (problem : Problem) : String :=
  Text.jsonObject
    [("path", Text.jsonText problem.path),
     ("line", toString problem.finding.position.line),
     ("column", toString problem.finding.position.column),
     ("kind", Text.jsonText problem.outcome.name),
     ("check", Text.jsonText problem.finding.check),
     ("message", Text.jsonText problem.finding.message),
     ("reason", Text.jsonText problem.reason)]

namespace Report

/-- The problems of several reports, in order. -/
def allProblems (reports : List Report) : List Problem := reports.flatMap Report.problems

/-- The number of problems with the given outcome in several reports. -/
def countAll (reports : List Report) (outcome : Outcome) : Nat :=
  (allProblems reports).countP fun problem => problem.outcome == outcome

/-- The summary of several reports. An outcome that no problem has is left out. -/
def summary (reports : List Report) : List String :=
  let total := s!"Summary: {(allProblems reports).length} problems in {reports.length} files"
  let line (outcome : Outcome) : Option String :=
    match countAll reports outcome with
    | 0 => none
    | n => some s!"  {outcome.name}: {n}"
  total :: [Outcome.error, Outcome.warning, Outcome.fixed].filterMap line

/-- The problems of several reports as lines of text, with a summary below. -/
def textLines (reports : List Report) : List String :=
  (allProblems reports).map Problem.shown ++ "" :: summary reports

/-- The problems of several reports as JSON. -/
def jsonLines (reports : List Report) : List String :=
  [Text.jsonList ((allProblems reports).map Problem.json)]

end Report

end ManifestLint
