import ManifestLint.Lint.Linter
import ManifestLint.Stream.Store
import ManifestLint.Text.Encoding

set_option autoImplicit false

/-! # Reports

The report on one source: the problems, and the stream as the run left it. A source that cannot
be lexed has no stream; its only problem is the lexing error, and its text stays what it is. -/

namespace ManifestLint

/-- The report on one source. -/
structure Report where
  path : String
  source : String
  problems : List Problem
  draft : Option Draft
  encoding : Encoding
deriving Repr, Inhabited

namespace Report

/-- The text after the run. -/
def manifest (report : Report) : String :=
  match report.draft with
  | none => report.source
  | some draft => draft.render

/-- Decides whether the run changed the text. -/
def changed (report : Report) : Bool := report.manifest != report.source

/-- The number of problems with the given outcome. -/
def count (report : Report) (outcome : Outcome) : Nat :=
  report.problems.countP fun problem => problem.outcome == outcome

/-- The name a lexing error is reported under. -/
def syntaxCheck : String := "syntax"

/-- The report on a source that cannot be lexed. -/
def ofLexError (path source : String) (e : LexError) : Report :=
  let finding : Finding := ⟨syntaxCheck, .error, e.message, e.position, none⟩
  ⟨path, source, [⟨finding, path, .error, ""⟩], none, .utf8⟩

end Report

/-- A report with what was logged on the way. -/
structure Linted where
  report : Report
  log : List LogEntry
deriving Repr, Inhabited

namespace Linter

/-- Lints a text. -/
def lintSource (linter : Linter) (source path : String) : Except Fault Linted :=
  match Draft.ofSource source path with
  | .error e => .ok ⟨.ofLexError path source e, []⟩
  | .ok draft =>
    match (linter.run path).run draft with
    | .ok transcript after =>
      .ok ⟨⟨path, source, transcript.problems, some after, .utf8⟩, transcript.log⟩
    | .error fault _ => .error fault

/-- Lints the bytes of a file. The file itself is not written. -/
def lintBytes (linter : Linter) (bytes : ByteArray) (path : String) : Except Fault Linted :=
  let (source, encoding) := Encoding.decode bytes
  (linter.lintSource source path).map fun linted =>
    { linted with report := { linted.report with encoding := encoding } }

end Linter

end ManifestLint
