import ManifestLint.Lint.Log
import ManifestLint.Lint.Problem
import ManifestLint.Rule.Registry

set_option autoImplicit false

/-! # Running rules over a stream

For each rule in turn the check runs over the stream as it is by then. If repairs are asked for,
the findings of the rule are handed to its repair in the order in which they were found. A
repair that is refused, or that comes too late because an earlier one has taken its token out,
leaves the finding reported; the remaining ones are still tried. Any other fault ends the
run. -/

namespace ManifestLint

/-- The settings of a run. The values in the two lists and the pattern come from settings that
are not checked further. -/
structure Options where
  fix : Bool
  only : List Yaml.Value
  disabled : List Yaml.Value
  filePattern : Yaml.Value
deriving Repr, Inhabited

/-- The pattern of the files that are linted when a directory is given. -/
def defaultPattern : String := "*.pp"

/-- The settings of a run of which nothing is said. -/
def Options.default : Options := ⟨false, [], [], .text defaultPattern⟩

/-- Rules to run, and whether to repair what they find. -/
structure Linter where
  fix : Bool
  rules : List Rule

/-- The linter of the given settings. -/
def Linter.ofOptions (registry : Registry) (options : Options) :
    Except SelectionError Linter := do
  return ⟨options.fix, ← registry.select options.only options.disabled⟩

/-- What a run reports and logs, each in order. -/
structure Transcript where
  problems : List Problem
  log : List LogEntry
deriving Repr, Inhabited

namespace Transcript

/-- A run that did nothing. -/
def empty : Transcript := ⟨[], []⟩

/-- One run after another. -/
def append (first second : Transcript) : Transcript :=
  ⟨first.problems ++ second.problems, first.log ++ second.log⟩

end Transcript

namespace Linter

/-- The name entries of a run are logged under. -/
def loggerName : String := "bracelint.tools.lint"

/-- A log entry that begins with the place of a finding. -/
def entryAt (level : LogLevel) (path : String) (finding : Finding) (text : String) : LogEntry :=
  ⟨level, loggerName,
    s!"{path}:{finding.position.line}:{finding.position.column}: " ++ text⟩

/-- The report of a finding that is not repaired, with the reason and the words for the log. -/
def unrepaired (path : String) (finding : Finding) (reason words : String) : Transcript :=
  ⟨[⟨finding, path, .ofSeverity finding.severity, reason⟩],
   [entryAt .warning path finding words]⟩

/-- The report of a finding whose repair has failed, if that is a refusal or the repair comes too
late. Any other fault goes on. -/
def recover (path : String) (finding : Finding) : Fault → Edit Transcript
  | .refused refusal => do
    let reason := refusal.reason (← get).pool
    return unrepaired path finding reason (finding.refusalMessage reason)
  | .stale token => do
    let words := (Fault.stale token).message (← get).pool
    return unrepaired path finding words words
  | fault => throw fault

/-- Repairs a finding and reports it as repaired, or as what it is if its repair is refused or
comes too late. -/
def repair (rule : Rule) (fix : Finding → Edit Unit) (path : String) (finding : Finding) :
    Edit Transcript :=
  tryCatch (do
      fix finding
      return ⟨[⟨finding, path, .fixed, ""⟩],
        [entryAt .info path finding s!"fixed {rule.name}"]⟩)
    (recover path finding)

/-- Reports one finding, repaired if repairs are asked for and the rule has one. -/
def resolve (linter : Linter) (rule : Rule) (path : String) (finding : Finding) :
    Edit Transcript :=
  match linter.fix, rule.fix with
  | true, some fix => repair rule fix path finding
  | _, _ => return ⟨[⟨finding, path, .ofSeverity finding.severity, ""⟩], []⟩

/-- Reports findings in order. -/
def resolveAll (linter : Linter) (rule : Rule) (path : String) :
    List Finding → Edit Transcript
  | [] => return .empty
  | finding :: rest => do
    let first ← linter.resolve rule path finding
    return first.append (← linter.resolveAll rule path rest)

/-- Runs one rule. -/
def runRule (linter : Linter) (path : String) (rule : Rule) : Edit Transcript := do
  let findings ← rule.check
  let entry : LogEntry :=
    ⟨.debug, loggerName, s!"{rule.name}: {findings.length} findings in {path}"⟩
  let resolved ← linter.resolveAll rule path findings
  return Transcript.append ⟨[], [entry]⟩ resolved

/-- Runs rules in order. -/
def runRules (linter : Linter) (path : String) : List Rule → Edit Transcript
  | [] => return .empty
  | rule :: rest => do
    let first ← linter.runRule path rule
    return first.append (← linter.runRules path rest)

/-- Runs the rules of the linter over a stream. -/
def run (linter : Linter) (path : String) : Edit Transcript :=
  linter.runRules path linter.rules

end Linter

end ManifestLint
