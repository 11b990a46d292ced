import ManifestLint.Command.Invocation
import ManifestLint.Command.Result
import ManifestLint.Command.Summary

set_option autoImplicit false

/-! # The lint command

The lint command loads the settings, puts the options of its command line over them, lints the
files, and writes the repaired ones back if repairs are asked for. Its status is 2 if it cannot
start, 1 if an error is left, and 0 otherwise.

Log entries are written from the level that the settings name, or from the lowest one if the
command line asks for that. What is logged while the settings are loaded comes before the level
is known; it is written without its level. A name that belongs to something other than a level ends
the command before any file is linted. -/

namespace ManifestLint.Command

namespace LintRequest

/-- The names given on the command line as they would stand in a settings file. -/
def requests (names : List String) : List Yaml.Value := names.map .text

/-- What the command line says about the run. Repairs can be turned on but not off; checks that
are not to run are added to those of the settings. -/
def overrides (request : LintRequest) (settings : Settings) : Config.Overrides :=
  { fix := if request.fix then some true else none
    only := if request.only.isEmpty then none else some (requests request.only)
    disabled :=
      if request.disable.isEmpty then none
      else some (settings.disabled ++ requests request.disable)
    filePattern := none }

/-- The options of the run. -/
def options (request : LintRequest) (config : Config) : Options :=
  config.options (request.overrides config.settings)

/-- The threshold that log entries have to reach. -/
def logThreshold (request : LintRequest) (config : Config) : Except LevelFault Nat := do
  let name ← config.logLevel
  if request.verbose then return LogLevel.debug.rank else threshold name

/-- The paths to lint. -/
def targets (request : LintRequest) : List Path := request.paths.map Path.ofString

end LintRequest

/-- A fault in words if it is one of the command line: a check that is not known, or a path where
nothing is. -/
def complaint? : LintFault → Option String
  | .selection (.unknownRule name) =>
    if name.isWritable then some ("unknown check " ++ (SelectionError.unknownRule name).message)
    else none
  | .expansion (.notFound path) => some (ExpandFault.notFound path).message
  | .cannotOpen path .notFound =>
    some s!"{OpenFault.notFound.description}: {Text.quoted path.shown}"
  | _ => none

/-- A message about an error. -/
def errorLine (words : String) : String := "Error: " ++ words

/-- The status of a run with the given reports. -/
def statusOf (reports : List Report) : Nat :=
  if Report.countAll reports .error = 0 then 0 else 1

/-- Writes the repaired texts back if that is asked for. -/
def finish (tree : Tree) (options : Options) (reports : List Report) : Option Written :=
  if options.fix then (writeAllFixes tree reports).map Prod.snd else some ⟨tree, false, []⟩

/-- Lints the files with the settings that were loaded. `early` was written before, and of what is
logged from now on the entries that reach the threshold are written. -/
def lintAbove (threshold : Nat) (tree : Tree) (request : LintRequest) (config : Config)
    (early : List String) : Result :=
  let options := request.options config
  let messages (entries : List LogEntry) : List String :=
    early ++ (LogEntry.atLeast threshold entries).map LogEntry.shown
  match lintPaths .bundled options tree request.targets with
  | .error fault =>
    match complaint? fault with
    | some words => .refusal tree 2 (early ++ [errorLine words])
    | none => .abandoned tree (.lint fault) early
  | .ok linted =>
    let reports := linted.map Linted.report
    let log := linted.flatMap Linted.log
    match finish tree options reports with
    | none => .abandoned tree .unwritable (messages log)
    | some written =>
      let lines := if request.json then Report.jsonLines reports else Report.textLines reports
      ⟨.status (statusOf reports), joinLines lines, joinLines (messages (log ++ written.log)),
        written.tree⟩

/-- Lints the files with the settings that were loaded, if there is a threshold for the log. -/
def lintWith (tree : Tree) (request : LintRequest) (config : Config) (early : List String) :
    Result :=
  match request.logThreshold config with
  | .error fault => .abandoned tree (.logLevel fault) early
  | .ok threshold => lintAbove threshold tree request config early

/-- Runs the lint command, reading the documents in settings files by the given reader. -/
def lintBy (reader : Yaml.Reader) (surroundings : Surroundings) (request : LintRequest) : Result :=
  let tree := surroundings.tree
  let loaded := Config.loadBy reader tree surroundings.environment
    (request.config.map Path.ofString) (Config.searchPaths surroundings.home)
  let early := loaded.log.map LogEntry.text
  match loaded.result with
  | .ok config => lintWith tree request config early
  | .error (.rejected e) => .refusal tree 2 (early ++ [errorLine e.message])
  | .error fault => .abandoned tree (.settings fault) early

/-- Runs the lint command, reading documents as the program itself does. -/
def lint (surroundings : Surroundings) (request : LintRequest) : Result :=
  lintBy Yaml.Value.ofBytes surroundings request

end ManifestLint.Command
