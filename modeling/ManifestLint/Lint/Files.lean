import ManifestLint.File.Manifests
import ManifestLint.Lint.Report

set_option autoImplicit false

/-! # Linting files

Paths are expanded to files, every file is linted, and the repaired ones can be written back in
the encoding they were read in. The rules are selected before any path is looked at, and all
files are linted before the first one is written. -/

namespace ManifestLint

/-- Why paths cannot be linted. -/
inductive LintFault where
  /-- The rules cannot be selected. -/
  | selection (e : SelectionError)
  /-- The paths cannot be expanded. -/
  | expansion (e : ExpandFault)
  /-- A file cannot be opened. -/
  | cannotOpen (path : Path) (e : OpenFault)
  /-- A run of the rules failed. -/
  | run (e : Fault)
deriving Repr

/-- Lints files in order. -/
def Linter.lintFiles (linter : Linter) (tree : Tree) : List Path → Except LintFault (List Linted)
  | [] => .ok []
  | path :: rest => do
    let bytes ← (tree.read path).mapError (LintFault.cannotOpen path)
    let linted ← (linter.lintBytes bytes path.shown).mapError LintFault.run
    return linted :: (← linter.lintFiles tree rest)

/-- Lints every manifest that the paths stand for. -/
def lintPaths (registry : Registry) (options : Options) (tree : Tree) (paths : List Path) :
    Except LintFault (List Linted) := do
  let linter ← (Linter.ofOptions registry options).mapError LintFault.selection
  let files ← (expandPaths tree options.filePattern paths).mapError LintFault.expansion
  linter.lintFiles tree files

/-- A tree after an attempt to write, whether something was written, and the log. -/
structure Written where
  tree : Tree
  written : Bool
  log : List LogEntry

/-- Writes a changed manifest back to its file; fails if its encoding cannot write it. -/
def writeFixes (tree : Tree) (report : Report) : Option Written :=
  if report.changed then
    (report.encoding.encode? report.manifest).map fun bytes =>
      ⟨tree.write (Path.ofString report.path) bytes, true,
        [⟨.info, Linter.loggerName, s!"Wrote {report.count .fixed} fixes to {report.path}"⟩]⟩
  else some ⟨tree, false, []⟩

/-- Writes the changed ones of several manifests back, in order. -/
def writeAllFixes (tree : Tree) : List Report → Option (List Bool × Written)
  | [] => some ([], ⟨tree, false, []⟩)
  | report :: rest => do
    let first ← writeFixes tree report
    let (flags, more) ← writeAllFixes first.tree rest
    return (first.written :: flags, ⟨more.tree, first.written || more.written, first.log ++ more.log⟩)

end ManifestLint
