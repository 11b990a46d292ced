import ManifestLint.Config.Load
import ManifestLint.Lint.Files

set_option autoImplicit false

/-! # What a command comes to

A command starts from the files, the environment and the home directory of its user. It ends
with a status, leaves what it wrote to the two output streams, and leaves the files as they are
then. It can also end with nothing but an explanation of its usage, or be abandoned for a cause
that it has no words for; what it wrote before that is kept. -/

namespace ManifestLint.Command

/-- What a command finds when it starts. -/
structure Surroundings where
  tree : Tree
  environment : Environment
  home : Path

/-- Why a command is abandoned. -/
inductive Abandonment where
  /-- The settings cannot be loaded. -/
  | settings (fault : LoadFault)
  /-- The name of the log level belongs to something else. -/
  | logLevel (fault : LevelFault)
  /-- The files cannot be linted. -/
  | lint (fault : LintFault)
  /-- The file that was given cannot be opened. -/
  | unreadable (argument : String) (fault : OpenFault)
  /-- A repaired text cannot be written in the encoding of its file. -/
  | unwritable
deriving Repr

/-- How a command ends. -/
inductive Ending where
  | status (code : Nat)
  /-- The usage of the program is explained. -/
  | usage (code : Nat)
  | abandoned (cause : Abandonment)
deriving Repr

/-- What a command comes to. -/
structure Result where
  ending : Ending
  /-- What was written as the answer. -/
  output : String
  /-- What was written about errors and progress. -/
  messages : String
  tree : Tree

/-- Lines of text, each with its end. -/
def joinLines (lines : List String) : String := String.join (lines.map (· ++ "\n"))

namespace Result

/-- An answer that changes no file. -/
def answer (tree : Tree) (lines : List String) : Result :=
  ⟨.status 0, joinLines lines, "", tree⟩

/-- An explanation of the usage. -/
def usage (tree : Tree) (code : Nat) : Result := ⟨.usage code, "", "", tree⟩

/-- A command that gives up with a message after the given ones. -/
def refusal (tree : Tree) (code : Nat) (messages : List String) : Result :=
  ⟨.status code, "", joinLines messages, tree⟩

/-- A command that is abandoned after the given messages. -/
def abandoned (tree : Tree) (cause : Abandonment) (messages : List String) : Result :=
  ⟨.abandoned cause, "", joinLines messages, tree⟩

end Result

end ManifestLint.Command
