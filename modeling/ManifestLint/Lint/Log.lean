import ManifestLint.Text.Quoted

set_option autoImplicit false

/-! # Log entries

What a run tells about its progress, apart from its report. Every entry has a level, and entries
below a chosen threshold are not shown. -/

namespace ManifestLint

/-- How important a log entry is. -/
inductive LogLevel where
  | debug
  | info
  | warning
deriving DecidableEq, Repr, Inhabited

/-- The word for a level. -/
def LogLevel.name : LogLevel → String
  | debug => "DEBUG"
  | info => "INFO"
  | warning => "WARNING"

/-- The rank of a level on the scale of thresholds. -/
def LogLevel.rank : LogLevel → Nat
  | debug => 10
  | info => 20
  | warning => 30

/-- One message about the progress of a run. -/
structure LogEntry where
  level : LogLevel
  logger : String
  text : String
deriving DecidableEq, Repr

/-- An entry as one line of text. -/
def LogEntry.shown (entry : LogEntry) : String :=
  s!"{entry.level.name} {entry.logger}: {entry.text}"

/-- Why there is no threshold. There are two names that belong to other things than levels, one of
them to a text and one to a table; and there may be no words for what is given as the name. -/
inductive LevelFault where
  | aText
  | aTable
  | tooLong
deriving DecidableEq, Repr

/-- What the text among these things says. -/
def basicFormat : String := "%(levelname)s:%(name)s:%(message)s"

/-- A level fault in words; what stands in the table is left out. -/
def LevelFault.message : LevelFault → String
  | aText => s!"Unknown level: {Text.quoted basicFormat}"
  | aTable => "Level not an integer or a valid string"
  | tooLong => "Exceeds the limit for integer string conversion"

/-- The threshold that a name stands for; names that belong to nothing stand for warnings. -/
def threshold (name : String) : Except LevelFault Nat :=
  match name with
  | "CRITICAL" | "FATAL" => .ok 50
  | "ERROR" => .ok 40
  | "WARN" | "WARNING" => .ok 30
  | "INFO" => .ok 20
  | "DEBUG" => .ok 10
  | "NOTSET" => .ok 0
  | "BASIC_FORMAT" => .error .aText
  | "_STYLES" => .error .aTable
  | _ => .ok 30

/-- The entries that reach a threshold. -/
def LogEntry.atLeast (threshold : Nat) (entries : List LogEntry) : List LogEntry :=
  entries.filter fun entry => decide (threshold ≤ entry.level.rank)

end ManifestLint
