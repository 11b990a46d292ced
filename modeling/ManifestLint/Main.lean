import ManifestLint.Command.Program

set_option autoImplicit false

/-! # The command line

Reads the files that a command can be about into a tree, runs the program on it, prints what it
wrote, and stores the files that it changed. -/

namespace ManifestLint.Command

/-- How the program is used. -/
def usageText : String :=
  "usage: bracelint [--version] lint PATH... [--fix] [--only CHECK] [--disable CHECK] [--json]\n" ++
  "                 [--config FILE] [-v]\n" ++
  "       bracelint checks\n" ++
  "       bracelint tokens FILE\n"

/-- The location of a path on the way of its components alone. -/
def plainLocation (workingDirectory : Location) (path : Path) : Location :=
  let start := if path.anchor = "" then workingDirectory else []
  path.parts.foldl (fun location part =>
    if part = ".." then location.dropLast else location ++ [part]) start

/-- The name of a location in the file system. -/
def absoluteName (location : Location) : String := "/" ++ String.intercalate "/" location

/-- Adds a file, or a directory with all that is in it, to a tree. Directories that are reached
through a link are not entered. -/
partial def loadBelow (location : Location) (tree : Tree) : IO Tree := do
  let place ← IO.FS.realPath (absoluteName location)
  if ← place.isDir then
    if place.toString ≠ absoluteName location then return tree
    let mut tree := { tree with directories := location :: tree.directories }
    for entry in ← place.readDir do
      tree ← loadBelow (location ++ [entry.fileName]) tree
    return tree
  else if (← place.pathExists) ∧ (tree.bytesAt? location).isNone then
    return { tree with files := (location, ← IO.FS.readBinFile place) :: tree.files }
  else return tree

/-- Adds what a path leads to, and the directories above it, to a tree. What cannot be read is
left out. -/
def loadPath (tree : Tree) (path : Path) : IO Tree := do
  let location := plainLocation tree.workingDirectory path
  let tree ← try loadBelow location tree catch _ => pure tree
  let above := (List.range location.length).map fun n => location.take n
  return { tree with directories := (above ++ tree.directories).eraseDups }

/-- Stores the files that differ between two trees. -/
def storeChanges (before after : Tree) : IO Unit := do
  for (location, bytes) in after.files do
    if before.bytesAt? location != some bytes then IO.FS.writeBinFile (absoluteName location) bytes

/-- What is said about a command that is abandoned. -/
def abandonmentText : Abandonment → String
  | .settings .undecodable => "the settings file is not text"
  | .settings _ => "the settings cannot be loaded"
  | .logLevel fault => fault.message
  | .lint (.expansion e) => e.message
  | .lint (.cannotOpen path e) => s!"{e.description}: {Text.quoted path.shown}"
  | .lint _ => "the files cannot be linted"
  | .unreadable argument e => s!"{e.description}: {Text.quoted argument}"
  | .unwritable => "a repaired text cannot be written"

/-- Runs the program where it was started. -/
def runHere (arguments : List String) : IO UInt32 := do
  let here := (Path.ofString (← IO.FS.realPath ".").toString).parts
  let home := Path.ofString ((← IO.getEnv "HOME").getD "/")
  let environment : Environment :=
    ⟨← IO.getEnv "BRACELINT_FIX", ← IO.getEnv "BRACELINT_LOG_LEVEL"⟩
  let words := arguments.flatMap fun word => word :: (word.splitOn "=").drop 1
  let mut tree : Tree := ⟨[], [], here⟩
  for path in Config.searchPaths home ++ words.map Path.ofString do
    tree ← loadPath tree path
  let result := run ⟨tree, environment, home⟩ arguments
  IO.print result.output
  IO.eprint result.messages
  storeChanges tree result.tree
  match result.ending with
  | .status code => return code.toUInt32
  | .usage 0 => IO.print usageText; return 0
  | .usage code => IO.eprint usageText; return code.toUInt32
  | .abandoned cause => IO.eprintln s!"Error: {abandonmentText cause}"; return 1

end ManifestLint.Command

/-- Runs the program. -/
def main (arguments : List String) : IO UInt32 := ManifestLint.Command.runHere arguments
