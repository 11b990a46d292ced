import ManifestLint.File.Path

set_option autoImplicit false

/-! # File trees

A tree of files without links: a list of directories and a list of files with their bytes, each
under its *location*, the names on the way from the top of the tree. Relative paths are followed
from the working directory.

Following a path looks at every directory on the way: a name can only be looked up in a
directory that exists, and two dots lead up from an existing directory only. -/

namespace ManifestLint

/-- The names on the way from the top of the tree. -/
abbrev Location := List String

/-- Directories, and files with their bytes. -/
structure Tree where
  directories : List Location
  files : List (Location × ByteArray)
  workingDirectory : Location
deriving Inhabited

/-- Why a file cannot be opened. -/
inductive OpenFault where
  | notFound
  | notADirectory
  | isADirectory
deriving DecidableEq, Repr

namespace Tree

/-! ## Looking at a location -/

/-- Decides whether a location is a directory; the top of the tree always is one. -/
def isDirectory (tree : Tree) (location : Location) : Bool :=
  location == [] || tree.directories.contains location

/-- The bytes of the file at a location. -/
def bytesAt? (tree : Tree) (location : Location) : Option ByteArray := tree.files.lookup location

/-- The names of all that lies directly in a directory. -/
def namesIn (tree : Tree) (location : Location) : List String :=
  (tree.directories ++ tree.files.map Prod.fst).filterMap fun entry =>
    if entry.dropLast = location then entry.getLast? else none

/-- The ways from a directory down to itself and to every directory below it. -/
def directoriesBelow (tree : Tree) (location : Location) : List Location :=
  [] :: tree.directories.filterMap fun entry =>
    if location.isPrefixOf entry ∧ entry ≠ location then some (entry.drop location.length)
    else none

/-! ## Following paths -/

/-- The location that components lead to. Empty components and single dots stay where they are,
but only in a directory. What the last component names need not exist. -/
def follow (tree : Tree) (location : Location) : List String → Except OpenFault Location
  | [] => .ok location
  | component :: rest =>
    if tree.isDirectory location then
      if component = "" ∨ component = "." then tree.follow location rest
      else if component = ".." then tree.follow location.dropLast rest
      else tree.follow (location ++ [component]) rest
    else if (tree.bytesAt? location).isSome then .error .notADirectory
    else .error .notFound

/-- The location that a path with the given anchor starts from. -/
def startOf (tree : Tree) (anchor : String) : Location :=
  if anchor = "" then tree.workingDirectory else []

/-- The location of a path. -/
def locate (tree : Tree) (path : Path) : Except OpenFault Location :=
  tree.follow (tree.startOf path.anchor) path.parts

/-- Decides whether a path leads to a directory. -/
def hasDirectory (tree : Tree) (path : Path) : Bool :=
  match tree.locate path with
  | .ok location => tree.isDirectory location
  | .error _ => false

/-- Decides whether a path leads to a file. -/
def hasFile (tree : Tree) (path : Path) : Bool :=
  match tree.locate path with
  | .ok location => !tree.isDirectory location && (tree.bytesAt? location).isSome
  | .error _ => false

/-- Decides whether a path leads to anything. -/
def has (tree : Tree) (path : Path) : Bool := tree.hasDirectory path || tree.hasFile path

/-! ## Reading and writing -/

/-- The bytes at the location that was found. -/
def readAt (tree : Tree) (location : Location) : Except OpenFault ByteArray :=
  if tree.isDirectory location then .error .isADirectory
  else
    match tree.bytesAt? location with
    | some bytes => .ok bytes
    | none => .error .notFound

/-- Reads the file at a path. -/
def read (tree : Tree) (path : Path) : Except OpenFault ByteArray := do
  tree.readAt (← tree.locate path)

/-- Reads the file at a path as it was written by the user, where a slash at the end asks for a
directory. -/
def readText (tree : Tree) (s : String) : Except OpenFault ByteArray := do
  if s = "" then .error .notFound
  else tree.readAt (← tree.follow (tree.startOf (Path.anchorOf s)) (Path.components s))

/-- The files with the bytes of one of them replaced. -/
def putBytes (location : Location) (bytes : ByteArray) :
    List (Location × ByteArray) → List (Location × ByteArray)
  | [] => []
  | (l, b) :: rest =>
    if l = location then (l, bytes) :: putBytes location bytes rest
    else (l, b) :: putBytes location bytes rest

/-- The tree with the file at a path overwritten; a path that leads to no file changes
nothing. -/
def write (tree : Tree) (path : Path) (bytes : ByteArray) : Tree :=
  match tree.locate path with
  | .ok location => { tree with files := putBytes location bytes tree.files }
  | .error _ => tree

end Tree

/-- The number and words of a fault in opening. -/
def OpenFault.description : OpenFault → String
  | notFound => "[Errno 2] No such file or directory"
  | notADirectory => "[Errno 20] Not a directory"
  | isADirectory => "[Errno 21] Is a directory"

end ManifestLint
