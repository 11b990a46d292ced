import ManifestLint.File.Glob
import ManifestLint.File.Tree
import ManifestLint.Yaml.Value

set_option autoImplicit false

/-! # Finding manifests

The paths a user gives are expanded to files: a file stands for itself, and a directory for the
files at any depth below it whose path fits the file pattern, in the order of their paths.

A file pattern is a path whose components are name patterns; a component of two stars stands for
any number of directories. The pattern comes from settings that are not checked, so that it can
be a value that is no pattern; an absent or empty value fits directories only. -/

namespace ManifestLint

/-- Why a value is no file pattern. -/
inductive PatternFault where
  /-- The value is no text. -/
  | notText (value : Yaml.Value)
  /-- The pattern is an absolute path. -/
  | absolute
  /-- Two stars stand in a component among other characters. -/
  | starsInComponent
deriving Repr

/-- A pattern fault in words. -/
def PatternFault.message : PatternFault → String
  | notText value => value.shown
  | absolute => "Non-relative patterns are unsupported"
  | starsInComponent => "Invalid pattern: '**' can only be an entire path component"

/-- One component of a file pattern. -/
inductive PatternPart where
  /-- Any number of directories. -/
  | deep
  /-- A name as it stands. -/
  | exact (name : String)
  /-- A name that fits. -/
  | fitting (items : List Glob.Item)
deriving Repr

/-- A file pattern: its components, and whether it fits directories only. -/
structure FilePattern where
  parts : List PatternPart
  directoriesOnly : Bool
deriving Repr

namespace FilePattern

/-- Decides whether two stars stand next to each other. -/
def hasDoubleStar : List Char → Bool
  | '*' :: '*' :: _ => true
  | _ :: cs => hasDoubleStar cs
  | [] => false

/-- Reads one component. -/
def partOf (component : String) : Except PatternFault PatternPart :=
  let cs := component.toList
  if component = "**" then .ok .deep
  else if hasDoubleStar cs then .error .starsInComponent
  else if cs.contains '*' || cs.contains '?' || cs.contains '[' then
    .ok (.fitting (Glob.ofString component))
  else .ok (.exact component)

/-- Reads components in order. -/
def partsOf : List String → Except PatternFault (List PatternPart)
  | [] => .ok []
  | component :: rest => do return (← partOf component) :: (← partsOf rest)

/-- Reads a file pattern. -/
def ofValue (value : Yaml.Value) : Except PatternFault FilePattern :=
  if value.isEmptyLike then .ok ⟨[], false⟩
  else
    match value with
    | .text s =>
      let path := Path.ofString s
      if path.anchor ≠ "" then .error .absolute
      else do return ⟨← partsOf path.parts, s.toList.getLast? == some '/'⟩
    | _ => .error (.notText value)

/-! ## Expansion -/

/-- The paths that components lead to from a path. -/
def select (tree : Tree) : List PatternPart → Path → List Path
  | [], path => [path]
  | .exact name :: rest, path => select tree rest (path.child name)
  | .fitting items :: rest, path =>
    match tree.locate path with
    | .error _ => []
    | .ok location =>
      ((tree.namesIn location).filter fun name => Glob.fits items name.toList).flatMap fun name =>
        select tree rest (path.child name)
  | .deep :: rest, path =>
    if tree.hasDirectory path then
      match tree.locate path with
      | .error _ => []
      | .ok location =>
        (tree.directoriesBelow location).flatMap fun names => select tree rest (path.descend names)
    else []

/-- The files at any depth below a directory that the pattern fits, in order. -/
def filesBelow (pattern : FilePattern) (tree : Tree) (directory : Path) : List Path :=
  if pattern.directoriesOnly then []
  else
    (((select tree (.deep :: pattern.parts) directory).eraseDups).filter tree.hasFile).mergeSort
      Path.le

end FilePattern

/-- Why paths cannot be expanded. -/
inductive ExpandFault where
  /-- Nothing is there. -/
  | notFound (path : Path)
  /-- A directory is given and the pattern is none. -/
  | badPattern (fault : PatternFault)
deriving Repr

/-- An expansion fault in words. -/
def ExpandFault.message : ExpandFault → String
  | notFound path => s!"{path.shown} not found"
  | badPattern fault => fault.message

/-- The files that one path stands for. -/
def expandPath (tree : Tree) (pattern : Yaml.Value) (path : Path) :
    Except ExpandFault (List Path) :=
  if tree.hasDirectory path then
    match FilePattern.ofValue pattern with
    | .ok p => .ok (p.filesBelow tree path)
    | .error fault => .error (.badPattern fault)
  else if tree.hasFile path then .ok [path]
  else .error (.notFound path)

/-- The files that paths stand for, in the order of the paths. -/
def expandPaths (tree : Tree) (pattern : Yaml.Value) : List Path → Except ExpandFault (List Path)
  | [] => .ok []
  | path :: rest => do
    let files ← expandPath tree pattern path
    return files ++ (← expandPaths tree pattern rest)

end ManifestLint
