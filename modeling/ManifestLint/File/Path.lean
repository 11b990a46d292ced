set_option autoImplicit false

/-! # Paths

A path is a list of components behind an anchor. Empty components and single dots say nothing
and are dropped when a path is read; two dots are kept, as they can only be followed in a tree.
A relative path has the empty anchor and an absolute one a slash; exactly two leading slashes
are an anchor of their own. -/

namespace ManifestLint

/-- The anchor of a path and its components. -/
structure Path where
  anchor : String
  parts : List String
deriving DecidableEq, Repr, Inhabited

namespace Path

/-- The characters of a text between slashes. -/
def splitSlashes (cs : List Char) : List (List Char) :=
  match cs with
  | [] => [[]]
  | c :: rest =>
    if c = '/' then [] :: splitSlashes rest
    else
      match splitSlashes rest with
      | [] => [[c]]
      | first :: others => (c :: first) :: others

/-- The components of a text as they stand between its slashes. -/
def components (s : String) : List String := (splitSlashes s.toList).map String.ofList

/-- Decides whether a component says where to go. -/
def isProper (component : String) : Bool := component != "" && component != "."

/-- The anchor of a path written as text. -/
def anchorOf (s : String) : String :=
  match (s.toList.takeWhile (· == '/')).length with
  | 0 => ""
  | 2 => "//"
  | _ => "/"

/-- Reads a path. -/
def ofString (s : String) : Path := ⟨anchorOf s, (components s).filter isProper⟩

/-- A path as text; the path without components is a dot. -/
def shown (path : Path) : String :=
  if path.anchor = "" ∧ path.parts = [] then "."
  else path.anchor ++ String.intercalate "/" path.parts

/-- The path of something inside a directory. -/
def child (path : Path) (name : String) : Path := ⟨path.anchor, path.parts ++ [name]⟩

/-- The path of something further down in a directory. -/
def descend (path : Path) (names : List String) : Path := ⟨path.anchor, path.parts ++ names⟩

/-! ## Order -/

/-- Decides whether one list of components comes before another or is equal to it: component by
component, each compared by code points. -/
def partsLe : List String → List String → Bool
  | [], _ => true
  | _ :: _, [] => false
  | a :: as, b :: bs => if a = b then partsLe as bs else decide (a < b)

/-- Decides whether a path comes before another or is equal to it. -/
def le (a b : Path) : Bool := partsLe (a.anchor :: a.parts) (b.anchor :: b.parts)

end Path

end ManifestLint
