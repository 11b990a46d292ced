import ManifestLint.Text.Numeral

set_option autoImplicit false

/-! # Words of a command line

A command line is a list of words. A word that begins with a hyphen is an option, possibly
joined with its value, unless it is a lone hyphen, looks like a negative number, or contains a
space and is no option that is known. Two hyphens end the options. A long option can be cut
short as long as this is not ambiguous, and short options that take no value can be run
together. -/

namespace ManifestLint.Command

/-- The options of the commands. -/
inductive Switch where
  | help
  | version
  | fix
  | only
  | disable
  | json
  | config
  | verbose
deriving DecidableEq, Repr

/-- Decides whether an option is followed by a value. -/
def Switch.takesValue : Switch → Bool
  | only | disable | config => true
  | _ => false

/-- The spellings of the options that a command knows. -/
abbrev Switches := List (List Char × Switch)

/-- What is joined to an option: whether an equals sign joins it, and the characters. -/
structure Joined where
  byEquals : Bool
  text : List Char
deriving DecidableEq, Repr

/-- A word by its role. -/
inductive Word where
  /-- A word that stands for itself. -/
  | plain (text : List Char)
  /-- The two hyphens that end the options. -/
  | separator
  /-- An option as it is spelled in full, with what is joined to it. -/
  | switch (spelling : List Char) (which : Switch) (joined : Option Joined)
  /-- A word that looks like an option but is none that is known. -/
  | unknown (text : List Char)
deriving DecidableEq, Repr

/-- An option that could be several. -/
structure Ambiguous where

namespace Word

/-- The characters before the first equals sign, and what it joins to them. -/
def splitEquals (cs : List Char) : List Char × Option Joined :=
  match cs.dropWhile (· != '=') with
  | [] => (cs, none)
  | _ :: joined => (cs.takeWhile (· != '='), some ⟨true, joined⟩)

/-- Decides whether characters look like a negative number: a hyphen and digits, with or without
a point before the last of them. One line end may follow. -/
def isNegativeNumber (cs : List Char) : Bool :=
  let cs := if cs.getLast? = some '\n' then cs.dropLast else cs
  match cs with
  | '-' :: number =>
    match number.dropWhile Text.isDecimal with
    | [] => !number.isEmpty
    | '.' :: fraction => !fraction.isEmpty && fraction.all Text.isDecimal
    | _ => false
  | _ => false

/-- The options that a word can be short for. -/
def candidates (switches : Switches) (cs : List Char) : List Word :=
  match cs with
  | '-' :: '-' :: _ =>
    let (front, joined) := splitEquals cs
    switches.filterMap fun entry =>
      if front.isPrefixOf entry.1 then some (.switch entry.1 entry.2 joined) else none
  | _ =>
    switches.filterMap fun entry =>
      if entry.1 = cs.take 2 then some (.switch entry.1 entry.2 (some ⟨false, cs.drop 2⟩))
      else if cs.isPrefixOf entry.1 then some (.switch entry.1 entry.2 none)
      else none

/-- The role of a word before the options end. -/
def classify (switches : Switches) (cs : List Char) : Except Ambiguous Word :=
  match cs with
  | '-' :: _ :: _ =>
    match switches.lookup cs with
    | some which => .ok (.switch cs which none)
    | none =>
      let (front, joined) := splitEquals cs
      match joined, switches.lookup front with
      | some j, some which => .ok (.switch front which (some j))
      | _, _ =>
        match candidates switches cs with
        | [] => .ok (if isNegativeNumber cs || cs.contains ' ' then .plain cs else .unknown cs)
        | [word] => .ok word
        | _ => .error ⟨⟩
  | _ => .ok (.plain cs)

/-- The roles of words. -/
def classifyAll (switches : Switches) : List (List Char) → Except Ambiguous (List Word)
  | [] => .ok []
  | cs :: rest =>
    if cs = ['-', '-'] then .ok (.separator :: rest.map .plain)
    else do return (← classify switches cs) :: (← classifyAll switches rest)

/-- Decides whether a word is no option. -/
def isArgument : Word → Bool
  | plain _ | separator => true
  | _ => false

end Word

end ManifestLint.Command
