import ManifestLint.Rule.ClassHeader
import ManifestLint.Rule.OpeningBrace
import ManifestLint.Yaml.Value

set_option autoImplicit false

/-! # The registry of rules

The registry lists the rules in the order in which they were registered. Registering returns a
handle by which a repair can be attached later; attaching one replaces the repair of that rule
and moves nothing.

Rules are selected by name. The names come from settings, whose values are not checked, so that
a request can be any value: text that names no rule and any other simple value is an unknown
rule, and a collection cannot name a rule at all. -/

namespace ManifestLint

/-- The rules in the order of their registration. -/
structure Registry where
  rules : List Rule

/-- What registering a check returns: the check under its name. -/
structure CheckHandle where
  name : String
  check : Edit (List Finding)

/-- Why rules cannot be selected. -/
inductive SelectionError where
  /-- No rule is registered under the name. -/
  | unknownRule (request : Yaml.Value)
  /-- The value cannot be a name. -/
  | notAName (request : Yaml.Value)
deriving Repr

/-- A selection error in words: the value that was asked for. -/
def SelectionError.message : SelectionError → String
  | unknownRule request => request.shown
  | notAName request => request.shown

/-- A name that is registered already. -/
structure NameTaken where
  name : String
deriving DecidableEq, Repr

/-- A taken name in words. -/
def NameTaken.message (e : NameTaken) : String := s!"Rule '{e.name}' is already registered"

namespace Registry

/-- The bundled rules. -/
def bundled : Registry :=
  ⟨[OpeningBrace.beforeRule, OpeningBrace.afterRule, ClassHeader.nameBeforeRule,
    ClassHeader.nameAfterRule]⟩

/-- The rule of a name. -/
def find? (registry : Registry) (name : String) : Option Rule :=
  registry.rules.find? fun rule => rule.name == name

/-! ## Registering -/

/-- The registry with a new rule at the end, which has no repair yet. -/
def register (registry : Registry) (name : String) (check : Edit (List Finding)) :
    Except NameTaken (Registry × CheckHandle) :=
  match registry.find? name with
  | some _ => .error ⟨name⟩
  | none => .ok (⟨registry.rules ++ [⟨name, check, none⟩]⟩, ⟨name, check⟩)

/-- The registry with the repair of one rule replaced. -/
def attachFix (registry : Registry) (handle : CheckHandle) (fix : Finding → Edit Unit) :
    Registry :=
  ⟨registry.rules.map fun rule =>
    if rule.name = handle.name then { rule with fix := some fix } else rule⟩

/-! ## Selecting -/

/-- The rule that a request names. -/
def lookup (registry : Registry) (request : Yaml.Value) : Except SelectionError Rule :=
  match request with
  | .text name =>
    match registry.find? name with
    | some rule => .ok rule
    | none => .error (.unknownRule request)
  | _ => if request.isKey then .error (.unknownRule request) else .error (.notAName request)

/-- The rules that the requests name, in that order. -/
def lookupAll (registry : Registry) : List Yaml.Value → Except SelectionError (List Rule)
  | [] => .ok []
  | request :: rest => do
    let rule ← registry.lookup request
    let rules ← registry.lookupAll rest
    return rule :: rules

/-- The rules of a run: those named in `only`, or all if it is empty, without those named in
`disabled`. Every name has to be registered, also one that changes nothing. -/
def select (registry : Registry) (only disabled : List Yaml.Value) :
    Except SelectionError (List Rule) := do
  let rules ← if only.isEmpty then pure registry.rules else registry.lookupAll only
  let _ ← registry.lookupAll disabled
  return rules.filter fun rule => !disabled.any fun request => request.isText rule.name

end Registry

end ManifestLint
