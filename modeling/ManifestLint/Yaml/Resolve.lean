import ManifestLint.Yaml.Node
import ManifestLint.Yaml.Plain

set_option autoImplicit false

/-! # The value of a node

Text in quotes stands for itself, and plain text for what its spelling says.

A plain key of two left angles merges the entries of its value, a mapping or a sequence of
mappings, into the mapping around it, where they yield to its own entries. -/

namespace ManifestLint.Yaml

/-- Decides whether a node is the key that merges other mappings in. -/
def Node.isMerge : Node → Bool
  | .scalar true ['<', '<'] => true
  | _ => false

/-- The entries that a merge takes over from the value it is given. -/
def mergedEntries : Value → Except DocumentFault (List (Value × Value))
  | .map entries => .ok entries
  | .list items =>
    items.foldlM (fun (entries : List (Value × Value)) item =>
      match item with
      | .map more => .ok (more ++ entries)
      | _ => .error .malformed) []
  | _ => .error .malformed

/-- The entries of a mapping: those merged in come first, and a later entry of the same key
replaces an earlier one. -/
def assemble (merged own : List (Value × Value)) : List (Value × Value) :=
  (merged ++ own).foldl (fun entries entry => Value.putEntry entries entry.1 entry.2) []

mutual

/-- The value of a node. A document is malformed if a mapping has a key that cannot be one. -/
def Node.value : Node → Except DocumentFault Value
  | .scalar false text => .ok (.text (String.ofList text))
  | .scalar true text =>
    if text = ['='] ∨ text = ['<', '<'] then .error .malformed else resolvePlain text
  | .sequence items => (itemValues items).map .list
  | .mapping entries =>
    (entryValues entries).map fun parts => .map (assemble parts.1 parts.2)

/-- The values of items. -/
def itemValues : List Node → Except DocumentFault (List Value)
  | [] => .ok []
  | item :: rest => do return (← item.value) :: (← itemValues rest)

/-- The entries that are merged in and the entries of the mapping itself. -/
def entryValues :
    List (Node × Node) → Except DocumentFault (List (Value × Value) × List (Value × Value))
  | [] => .ok ([], [])
  | (key, value) :: rest => do
    let v ← value.value
    let (merged, own) ← entryValues rest
    if key.isMerge then return ((← mergedEntries v) ++ merged, own)
    else
      let k ←
        match key with
        | .scalar true ['='] => .ok (Value.text "=")
        | _ => key.value
      if k.isKey then return (merged, (k, v) :: own) else .error .malformed

end

end ManifestLint.Yaml
