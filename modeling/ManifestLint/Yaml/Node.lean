import ManifestLint.Yaml.Token

set_option autoImplicit false

/-! # Nodes of a document

The tokens of a document form one node: a scalar, a sequence or a mapping. A node can be given a
name by an anchor, and a reference stands for the node that was given the name before it. What
is left out, such as a value after a colon, is an empty plain scalar.

The reading functions consume tokens from the front. Each step of the recursion spends a unit of
`fuel`; the number of tokens bounds how much can be needed. -/

namespace ManifestLint.Yaml

/-- A node of a document. -/
inductive Node where
  | scalar (plain : Bool) (text : List Char)
  | sequence (items : List Node)
  | mapping (entries : List (Node × Node))
deriving Repr, Inhabited

namespace Node

/-- What stands for something left out. -/
def absent : Node := .scalar true []

/-- The tokens that are left and the nodes that have names. -/
structure Reading where
  tokens : List Token
  names : List (List Char × Node)

/-- A function that reads from the tokens, or fails. -/
abbrev Reader (α : Type) := StateT Reading Option α

/-- The next token. -/
def peek : Reader (Option Token) := do return (← get).tokens.head?

/-- Passes over the next token. -/
def skip : Reader Unit := modify fun r => { r with tokens := r.tokens.tail }

/-- Decides whether the next token is one of those given; the end of the tokens is none. -/
def nextIn (tokens : List Token) : Reader Bool := do
  match ← peek with
  | none => return false
  | some t => return tokens.contains t

/-- Passes over the next token if it is the one given, and tells whether it was. -/
def accept (token : Token) : Reader Bool := do
  if ← nextIn [token] then
    skip
    return true
  else return false

/-- Gives a node a name that no other node has. -/
def nameNode (name : Option (List Char)) (node : Node) : Reader Node := do
  match name with
  | none => return node
  | some n =>
    let r ← get
    if r.names.any fun entry => entry.1 == n then failure
    else
      set { r with names := (n, node) :: r.names }
      return node

mutual

/-- Reads a node. Inside brackets no blocks can begin; after a key a sequence need not be
indented. -/
def read (block indentless : Bool) : Nat → Reader Node
  | 0 => failure
  | fuel + 1 => do
    match ← peek with
    | some (.reference name) =>
      skip
      match (← get).names.lookup name with
      | some node => return node
      | none => failure
    | some (.anchor name) =>
      skip
      nameNode (some name) (← readContent block indentless (some name) fuel)
    | _ => readContent block indentless none fuel

/-- Reads a node without its name. A node with a name can be left out. -/
def readContent (block indentless : Bool) (name : Option (List Char)) : Nat → Reader Node
  | 0 => failure
  | fuel + 1 => do
    match ← peek with
    | some (.scalar plain text) =>
      skip
      return .scalar plain text
    | some .flowSequenceStart =>
      skip
      return .sequence (← readFlowItems true fuel)
    | some .flowMappingStart =>
      skip
      return .mapping (← readFlowEntries true fuel)
    | some .entry =>
      if indentless then return .sequence (← readIndentlessItems fuel)
      else if name.isSome then return absent
      else failure
    | some .sequenceStart =>
      if block then
        skip
        return .sequence (← readItems fuel)
      else if name.isSome then return absent
      else failure
    | some .mappingStart =>
      if block then
        skip
        return .mapping (← readEntries fuel)
      else if name.isSome then return absent
      else failure
    | _ => if name.isSome then return absent else failure

/-- Reads the items of a block sequence and its end. -/
def readItems : Nat → Reader (List Node)
  | 0 => failure
  | fuel + 1 => do
    if ← accept .entry then
      let item ← if ← nextIn [.entry, .blockEnd] then pure absent else read true false fuel
      return item :: (← readItems fuel)
    else if ← accept .blockEnd then return []
    else failure

/-- Reads the items of a sequence that is not indented further than its key. -/
def readIndentlessItems : Nat → Reader (List Node)
  | 0 => failure
  | fuel + 1 => do
    if ← accept .entry then
      let item ←
        if ← nextIn [.entry, .key, .value, .blockEnd] then pure absent else read true false fuel
      return item :: (← readIndentlessItems fuel)
    else return []

/-- Reads the entries of a block mapping and its end. -/
def readEntries : Nat → Reader (List (Node × Node))
  | 0 => failure
  | fuel + 1 => do
    if ← accept .key then
      let key ←
        if ← nextIn [.key, .value, .blockEnd] then pure absent else read true true fuel
      let value ←
        if ← accept .value then
          if ← nextIn [.key, .value, .blockEnd] then pure absent else read true true fuel
        else pure absent
      return (key, value) :: (← readEntries fuel)
    else if ← accept .blockEnd then return []
    else failure

/-- Reads the items of a sequence in brackets and the closing bracket. An item can be a mapping
of a single entry without brackets of its own. -/
def readFlowItems (first : Bool) : Nat → Reader (List Node)
  | 0 => failure
  | fuel + 1 => do
    if ← accept .flowSequenceEnd then return []
    else
      if !first then
        if !(← accept .flowEntry) then failure
      if ← accept .key then
        let key ←
          if ← nextIn [.value, .flowEntry, .flowSequenceEnd] then pure absent
          else read false false fuel
        let value ←
          if ← accept .value then
            if ← nextIn [.flowEntry, .flowSequenceEnd] then pure absent
            else read false false fuel
          else pure absent
        return .mapping [(key, value)] :: (← readFlowItems false fuel)
      else if ← accept .flowSequenceEnd then return []
      else
        let item ← read false false fuel
        return item :: (← readFlowItems false fuel)

/-- Reads the entries of a mapping in braces and the closing brace. -/
def readFlowEntries (first : Bool) : Nat → Reader (List (Node × Node))
  | 0 => failure
  | fuel + 1 => do
    if ← accept .flowMappingEnd then return []
    else
      if !first then
        if !(← accept .flowEntry) then failure
      if ← accept .key then
        let key ←
          if ← nextIn [.value, .flowEntry, .flowMappingEnd] then pure absent
          else read false false fuel
        let value ←
          if ← accept .value then
            if ← nextIn [.flowEntry, .flowMappingEnd] then pure absent
            else read false false fuel
          else pure absent
        return (key, value) :: (← readFlowEntries false fuel)
      else if ← accept .flowMappingEnd then return []
      else
        let key ← read false false fuel
        return (key, absent) :: (← readFlowEntries false fuel)

end

/-- The node of the tokens of a document. There must be no second document; without any there
is no node. -/
def ofTokens? (tokens : List Token) : Option (Option Node) := do
  if tokens.isEmpty then return none
  let fuel := 4 * tokens.length + 4
  let content : Reader Node := do
    if ← accept .documentStart then
      match ← peek with
      | none | some .documentStart | some .documentEnd => return absent
      | _ => read true false fuel
    else read true false fuel
  let (node, after) ← content.run ⟨tokens, []⟩
  if after.tokens.all (· == .documentEnd) then return some node else none

end Node

end ManifestLint.Yaml
