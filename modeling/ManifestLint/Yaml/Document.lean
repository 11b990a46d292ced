import ManifestLint.Yaml.Resolve

set_option autoImplicit false

/-! # Documents

A reader of documents makes a value of the bytes of a file. Which one reads the settings is left
open everywhere but in the program itself, which comes with a reader of its own (`Value.ofBytes`).

That reader takes all the bytes for text first, and the text for one document: its characters must
all be ones that a document may hold, its tokens must form a single node, and the node must have a
value. A text without any node stands for nothing. Directives, tags, and references to what they
stand in are not among what it reads. -/

namespace ManifestLint.Yaml

/-- A reader of documents: it gives the value of the document that the bytes of a file hold. -/
abbrev Reader : Type := ByteArray → Except DocumentFault Value

/-- Decides whether a document may hold a character: control characters other than tabs and line
ends are excluded, and so are the last two characters of the basic plane. -/
def isAllowed (c : Char) : Bool :=
  let n := c.toNat
  n == 9 || n == 10 || n == 13 || (32 ≤ n && n ≤ 126) || n == 0x85 ||
    (0xA0 ≤ n && n ≤ 0xFFFD) || 0x10000 ≤ n

/-- The characters of a text with every line end written as a line feed. -/
def unifyLineEnds : List Char → List Char
  | '\r' :: '\n' :: cs => '\n' :: unifyLineEnds cs
  | '\r' :: cs => '\n' :: unifyLineEnds cs
  | c :: cs => c :: unifyLineEnds cs
  | [] => []

/-- The node of the document that a text holds, if it holds any; nothing at all if the text is
malformed. -/
def Node.ofText? (text : String) : Option (Option Node) := do
  let cs := unifyLineEnds text.toList
  if cs.all isAllowed then Node.ofTokens? (← Token.ofDocument? cs) else none

/-- The value of the document in the bytes of a file. -/
def Value.ofBytes : Reader := fun bytes =>
  match String.fromUTF8? bytes with
  | none => .error .undecodable
  | some s =>
    match Node.ofText? s with
    | none => .error .malformed
    | some none => .ok .null
    | some (some node) => node.value

end ManifestLint.Yaml
