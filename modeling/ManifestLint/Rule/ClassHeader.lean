import ManifestLint.Rule.Basic
import ManifestLint.Rule.Spacing

set_option autoImplicit false

/-! # White space in class headers

A header is a `class` or `define` keyword and the name that follows it. One space stands between
the keyword and the name, and one between the name and the next item. A declaration in the style
of a resource has no name after its keyword and is no header. -/

namespace ManifestLint.ClassHeader

/-! ## Headers -/

/-- The name of the rule on the space before the name. -/
def nameBefore : String := "manifest_whitespace_class_name_single_space_before"

/-- The name of the rule on the space after the name. -/
def nameAfter : String := "manifest_whitespace_class_name_single_space_after"

/-- What the rule on the space before the name reports. -/
def nameBeforeMessage : String :=
  "there should be a single space between the class or defined resource statement and the name"

/-- What the rule on the space after the name reports. -/
def nameAfterMessage : String :=
  "there should be a single space between the class or resource name and the next item"

/-- The keywords that begin a header. -/
def headerKinds : List Kind := [.classWord, .defineWord]

/-- The keyword with the name after it, if there is one. -/
def headerAt (keyword : TokenId) : Edit (Option (TokenId × TokenId)) := do
  match ← Edit.nextNonSpace keyword with
  | none => return none
  | some name =>
    if (← Edit.token name).kind = .identifier then return some (keyword, name) else return none

/-- Keyword and name of every header. -/
def headers : Edit (List (TokenId × TokenId)) := do
  Edit.collect headerAt (← Edit.ofKinds headerKinds)

/-- Decides whether exactly one space stands between two tokens. -/
def singleSpaced (left right : TokenId) : Edit Bool := do
  let between ← Edit.next left
  let j ← Edit.index right
  let i ← Edit.index left
  if j = i + 2 then Edit.isSingleSpace between else return false

/-- Replaces the spacing between two tokens by one space. -/
def collapseBetween (left : TokenId) (right : Option TokenId) : Edit Unit := do
  let spaces ← Edit.spacesUntil Edit.next .unexpectedInHeader right
    ((← get).stream.size + 1) (← Edit.next left)
  Edit.removeAll spaces
  match right with
  | none => throw .noToken
  | some r => Edit.insertSpaceBefore r

/-! ## Before the name -/

/-- The finding in one header whose name is not one space away from the keyword. It sits on
whatever directly follows the keyword. -/
def checkNameBeforeAt (header : TokenId × TokenId) : Edit (Option Finding) := do
  if ← singleSpaced header.1 header.2 then return none
  else
    match ← Edit.next header.1 with
    | none => throw .noToken
    | some t => return some (← Edit.findingAt nameBefore t nameBeforeMessage .error)

/-- The findings in all headers whose name is not one space away from the keyword. -/
def checkNameBefore : Edit (List Finding) := do
  Edit.collect checkNameBeforeAt (← headers)

/-- Leaves one space between the keyword before the finding and the name. -/
def fixNameBefore (finding : Finding) : Edit Unit := do
  match ← Edit.prev (← Edit.anchor finding) with
  | none => throw (.refused .noHeaderKeyword)
  | some keyword =>
    if headerKinds.contains (← Edit.token keyword).kind then
      collapseBetween keyword (← Edit.nextNonSpace keyword)
    else throw (.refused .noHeaderKeyword)

/-! ## After the name -/

/-- The finding in one header whose name is not one space away from the next item. It sits on
the name. A name that ends the source has no next item. -/
def checkNameAfterAt (header : TokenId × TokenId) : Edit (Option Finding) := do
  match ← Edit.nextNonSpace header.2 with
  | none => return none
  | some item =>
    if ← singleSpaced header.2 item then return none
    else return some (← Edit.findingAt nameAfter header.2 nameAfterMessage .error)

/-- The findings in all headers whose name is not one space away from the next item. -/
def checkNameAfter : Edit (List Finding) := do
  Edit.collect checkNameAfterAt (← headers)

/-- Leaves one space between the name and the next item. -/
def fixNameAfter (finding : Finding) : Edit Unit := do
  let name ← Edit.anchor finding
  match ← Edit.nextNonSpace name with
  | none => throw (.refused .nothingAfterName)
  | some item => collapseBetween name (some item)

/-! ## The rules -/

/-- The rule on the space before the name. -/
def nameBeforeRule : Rule := ⟨nameBefore, checkNameBefore, some fixNameBefore⟩

/-- The rule on the space after the name. -/
def nameAfterRule : Rule := ⟨nameAfter, checkNameAfter, some fixNameAfter⟩

end ManifestLint.ClassHeader
