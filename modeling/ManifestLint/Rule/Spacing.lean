import ManifestLint.Rule.Finding
import ManifestLint.Stream.Walk

set_option autoImplicit false

/-! # Collapsing spacing

The part that the repairs have in common: collect the spacing between two tokens, take it out,
and put one new space in its place. The spacing is collected before anything is taken out, so
that a refusal leaves the stream as it was. -/

namespace ManifestLint.Edit

/-- The tokens from `current` on in the direction of `step` that come before `stop`, all of
which have to be spacing. -/
def spacesUntil (step : TokenId → Edit (Option TokenId)) (refusal : Option TokenId → Refusal)
    (stop : Option TokenId) : Nat → Option TokenId → Edit (List TokenId)
  | fuel, current =>
    if current = stop then return []
    else
      match current with
      | none => throw (.refused (refusal none))
      | some t => do
        if (← token t).kind.isSpace then
          match fuel with
          | 0 => throw .endlessWalk
          | fuel + 1 => return t :: (← spacesUntil step refusal stop fuel (← step t))
        else throw (.refused (refusal (some t)))

/-- Takes tokens out of the stream, one after another. -/
def removeAll : List TokenId → Edit Unit
  | [] => return
  | t :: rest => do
    let _ ← remove t
    removeAll rest

/-- Puts a new space directly before a token; it has the position of that token. -/
def insertSpaceBefore (anchor : TokenId) : Edit Unit := do
  let space ← create (.singleSpace (← token anchor).position)
  let _ ← insertBefore anchor space

end ManifestLint.Edit
