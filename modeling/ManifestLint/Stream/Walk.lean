import ManifestLint.Stream.Edit

set_option autoImplicit false

/-! # Walking along a stream

The nearest token on either side of a token that is no spacing, or no trivia at all. A walk asks
the stream for the next neighbour of each token that it passes. In a stream whose tokens belong
to it the positions go strictly up or down, so that a walk makes at most as many steps as there
are tokens; where the same token stands twice a walk can go in a circle, which is reported
as a fault of its own. -/

namespace ManifestLint.Edit

/-- The first token that `step` leads to from `current` on whose kind is not to be skipped; at
most `fuel` steps are made. -/
def walk (step : TokenId → Edit (Option TokenId)) (skip : Kind → Bool) :
    Nat → Option TokenId → Edit (Option TokenId)
  | _, none => return none
  | 0, some _ => throw .endlessWalk
  | fuel + 1, some current => do
    if skip (← token current).kind then walk step skip fuel (← step current)
    else return some current

/-- The first token after a step from `t` on whose kind is not to be skipped. -/
def search (step : TokenId → Edit (Option TokenId)) (skip : Kind → Bool) (t : TokenId) :
    Edit (Option TokenId) := do
  let first ← step t
  walk step skip ((← get).stream.size + 1) first

/-- The nearest token before `t` that is no spacing; a comment is one. -/
def prevNonSpace (t : TokenId) : Edit (Option TokenId) := search prev Kind.isSpace t

/-- The nearest token after `t` that is no spacing; a comment is one. -/
def nextNonSpace (t : TokenId) : Edit (Option TokenId) := search next Kind.isSpace t

/-- The nearest token before `t` that is neither spacing nor a comment. -/
def prevCode (t : TokenId) : Edit (Option TokenId) := search prev Kind.isTrivia t

/-- The nearest token after `t` that is neither spacing nor a comment. -/
def nextCode (t : TokenId) : Edit (Option TokenId) := search next Kind.isTrivia t

/-- Decides whether there is a token and it is white space of exactly one space. -/
def isSingleSpace : Option TokenId → Edit Bool
  | none => return false
  | some t => return (← token t).isSingleSpace

end ManifestLint.Edit
