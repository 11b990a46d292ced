import ManifestLint.Stream.Pool

set_option autoImplicit false

/-! # Faults of stream operations

Why an operation on a stream fails, as a cause. The words for a cause are found later, with the
pool at hand in which the tokens of the message are looked up. -/

namespace ManifestLint

/-- Why a repair is refused as unsafe. -/
inductive Refusal where
  /-- Something other than spacing stands before a brace. -/
  | unexpectedBeforeBrace (found : Option TokenId)
  /-- Something other than spacing stands inside a header. -/
  | unexpectedInHeader (found : Option TokenId)
  /-- No keyword stands before the token that was found. -/
  | noHeaderKeyword
  /-- No code stands after the name that was found. -/
  | nothingAfterName
deriving DecidableEq, Repr

/-- Why an operation on a stream fails. -/
inductive Fault where
  /-- The token does not belong to the stream. -/
  | stale (token : TokenId)
  /-- The token belongs to the stream already. -/
  | alreadyPresent (token : TokenId)
  /-- No token can be put at the position. -/
  | insertOutOfRange (index : Int)
  /-- No token stands at the position. -/
  | indexOutOfRange
  /-- A token is needed where there is none. -/
  | noToken
  /-- A repair is refused as unsafe. -/
  | refused (refusal : Refusal)
  /-- A handle is missing where the stream should have it. -/
  | missingHandle
  /-- A walk came back to a token it had passed. -/
  | endlessWalk
deriving DecidableEq, Repr

/-- An optional token as messages show it. -/
def Pool.shown (pool : Pool) : Option TokenId → String
  | none => "None"
  | some token => (pool.get token).shown

/-- A refusal in words. -/
def Refusal.reason (pool : Pool) : Refusal → String
  | unexpectedBeforeBrace found => s!"unexpected {pool.shown found} before brace"
  | unexpectedInHeader found => s!"unexpected {pool.shown found} in header"
  | noHeaderKeyword => "header keyword not found"
  | nothingAfterName => "nothing follows the name"

/-- A fault in words. A refusal is worded together with the finding it is about, so that only
its reason is given here. -/
def Fault.message (pool : Pool) : Fault → String
  | stale token => s!"{pool.shown (some token)} is not part of this token stream"
  | alreadyPresent token => s!"{pool.shown (some token)} is already part of this stream"
  | insertOutOfRange index => s!"insert position {index} out of range"
  | indexOutOfRange => "list index out of range"
  | noToken => "no token"
  | refused refusal => refusal.reason pool
  | missingHandle => "missing handle"
  | endlessWalk => "endless walk"

end ManifestLint
