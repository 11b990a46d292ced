import ManifestLint.Stream.Pool
import ManifestLint.Stream.Table

set_option autoImplicit false

/-! # Token streams

A stream is an ordered sequence of tokens that can be edited. It gives every token that it takes
in a *handle*, a number that it never gives out again. The *arena* maps handles to tokens, and
the *order* is the list of handles from front to back.

The position of a handle in the order is looked up in a cache. An edit leaves the cache as it is
and only lowers the *watermark*, the first position from which the cache may be wrong; looking a
position up refreshes the cache from the watermark on.

A token belongs to a stream when the arena of the stream has this very token under the token's
current handle. As a second stream may take a token in and overwrite its handle, a token can
stand in the order of a stream it does not belong to any more. -/

namespace ManifestLint

/-- A sequence of tokens with its handles and its cache of positions. -/
structure Stream where
  /-- The name of the source the tokens came from. -/
  source : String
  /-- The tokens by their handles. -/
  arena : Table TokenId
  /-- The handles from front to back. -/
  order : List Nat
  /-- The positions of the handles, as far as they are known. -/
  positions : Table Nat
  /-- The watermark; without one all cached positions are right. -/
  staleFrom : Option Nat
  /-- The handle the next token will get. -/
  nextHandle : Nat
deriving Repr, Inhabited

namespace Stream

/-- The stream without tokens. -/
def empty (source : String) : Stream := ⟨source, .empty, [], .empty, none, 0⟩

/-- The number of tokens in the stream. -/
def size (stream : Stream) : Nat := stream.order.length

/-- The tokens from front to back. -/
def tokens (stream : Stream) : List TokenId := stream.order.filterMap stream.arena.get?

/-- Decides whether a token with the given handle belongs to the stream. -/
def holds (stream : Stream) (token : TokenId) (handle : Option Nat) : Bool :=
  match handle with
  | none => false
  | some h => stream.arena.get? h == some token

/-! ## The cache of positions -/

/-- The cache with the handles numbered from `first` on. -/
def numberFrom (positions : Table Nat) (first : Nat) : List Nat → Table Nat
  | [] => positions
  | handle :: rest => numberFrom (positions.insert handle first) (first + 1) rest

/-- The stream with its cache brought up to date. -/
def refresh (stream : Stream) : Stream :=
  match stream.staleFrom with
  | none => stream
  | some first =>
    { stream with
      positions := numberFrom stream.positions first (stream.order.drop first)
      staleFrom := none }

/-- The watermark lowered to a position, unless it is lower already. -/
def lowerTo (staleFrom : Option Nat) (position : Nat) : Option Nat :=
  match staleFrom with
  | none => some position
  | some first => some (min first position)

/-! ## Edits -/

/-- The stream with a token put at a position, under the next handle. -/
def insertAt (stream : Stream) (position : Nat) (token : TokenId) : Stream :=
  { stream with
    arena := stream.arena.insert stream.nextHandle token
    order := stream.order.insertIdx position stream.nextHandle
    positions := stream.positions.insert stream.nextHandle position
    staleFrom := lowerTo stream.staleFrom (position + 1)
    nextHandle := stream.nextHandle + 1 }

/-- The stream without the handle that stands at a position. -/
def removeAt (stream : Stream) (position handle : Nat) : Stream :=
  { stream with
    arena := stream.arena.erase handle
    order := stream.order.eraseIdx position
    positions := stream.positions.erase handle
    staleFrom := lowerTo stream.staleFrom position }

/-- A stream as messages show it. -/
def shown (stream : Stream) : String :=
  s!"TokenStream({Text.quoted stream.source}, {stream.size} tokens)"

end Stream

end ManifestLint
