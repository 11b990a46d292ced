import ManifestLint.Stream.Edit
import ManifestLint.Token.Lexing

set_option autoImplicit false

/-! # Several streams over one pool

A store holds any number of streams whose tokens live in one pool, so that one and the same
token can be put into several of them. An edit of one stream leaves the others as they are, but
it can overwrite the handle of a token that stands in another one. -/

namespace ManifestLint

/-- Streams over a common pool of tokens. -/
structure Store where
  pool : Pool
  streams : Array Stream
deriving Repr, Inhabited

/-- The draft a source is read into, or the error that stopped the lexing. The closing lexeme
does not become a token. -/
def Draft.ofSource (source name : String) : Except LexError Draft :=
  (Lexing.ofSource source).toExcept.map (Draft.ofLexemes name)

namespace Store

/-- The store without tokens and streams. -/
def empty : Store := ⟨.empty, #[]⟩

/-- One stream of the store with the pool; a stream that does not exist is empty. -/
def draft (store : Store) (stream : Nat) : Draft :=
  ⟨store.pool, store.streams.getD stream default⟩

/-- The store with one stream and the pool taken from a draft. -/
def putDraft (store : Store) (stream : Nat) (draft : Draft) : Store :=
  ⟨draft.pool, store.streams.setIfInBounds stream draft.stream⟩

/-- Runs an edit on one stream of the store. -/
def run {α : Type} (store : Store) (stream : Nat) (edit : Edit α) : Except Fault α × Store :=
  match edit.run (store.draft stream) with
  | .ok value draft => (.ok value, store.putDraft stream draft)
  | .error fault draft => (.error fault, store.putDraft stream draft)

/-- Opens a new stream with new tokens, one for each lexeme. -/
def openLexemes (store : Store) (name : String) (lexemes : List Lexeme) : Store :=
  let draft := Draft.appendAll ⟨store.pool, .empty name⟩ lexemes
  ⟨draft.pool, store.streams.push draft.stream⟩

/-- Opens a new stream and fills it by an edit. If the edit fails no stream is added, but what
was done to the tokens stays done. -/
def openStream (store : Store) (name : String) (fill : Edit Unit) : Except Fault Nat × Store :=
  match fill.run ⟨store.pool, .empty name⟩ with
  | .ok _ draft => (.ok store.streams.size, ⟨draft.pool, store.streams.push draft.stream⟩)
  | .error fault draft => (.error fault, ⟨draft.pool, store.streams⟩)

/-- Makes a new token that belongs to no stream. -/
def create (store : Store) (token : Token) : TokenId × Store :=
  (store.pool.size, { store with pool := store.pool.add token })

end Store

end ManifestLint
