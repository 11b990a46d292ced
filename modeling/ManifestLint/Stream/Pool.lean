import ManifestLint.Token.Lexeme

set_option autoImplicit false

/-! # Tokens and the pool they live in

A token has an identity: two tokens of the same kind, value and position are still two tokens,
and a token that was taken out of a stream goes on to exist. All tokens that were ever made
are kept in a pool, and a token is named by its number there.

Besides what it was made of, a token carries the *handle* under which the last stream that took
it in knows it. A token that no stream ever took has none. -/

namespace ManifestLint

/-- The number of a token in its pool. -/
abbrev TokenId := Nat

/-- What is known of one token. -/
structure Token where
  kind : Kind
  value : String
  position : Position
  handle : Option Nat
deriving DecidableEq, Repr, Inhabited

namespace Token

/-- A token that belongs to no stream yet. -/
def ofLexeme (lexeme : Lexeme) : Token :=
  ⟨lexeme.kind, lexeme.value, lexeme.position, none⟩

/-- A token that is one space. -/
def singleSpace (position : Position) : Token := ⟨.whitespace, " ", position, none⟩

/-- Decides whether a token is white space of exactly one space. -/
def isSingleSpace (token : Token) : Bool := token.kind == .whitespace && token.value == " "

/-- A token as messages show it. A line end is shown as a line feed, whichever it is. -/
def shown (token : Token) : String :=
  let value := if token.kind = .newline then "'\\n'" else Text.quoted token.value
  s!"Token({token.kind.name}, {value}, L{token.position.line}:{token.position.column})"

end Token

/-- All tokens that were made, the oldest first. -/
structure Pool where
  tokens : Array Token
deriving Repr, Inhabited

namespace Pool

/-- The pool without tokens. -/
def empty : Pool := ⟨#[]⟩

/-- The number of tokens. -/
def size (pool : Pool) : Nat := pool.tokens.size

/-- The token of a number; numbers that were not given out yet stand for an empty token. -/
def get (pool : Pool) (token : TokenId) : Token := pool.tokens.getD token default

/-- The pool with a new token, whose number is the size of the pool before. -/
def add (pool : Pool) (token : Token) : Pool := ⟨pool.tokens.push token⟩

/-- The pool with a token changed in place. -/
def modify (pool : Pool) (token : TokenId) (f : Token → Token) : Pool :=
  ⟨pool.tokens.modify token f⟩

/-- The pool with the handle of a token overwritten. -/
def setHandle (pool : Pool) (token : TokenId) (handle : Nat) : Pool :=
  pool.modify token fun t => { t with handle := some handle }

/-- The pool with the value of a token overwritten. -/
def setValue (pool : Pool) (token : TokenId) (value : String) : Pool :=
  pool.modify token fun t => { t with value := value }

theorem size_add (pool : Pool) (token : Token) : (pool.add token).size = pool.size + 1 := by
  simp [add, size]

theorem size_modify (pool : Pool) (token : TokenId) (f : Token → Token) :
    (pool.modify token f).size = pool.size := by
  simp [modify, size]

theorem get_add (pool : Pool) (token : Token) (other : TokenId) :
    (pool.add token).get other = if other = pool.size then token else pool.get other := by
  simp only [get, add, size, Array.getD_eq_getD_getElem?, Array.getElem?_push]
  split <;> simp

theorem get_modify (pool : Pool) (token other : TokenId) (f : Token → Token) :
    (pool.modify token f).get other =
      if other = token ∧ other < pool.size then f (pool.get other) else pool.get other := by
  simp only [get, modify, size, Array.getD_eq_getD_getElem?, Array.getElem?_modify]
  by_cases h : token = other
  · subst h
    by_cases hlt : token < pool.tokens.size
    · simp [hlt]
    · simp [hlt]
  · simp [h, Ne.symm h]

end Pool

end ManifestLint
