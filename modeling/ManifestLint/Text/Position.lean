set_option autoImplicit false

/-! # Positions in a text

A position is a line and a column, both counted from one in a text that is read. Only the line
feed ends a line: a carriage return, alone or before a line feed, takes a column like any other
character. Tokens that were made by hand carry whatever position their maker gave them, which
is why the two numbers are integers. -/

namespace ManifestLint

/-- A line and a column. -/
structure Position where
  line : Int
  column : Int
deriving DecidableEq, Repr, Inhabited

namespace Position

/-- The position of the first character of a text. -/
def start : Position := ⟨1, 1⟩

/-- The position after the character `c` that stands at `p`. -/
def step (p : Position) (c : Char) : Position :=
  if c = '\n' then ⟨p.line + 1, 1⟩ else ⟨p.line, p.column + 1⟩

/-- The position after the characters `cs`, the first of which stands at `p`. -/
def after (p : Position) (cs : List Char) : Position := cs.foldl step p

@[simp] theorem after_nil (p : Position) : p.after [] = p := rfl

@[simp] theorem after_cons (p : Position) (c : Char) (cs : List Char) :
    p.after (c :: cs) = (p.step c).after cs := rfl

theorem after_append (p : Position) (xs ys : List Char) :
    p.after (xs ++ ys) = (p.after xs).after ys := by
  simp [after]

end Position

end ManifestLint
