set_option autoImplicit false

/-! # Name patterns

A name pattern is matched against one whole name: a star stands for any characters, a question
mark for one, and brackets for one of the characters listed, or for one that is not listed if
the list begins with an exclamation mark. An opening bracket that is never closed stands for
itself. A leading dot is no exception to any of this.

Inside brackets a hyphen between two characters makes a range. A range that runs downwards is
empty: it takes its two ends with it. -/

namespace ManifestLint.Glob

/-- A part of a name pattern. -/
inductive Item where
  /-- Any characters. -/
  | star
  /-- Any one character. -/
  | any
  /-- One character of a set of ranges, or one outside of it. -/
  | oneOf (negated : Bool) (ranges : List (Char × Char))
  /-- This character. -/
  | exact (c : Char)
deriving DecidableEq, Repr

/-! ## Brackets -/

/-- The characters before the bracket that closes a list, and those after it. A closing bracket
that comes first, or right after the exclamation mark, belongs to the list. -/
def bracket? (cs : List Char) : Option (List Char × List Char) :=
  let mark := if cs.head? = some '!' then 1 else 0
  let first := if (cs.drop mark).head? = some ']' then mark + 1 else mark
  let body := (cs.drop first).takeWhile (· != ']')
  match (cs.drop first).dropWhile (· != ']') with
  | [] => none
  | _ :: rest => some (cs.take first ++ body, rest)

/-- Cuts a list at the hyphens that make ranges. The first `keep` characters cannot be such a
hyphen, and two characters after a cut cannot be one either. The last chunk is not empty: a
hyphen at the very end is an ordinary character. -/
def chunks : Nat → List Char → List Char → List (List Char)
  | _, [], chunk => [chunk.reverse]
  | 0, '-' :: rest, chunk =>
    if rest = [] then [('-' :: chunk).reverse] else chunk.reverse :: chunks 2 rest []
  | keep, c :: rest, chunk => chunks (keep - 1) rest (c :: chunk)

/-- Joins chunks whose range would run downwards, from the last to the first. -/
def dropEmptyRanges : List (List Char) → List (List Char)
  | [] => []
  | chunk :: rest =>
    match chunk.getLast?, dropEmptyRanges rest with
    | some low, (high :: others) :: more =>
      if high < low then (chunk.dropLast ++ others) :: more else chunk :: (high :: others) :: more
    | _, done => chunk :: done

/-- Every character as a range of its own. -/
def singles (cs : List Char) : List (Char × Char) := cs.map fun c => (c, c)

/-- The ranges that chunks stand for: the last character of a chunk and the first one of the
next are the ends of a range. Where there is no last character the hyphen is an ordinary one. -/
def rangesOf : List (List Char) → List (Char × Char)
  | [] => []
  | [chunk] => singles chunk
  | chunk :: next :: rest =>
    match chunk.getLast?, next with
    | some low, high :: others =>
      singles chunk.dropLast ++ (low, high) :: rangesOf (others :: rest)
    | _, _ => singles chunk ++ ('-', '-') :: rangesOf (next :: rest)
termination_by chunks => chunks.length

/-- The set that a list between brackets stands for. A list of which nothing is left stands for
no character, and a lone exclamation mark for every character. -/
def itemOf (body : List Char) : Item :=
  let keep := if body.head? = some '!' then 2 else 1
  let cut := if body.contains '-' then dropEmptyRanges (chunks keep body []) else [body]
  match cut with
  | ('!' :: chunk) :: rest =>
    if chunk = [] ∧ rest = [] then .any else .oneOf true (rangesOf (chunk :: rest))
  | _ => .oneOf false (rangesOf cut)

/-! ## Patterns -/

/-- Reads a pattern; `fuel` bounds the number of its parts. -/
def itemsOf : Nat → List Char → List Item
  | 0, _ => []
  | _, [] => []
  | fuel + 1, c :: cs =>
    if c = '*' then .star :: itemsOf fuel cs
    else if c = '?' then .any :: itemsOf fuel cs
    else if c = '[' then
      match bracket? cs with
      | some (body, rest) => itemOf body :: itemsOf fuel rest
      | none => .exact c :: itemsOf fuel cs
    else .exact c :: itemsOf fuel cs

/-- The parts of a pattern. -/
def ofString (s : String) : List Item := itemsOf s.toList.length s.toList

/-- Decides whether a character fits a part of a pattern. -/
def Item.fits (item : Item) (c : Char) : Bool :=
  match item with
  | .star => false
  | .any => true
  | .oneOf negated ranges => (ranges.any fun r => decide (r.1 ≤ c) && decide (c ≤ r.2)) != negated
  | .exact d => c == d

/-- Decides whether a pattern fits a whole name. -/
def fits : List Item → List Char → Bool
  | [], cs => cs.isEmpty
  | .star :: items, [] => fits items []
  | .star :: items, c :: cs => fits items (c :: cs) || fits (.star :: items) cs
  | _ :: _, [] => false
  | item :: items, c :: cs => item.fits c && fits items cs
termination_by items cs => items.length + cs.length

end ManifestLint.Glob
