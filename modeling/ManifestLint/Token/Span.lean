import ManifestLint.Text.Letter
import ManifestLint.Text.Numeral

set_option autoImplicit false

/-! # Spans

The readers that find where a token ends. Each splits the characters that are left into the
part that belongs to the token and the rest, and loses none of them: the two parts, put
together, are what was given (the lemmas named `…_append`). -/

namespace ManifestLint.Span

/-! ## Names -/

/-- A name begins with a letter or an underscore. -/
def startsName (c : Char) : Bool := c == '_' || Text.isLetter c

/-- A name goes on with letters, digits, numerals, underscores, hyphens and dots. -/
def continuesName (c : Char) : Bool :=
  Text.isLetter c || Text.isDigit c || Text.isNumeral c || c == '_' || c == '-' || c == '.'

/-- Decides whether a new part of a name begins: a double colon and what a name begins with. -/
def startsPart : List Char → Bool
  | ':' :: ':' :: c :: _ => startsName c
  | _ => false

/-- The longest name at the front. A double colon belongs to a name only if a new part of the
name begins with it. -/
def name : List Char → List Char × List Char
  | [] => ([], [])
  | c :: cs =>
    if continuesName c then (c :: (name cs).1, (name cs).2)
    else if startsPart (c :: cs) then
      match cs with
      | [] => ([], [c])
      | d :: rest => (c :: d :: (name rest).1, (name rest).2)
    else ([], c :: cs)

theorem name_append (cs : List Char) : (name cs).1 ++ (name cs).2 = cs := by
  fun_induction name cs <;> simp_all

/-! ## Blanks -/

/-- A blank is a space, a tab, or a carriage return that does not belong to a line end. -/
def startsBlank (c : Char) (following : List Char) : Bool :=
  c == ' ' || c == '\t' || (c == '\r' && following.head? != some '\n')

/-- The longest run of blanks at the front. -/
def blanks : List Char → List Char × List Char
  | [] => ([], [])
  | c :: cs => if startsBlank c cs then (c :: (blanks cs).1, (blanks cs).2) else ([], c :: cs)

theorem blanks_append (cs : List Char) : (blanks cs).1 ++ (blanks cs).2 = cs := by
  fun_induction blanks cs <;> simp_all

/-! ## Quoted texts and regular expressions -/

/-- The characters up to and including the next `quote` that no backslash precedes, where a
backslash takes the character after it along whatever that is. -/
def quotedTail (quote : Char) : List Char → Option (List Char × List Char)
  | [] => none
  | c :: cs =>
    if c = '\\' then
      match cs with
      | [] => none
      | d :: rest => (quotedTail quote rest).map fun p => (c :: d :: p.1, p.2)
    else if c = quote then some ([c], cs)
    else (quotedTail quote cs).map fun p => (c :: p.1, p.2)

theorem quotedTail_append {quote : Char} {cs : List Char} {p : List Char × List Char}
    (h : quotedTail quote cs = some p) : p.1 ++ p.2 = cs := by
  fun_induction quotedTail quote cs generalizing p with
  | case1 => simp at h
  | case2 => simp at h
  | case3 d rest ih =>
    obtain ⟨q, hq, rfl⟩ := Option.map_eq_some_iff.1 h
    simp [ih hq]
  | case4 => cases h; rfl
  | case5 c cs _ _ ih =>
    obtain ⟨q, hq, rfl⟩ := Option.map_eq_some_iff.1 h
    simp [ih hq]

/-- The characters up to and including the slash that closes a regular expression. The search
ends at the end of the line, but a backslash takes any character along, a line end too. -/
def regexTail : List Char → Option (List Char × List Char)
  | [] => none
  | c :: cs =>
    if c = '\\' then
      match cs with
      | [] => none
      | d :: rest => (regexTail rest).map fun p => (c :: d :: p.1, p.2)
    else if c = '\n' ∨ c = '\r' then none
    else if c = '/' then some ([c], cs)
    else (regexTail cs).map fun p => (c :: p.1, p.2)

theorem regexTail_append {cs : List Char} {p : List Char × List Char}
    (h : regexTail cs = some p) : p.1 ++ p.2 = cs := by
  fun_induction regexTail cs generalizing p with
  | case1 => simp at h
  | case2 => simp at h
  | case3 d rest ih =>
    obtain ⟨q, hq, rfl⟩ := Option.map_eq_some_iff.1 h
    simp [ih hq]
  | case4 => simp at h
  | case5 => cases h; rfl
  | case6 c cs _ _ _ ih =>
    obtain ⟨q, hq, rfl⟩ := Option.map_eq_some_iff.1 h
    simp [ih hq]

/-! ## Numbers and comments -/

/-- The characters at the front that satisfy `p`, and the rest. -/
def run (p : Char → Bool) (cs : List Char) : List Char × List Char :=
  (cs.takeWhile p, cs.dropWhile p)

theorem run_append (p : Char → Bool) (cs : List Char) :
    (run p cs).1 ++ (run p cs).2 = cs := by
  simp [run]

/-- The digits at the front, and a dot with the digits after it if there are any. -/
def number (cs : List Char) : List Char × List Char :=
  let whole := run Text.isDigit cs
  match whole.2 with
  | c :: d :: rest =>
    if c = '.' ∧ Text.isDigit d then
      let fraction := run Text.isDigit (d :: rest)
      (whole.1 ++ c :: fraction.1, fraction.2)
    else whole
  | _ => whole

theorem number_append (cs : List Char) : (number cs).1 ++ (number cs).2 = cs := by
  have hw := run_append Text.isDigit cs
  unfold number
  simp only
  split
  · rename_i c d rest h
    split
    · have hf := run_append Text.isDigit (d :: rest)
      rw [List.append_assoc, List.cons_append, hf, ← h, hw]
    · exact hw
  · exact hw

/-- The characters before the end of the line; any carriage return counts as one here. -/
def comment (cs : List Char) : List Char × List Char :=
  run (fun c => c != '\n' && c != '\r') cs

theorem comment_append (cs : List Char) : (comment cs).1 ++ (comment cs).2 = cs :=
  run_append _ cs

end ManifestLint.Span
