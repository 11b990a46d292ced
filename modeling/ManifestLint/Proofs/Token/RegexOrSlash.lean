import Mathlib.Data.List.DropRight
import ManifestLint.Proofs.Token.Prefix

set_option autoImplicit false

/-! # Regular expression or slash

A slash at which a token begins opens a regular expression if the last code token before it
allows one and a slash that closes it follows. Whether a character is *escaped* is said without
the search for the closing slash: an odd number of backslashes stands directly before it. The
search (`Span.regexTail`) stops at the first unescaped slash, and it is given up at an unescaped
line end; an escaped line end it passes over (`regexTail_eq_some_iff`).

`ofSource_slash` puts this together with the context that the lexing hands from token to token,
for every slash of every source. Regular expressions that stay on one line, `OneLine`, are read
in the same way as if no line end were ever passed over, and no others are. -/

namespace ManifestLint

/-! ## Escapes -/

/-- Decides whether the character after `front` is escaped: an odd number of backslashes stands
directly before it. -/
def escapesNext (front : List Char) : Bool := (front.rtakeWhile (· == '\\')).length % 2 == 1

@[simp] theorem escapesNext_nil : escapesNext [] = false := rfl

theorem escapesNext_concat (front : List Char) (c : Char) :
    escapesNext (front ++ [c]) = (c == '\\' && !escapesNext front) := by
  unfold escapesNext
  rw [List.rtakeWhile_concat]
  by_cases hc : (c == '\\') = true
  · rw [if_pos hc, hc, List.length_append, List.length_singleton]
    -- one backslash more
    rcases Nat.mod_two_eq_zero_or_one (front.rtakeWhile (· == '\\')).length with h | h
    · simp [h, Nat.add_mod]
    · simp [h, Nat.add_mod]
  · rw [if_neg hc]
    simp [hc]

/-- A character that is no backslash has no part in what is escaped behind it. -/
theorem escapesNext_cons {c : Char} (h : c ≠ '\\') (front : List Char) :
    escapesNext (c :: front) = escapesNext front := by
  induction front using List.reverseRecOn with
  | nil => exact (escapesNext_concat [] c).trans (by simp [h])
  | append_singleton front d ih =>
      rw [← List.cons_append, escapesNext_concat, escapesNext_concat, ih]

/-- Neither has a backslash together with the character it escapes. -/
theorem escapesNext_escape (d : Char) (front : List Char) :
    escapesNext ('\\' :: d :: front) = escapesNext front := by
  induction front using List.reverseRecOn with
  | nil => exact (escapesNext_concat ['\\'] d).trans (Bool.and_false _)
  | append_singleton front e ih =>
      rw [← List.cons_append, ← List.cons_append, escapesNext_concat, escapesNext_concat, ih]

/-- The characters of `body` that satisfy `p` are escaped. -/
def AllEscaped (p : Char → Prop) (body : List Char) : Prop :=
  ∀ front c back, body = front ++ c :: back → p c → escapesNext front = true

variable {p : Char → Prop} {c : Char} {body : List Char}

theorem allEscaped_nil (p : Char → Prop) : AllEscaped p [] := by
  intro front c back h
  simp at h

theorem allEscaped_cons (hc : c ≠ '\\') :
    AllEscaped p (c :: body) ↔ ¬p c ∧ AllEscaped p body := by
  constructor
  · intro h
    refine ⟨fun hp => ?_, fun front d back hbody hd => ?_⟩
    · cases h [] c body rfl hp
    · rw [← escapesNext_cons hc]
      exact h (c :: front) d back (congrArg (List.cons c) hbody) hd
  · rintro ⟨hp, h⟩ front d back hbody hd
    cases front with
    | nil =>
        obtain ⟨rfl, -⟩ := List.cons.inj hbody
        exact absurd hd hp
    | cons e front =>
        obtain ⟨rfl, hback⟩ := List.cons.inj hbody
        rw [escapesNext_cons hc]
        exact h front d back hback hd

theorem allEscaped_escape (hp : ¬p '\\') {d : Char} :
    AllEscaped p ('\\' :: d :: body) ↔ AllEscaped p body := by
  constructor
  · intro h front e back hbody he
    rw [← escapesNext_escape d]
    exact h ('\\' :: d :: front) e back (by rw [hbody]; rfl) he
  · intro h front e back hbody he
    match front with
    | [] =>
        obtain ⟨rfl, -⟩ := List.cons.inj hbody
        exact absurd he hp
    | [first] =>
        obtain ⟨rfl, -⟩ := List.cons.inj hbody
        rfl
    | first :: second :: front =>
        obtain ⟨rfl, hrest⟩ := List.cons.inj hbody
        obtain ⟨rfl, hback⟩ := List.cons.inj hrest
        rw [escapesNext_escape]
        exact h front e back hback he

/-! ## The closing slash -/

/-- The text `tail` behind an opening slash has `body` up to the first slash that is not
escaped. -/
structure ClosedAfter (tail body rest : List Char) : Prop where
  split : tail = body ++ '/' :: rest
  closing : escapesNext body = false
  first : AllEscaped (· = '/') body

/-- A character that ends a line. -/
def IsLineEnd (c : Char) : Prop := c = '\n' ∨ c = '\r'

/-- A text without line ends. -/
def OneLine (text : List Char) : Prop := ∀ c ∈ text, ¬IsLineEnd c

variable {tail rest : List Char}

theorem not_closedAfter_nil : ¬ClosedAfter [] body rest := by
  rintro ⟨hsplit, -, -⟩
  simp at hsplit

/-- A slash closes, and any other character that is no backslash is passed over. -/
theorem closedAfter_cons_iff (hc : c ≠ '\\') :
    ClosedAfter (c :: tail) body rest ↔
      (c = '/' ∧ body = [] ∧ rest = tail) ∨
        (c ≠ '/' ∧ ∃ others, body = c :: others ∧ ClosedAfter tail others rest) := by
  constructor
  · rintro ⟨hsplit, hclosing, hfirst⟩
    cases body with
    | nil =>
        obtain ⟨hslash, htail⟩ := List.cons.inj hsplit
        exact .inl ⟨hslash, rfl, htail.symm⟩
    | cons d others =>
        obtain ⟨rfl, htail⟩ := List.cons.inj hsplit
        rw [escapesNext_cons hc] at hclosing
        obtain ⟨hslash, hothers⟩ := (allEscaped_cons hc).1 hfirst
        exact .inr ⟨hslash, others, rfl, htail, hclosing, hothers⟩
  · rintro (⟨rfl, rfl, rfl⟩ | ⟨hslash, others, rfl, htail, hclosing, hothers⟩)
    · exact ⟨rfl, rfl, allEscaped_nil _⟩
    · exact ⟨congrArg (List.cons c) htail, (escapesNext_cons hc others).trans hclosing,
        (allEscaped_cons hc).2 ⟨hslash, hothers⟩⟩

/-- A backslash is passed over together with the character after it. -/
theorem closedAfter_escape_iff :
    ClosedAfter ('\\' :: tail) body rest ↔
      ∃ d behind others, tail = d :: behind ∧ body = '\\' :: d :: others ∧
        ClosedAfter behind others rest := by
  constructor
  · rintro ⟨hsplit, hclosing, hfirst⟩
    match body with
    | [] => simp at hsplit
    | [e] =>
        obtain ⟨rfl, -⟩ := List.cons.inj hsplit
        cases hclosing
    | e :: d :: others =>
        obtain ⟨rfl, htail⟩ := List.cons.inj hsplit
        rw [escapesNext_escape] at hclosing
        exact ⟨d, others ++ '/' :: rest, others, htail, rfl, rfl, hclosing,
          (allEscaped_escape (by decide)).1 hfirst⟩
  · rintro ⟨d, behind, others, rfl, rfl, hsplit, hclosing, hfirst⟩
    exact ⟨by rw [hsplit]; rfl, (escapesNext_escape d others).trans hclosing,
      (allEscaped_escape (by decide)).2 hfirst⟩

/-- The text `tail` behind an opening slash is split after the slash that closes it, and all line
ends before that are escaped. -/
def Closes (tail : List Char) (split : List Char × List Char) : Prop :=
  ∃ body, split.1 = body ++ ['/'] ∧ ClosedAfter tail body split.2 ∧ AllEscaped IsLineEnd body

variable {split : List Char × List Char}

theorem closes_slash_iff : Closes ('/' :: tail) split ↔ split = (['/'], tail) := by
  constructor
  · rintro ⟨body, hbody, hclosed, -⟩
    rcases (closedAfter_cons_iff (by decide)).1 hclosed with ⟨-, rfl, hrest⟩ | ⟨hne, -⟩
    · exact Prod.ext hbody hrest
    · exact absurd rfl hne
  · rintro rfl
    exact ⟨[], rfl, ⟨rfl, rfl, allEscaped_nil _⟩, allEscaped_nil _⟩

theorem not_closes_lineEnd (hc : c ≠ '\\') (hline : IsLineEnd c) : ¬Closes (c :: tail) split := by
  rintro ⟨body, -, hclosed, hlines⟩
  rcases (closedAfter_cons_iff hc).1 hclosed with ⟨rfl, -, -⟩ | ⟨-, others, rfl, -⟩
  · simp [IsLineEnd] at hline
  · exact ((allEscaped_cons hc).1 hlines).1 hline

theorem closes_cons_iff (hc : c ≠ '\\') (hline : ¬IsLineEnd c) (hslash : c ≠ '/') :
    Closes (c :: tail) split ↔ ∃ inner, Closes tail inner ∧ (c :: inner.1, inner.2) = split := by
  constructor
  · rintro ⟨body, hbody, hclosed, hlines⟩
    rcases (closedAfter_cons_iff hc).1 hclosed with ⟨hno, -⟩ | ⟨-, others, rfl, hinner⟩
    · exact absurd hno hslash
    · refine ⟨(others ++ ['/'], split.2), ⟨others, rfl, hinner, ?_⟩, Prod.ext hbody.symm rfl⟩
      exact ((allEscaped_cons hc).1 hlines).2
  · rintro ⟨inner, ⟨others, hothers, hclosed, hlines⟩, rfl⟩
    refine ⟨c :: others, by rw [hothers]; rfl, ?_, (allEscaped_cons hc).2 ⟨hline, hlines⟩⟩
    exact (closedAfter_cons_iff hc).2 (.inr ⟨hslash, others, rfl, hclosed⟩)

theorem closes_escape_iff {d : Char} :
    Closes ('\\' :: d :: tail) split ↔
      ∃ inner, Closes tail inner ∧ ('\\' :: d :: inner.1, inner.2) = split := by
  have hbackslash : ¬IsLineEnd '\\' := by simp [IsLineEnd]
  constructor
  · rintro ⟨body, hbody, hclosed, hlines⟩
    obtain ⟨_, _, others, ⟨rfl, rfl⟩, rfl, hinner⟩ := closedAfter_escape_iff.1 hclosed
    refine ⟨(others ++ ['/'], split.2), ⟨others, rfl, hinner, ?_⟩, Prod.ext hbody.symm rfl⟩
    exact (allEscaped_escape hbackslash).1 hlines
  · rintro ⟨inner, ⟨others, hothers, hclosed, hlines⟩, rfl⟩
    refine ⟨'\\' :: d :: others, by rw [hothers]; rfl, ?_, ?_⟩
    · exact closedAfter_escape_iff.2 ⟨d, tail, others, rfl, rfl, hclosed⟩
    · exact (allEscaped_escape hbackslash).2 hlines

/-- **The search for the closing slash** finds the first slash that is not escaped, provided that
all line ends before it are escaped. -/
theorem regexTail_eq_some_iff : Span.regexTail tail = some split ↔ Closes tail split := by
  fun_induction Span.regexTail tail generalizing split with
  | case1 => simp [Closes, not_closedAfter_nil]
  | case2 => simp [Closes, closedAfter_escape_iff]
  | case3 d behind ih =>
    rw [Option.map_eq_some_iff, closes_escape_iff]
    exact exists_congr fun inner => and_congr_left' ih
  | case4 c behind hc hline => exact iff_of_false (by simp) (not_closes_lineEnd hc hline)
  | case5 behind => rw [closes_slash_iff, Option.some.injEq, eq_comm]
  | case6 c behind hc hline hslash ih =>
    rw [Option.map_eq_some_iff, closes_cons_iff hc hline hslash]
    exact exists_congr fun inner => and_congr_left' ih

/-! ## The code before a slash -/

/-- The last lexeme that is no trivia. -/
def lastCode? (front : List Lexeme) : Option Lexeme :=
  (front.filter fun lexeme => !lexeme.kind.isTrivia).getLast?

/-- The kinds of code after which a regular expression may begin whatever they say. -/
def regexPreceders : List Kind :=
  [.regexMatch, .regexNoMatch, .comma, .leftBracket, .leftParen, .leftBrace, .rightBrace]

/-- After the lexemes `front` a slash may open a regular expression: there is no code among them,
or the last of it is one of `regexPreceders` or the name `node`. -/
def MayOpenRegex (front : List Lexeme) : Prop :=
  ∀ last ∈ lastCode? front,
    last.kind ∈ regexPreceders ∨ (last.kind = .identifier ∧ last.value = "node")

theorem lastCode?_concat (front : List Lexeme) (lexeme : Lexeme) :
    lastCode? (front ++ [lexeme]) =
      if lexeme.kind.isTrivia then lastCode? front else some lexeme := by
  unfold lastCode?
  rw [List.filter_append]
  by_cases htrivia : lexeme.kind.isTrivia = true
  · simp [htrivia]
  · simp [htrivia]

theorem allowsRegexAfter_iff (lexeme : Lexeme) :
    allowsRegexAfter lexeme.kind lexeme.value.toList = true ↔
      lexeme.kind ∈ regexPreceders ∨ (lexeme.kind = .identifier ∧ lexeme.value = "node") := by
  have hnode : lexeme.value.toList = nodeWord ↔ lexeme.value = "node" := by
    rw [show nodeWord = "node".toList from rfl, String.toList_inj]
  cases hkind : lexeme.kind <;> simp [allowsRegexAfter, regexPreceders, hnode]

/-- The context after some lexemes at the beginning of a source. -/
def contextAfter (front : List Lexeme) : Context :=
  (front.map Lexeme.piece).foldl Context.afterPiece .start

/-- **What a context remembers** of all lexemes before it. -/
theorem regexAllowed_contextAfter (front : List Lexeme) :
    (contextAfter front).regexAllowed = true ↔ MayOpenRegex front := by
  induction front using List.reverseRecOn with
  | nil => simp [contextAfter, Context.start, MayOpenRegex, lastCode?]
  | append_singleton front lexeme ih =>
      have hstep : contextAfter (front ++ [lexeme]) =
          (contextAfter front).after lexeme.kind lexeme.value.toList := by
        simp [contextAfter, Context.afterPiece, Lexeme.piece, Piece.chars]
      rw [hstep, MayOpenRegex, lastCode?_concat]
      -- trivia leave both sides as they are, and code replaces what was remembered
      by_cases htrivia : lexeme.kind.isTrivia = true
      · rw [if_pos htrivia, Context.after, if_pos htrivia]
        exact ih
      · rw [if_neg htrivia, Context.after, if_neg htrivia]
        simpa using allowsRegexAfter_iff lexeme

namespace Lexing

/-- The lexemes behind some others are read in the context that those leave. -/
theorem ofChars_of_prefix {front : List Lexeme} {context : Context} {position : Position}
    {cs rest : List Char} (hfront : front <+: (ofChars context position cs).lexemes)
    (hcs : cs = Piece.charsOf (front.map Lexeme.piece) ++ rest) (hrest : rest ≠ []) :
    ∃ position', (ofChars context position cs).lexemes = front ++
      (ofChars ((front.map Lexeme.piece).foldl Context.afterPiece context) position'
        rest).lexemes :=
  ⟨_, congrArg lexemes (ofChars_eq_behind hfront hcs hrest)⟩

end Lexing

/-! ## The token that begins with a slash -/

theorem scanWordOrOperator_slash (tail : List Char) :
    scanWordOrOperator '/' tail = .ok ⟨.slash, ['/'], tail⟩ := by
  unfold scanWordOrOperator
  rw [if_neg (by simp), if_neg (by decide +kernel)]
  rfl

/-- A slash is read whatever comes after it. -/
theorem scan_slash (context : Context) (tail : List Char) :
    scan context '/' tail = .ok ((scanRegex? context tail).getD ⟨.slash, ['/'], tail⟩) := by
  rw [scan_of_not_separator rfl]
  cases hregex : scanRegex? context tail with
  | none => rw [scanCode_slash_of_none hregex, scanWordOrOperator_slash]; rfl
  | some regex => exact scanCode_slash_of_some hregex

theorem kind_ne_regex_operators : ∀ entry ∈ operators, entry.2 ≠ .regex := by decide

theorem kind_ne_regex_wordKind (text : List Char) : wordKind text ≠ .regex := by
  unfold wordKind
  repeat' split
  all_goals decide

theorem kind_ne_regex_scanWordOrOperator {c : Char} {cs : List Char} {s : Scanned}
    (h : scanWordOrOperator c cs = .ok s) : s.kind ≠ .regex := by
  unfold scanWordOrOperator at h
  split at h
  · cases h
    exact Kind.noConfusion
  split at h
  · cases h
    exact kind_ne_regex_wordKind _
  split at h
  · rename_i hop
    cases h
    exact kind_ne_regex_operators _ (List.mem_of_find?_eq_some hop)
  · cases h

theorem kind_ne_regex_scanMinus (cs : List Char) : (scanMinus cs).kind ≠ .regex := by
  unfold scanMinus
  split
  · exact Kind.noConfusion
  split
  · exact Kind.noConfusion
  split
  · exact Kind.noConfusion
  · exact Kind.noConfusion

/-- Nothing but a slash begins a regular expression. -/
theorem eq_slash_of_regex {context : Context} {c : Char} {cs : List Char} {s : Scanned}
    (h : scan context c cs = .ok s) (hkind : s.kind = .regex) : c = '/' := by
  rcases scan_cases h with ⟨-, rfl⟩ | ⟨hline, -⟩ | ⟨-, hcode⟩
  · simp only [Scanned.ofSplit] at hkind
    split at hkind <;> cases hkind
  · rw [hline] at hkind
    cases hkind
  · by_contra hc
    -- every branch of `scanCode` but the one for a slash gives tokens of other kinds
    unfold scanCode at hcode
    rw [if_neg hc] at hcode
    split at hcode
    · cases hcode
      cases hkind
    split at hcode
    · split at hcode
      · cases hcode
        cases hkind
      · cases hcode
    split at hcode
    · cases hcode
      cases hkind
    split at hcode
    · cases hcode
      exact kind_ne_regex_scanMinus cs hkind
    split at hcode
    · cases hcode
      cases hkind
    · exact kind_ne_regex_scanWordOrOperator hcode hkind

/-- How a slash between the lexemes `front` and the text `tail` is read, if regular expressions
are taken to be the texts between slashes that satisfy `fits`. -/
inductive SlashRead (fits : List Char → Prop) (front : List Lexeme) (tail : List Char) :
    Lexeme → Prop
  | regex {body rest : List Char} (position : Position) :
      MayOpenRegex front → ClosedAfter tail body rest → fits body →
      SlashRead fits front tail ⟨.regex, String.ofList ('/' :: (body ++ ['/'])), position⟩
  | slash (position : Position) :
      ¬(MayOpenRegex front ∧ ∃ body rest, ClosedAfter tail body rest ∧ fits body) →
      SlashRead fits front tail ⟨.slash, "/", position⟩

theorem slashRead_of_scan (front : List Lexeme) (tail : List Char) (position : Position) :
    ∃ lexeme, SlashRead (AllEscaped IsLineEnd) front tail lexeme ∧
      ∃ others, (Lexing.ofChars (contextAfter front) position ('/' :: tail)).lexemes =
        lexeme :: others := by
  rw [Lexing.ofChars_ok (scan_slash _ tail), Lexing.cons_lexemes]
  refine ⟨_, ?_, _, rfl⟩
  have hallowed := regexAllowed_contextAfter front
  cases hregex : scanRegex? (contextAfter front) tail with
  | none =>
      refine .slash position ?_
      rintro ⟨hmay, body, rest, hclosed, hlines⟩
      have htail : Span.regexTail tail = some (body ++ ['/'], rest) :=
        regexTail_eq_some_iff.2 ⟨body, rfl, hclosed, hlines⟩
      rw [scanRegex?, if_pos (hallowed.2 hmay), htail] at hregex
      cases hregex
  | some s =>
      unfold scanRegex? at hregex
      split at hregex
      · rename_i hmay
        obtain ⟨⟨_, rest⟩, hsplit, rfl⟩ := Option.map_eq_some_iff.1 hregex
        obtain ⟨body, rfl, hclosed, hlines⟩ := regexTail_eq_some_iff.1 hsplit
        exact .regex position (hallowed.1 hmay) hclosed hlines
      · cases hregex

theorem oneLine_slashes : OneLine ('/' :: (body ++ ['/'])) ↔ OneLine body := by
  simp [OneLine, IsLineEnd, or_imp, forall_and]

theorem OneLine.allEscaped (h : OneLine body) : AllEscaped IsLineEnd body := by
  rintro front c back rfl hc
  exact absurd hc (h c (by simp))

namespace SlashRead

variable {front : List Lexeme} {lexeme : Lexeme}

theorem oneLine (h : SlashRead OneLine front tail lexeme) : OneLine lexeme.value.toList := by
  cases h with
  | regex position _ _ hline =>
      rw [String.toList_ofList]
      exact oneLine_slashes.2 hline
  | slash position _ => simp [OneLine, IsLineEnd]

/-- A slash is read as if regular expressions never went over a line end, unless the one that is
read does. -/
theorem oneLine_iff (h : SlashRead (AllEscaped IsLineEnd) front tail lexeme) :
    SlashRead OneLine front tail lexeme ↔ OneLine lexeme.value.toList := by
  refine ⟨oneLine, fun hline => ?_⟩
  cases h with
  | regex position hmay hclosed _ =>
      rw [String.toList_ofList] at hline
      exact .regex position hmay hclosed (oneLine_slashes.1 hline)
  | slash position hno =>
      -- a closing slash on the same line would have been found
      refine .slash position fun ⟨hmay, body, rest, hclosed, hbody⟩ => ?_
      exact hno ⟨hmay, body, rest, hclosed, hbody.allEscaped⟩

end SlashRead

namespace Lexing

/-- A slash begins each regular expression of a lexing. -/
theorem exists_slash_of_regex {front : List Lexeme} {lexeme : Lexeme} {context : Context}
    {position : Position} {cs : List Char}
    (h : front ++ [lexeme] <+: (ofChars context position cs).lexemes)
    (hkind : lexeme.kind = .regex) :
    ∃ tail, cs = Piece.charsOf (front.map Lexeme.piece) ++ '/' :: tail := by
  rcases (exists_fits_behind h).2 with ⟨-, hclosing⟩ | ⟨rest, rfl, c, tail, htext, hscan⟩
  · rw [show lexeme.kind = .endOfFile from congrArg Piece.kind hclosing] at hkind
    cases hkind
  · obtain rfl := eq_slash_of_regex hscan hkind
    exact ⟨tail, by rw [htext]⟩

/-- **Regular expression or slash.** Wherever a slash begins a token of a source, it is read as a
regular expression if the code before it allows one and a slash closes it, with no unescaped line
end on the way; it is a slash of its own otherwise. Only if the token goes over an escaped line
end is that not what would be read if regular expressions had to stay on their line. A regular
expression begins nowhere else. -/
theorem ofSource_slash (source : String) :
    (∀ front tail, front <+: (ofSource source).lexemes →
        source.toList = Piece.charsOf (front.map Lexeme.piece) ++ '/' :: tail →
        ∃ lexeme, front ++ [lexeme] <+: (ofSource source).lexemes ∧
          SlashRead (AllEscaped IsLineEnd) front tail lexeme ∧
          (SlashRead OneLine front tail lexeme ↔ OneLine lexeme.value.toList)) ∧
      ∀ front lexeme, front ++ [lexeme] <+: (ofSource source).lexemes → lexeme.kind = .regex →
        ∃ tail, source.toList = Piece.charsOf (front.map Lexeme.piece) ++ '/' :: tail := by
  refine ⟨fun front tail hfront hsource => ?_, fun front lexeme h => exists_slash_of_regex h⟩
  obtain ⟨position, hlexemes⟩ := ofChars_of_prefix hfront hsource (List.cons_ne_nil '/' tail)
  obtain ⟨lexeme, hread, others, hothers⟩ := slashRead_of_scan front tail position
  refine ⟨lexeme, ⟨others, ?_⟩, hread, hread.oneLine_iff⟩
  rw [List.append_assoc, List.singleton_append, ← hothers]
  exact hlexemes.symm

/-- After the word `node`, with an escaped slash inside. -/
theorem ofSource_slash_node :
    SlashRead OneLine [⟨.identifier, "node", ⟨1, 1⟩⟩, ⟨.whitespace, " ", ⟨1, 5⟩⟩]
        ['w', '\\', '/', '1', '/', ' ', '\x7b'] ⟨.regex, "/w\\/1/", ⟨1, 6⟩⟩ ∧
      ∃ tail, "node /w\\/1/ \x7b".toList = ['n', 'o', 'd', 'e', ' '] ++ '/' :: tail := by
  obtain ⟨hread, hbegins⟩ := ofSource_slash "node /w\\/1/ \x7b"
  have hregex : [⟨.identifier, "node", ⟨1, 1⟩⟩, ⟨.whitespace, " ", ⟨1, 5⟩⟩] ++
      [⟨.regex, "/w\\/1/", ⟨1, 6⟩⟩] <+: (ofSource "node /w\\/1/ \x7b").lexemes := by
    decide +kernel
  refine ⟨?_, hbegins _ _ hregex rfl⟩
  obtain ⟨lexeme, hlexeme, -, hline⟩ := hread _ ['w', '\\', '/', '1', '/', ' ', '\x7b']
    ((List.prefix_append _ _).trans hregex) rfl
  have hsame := (List.prefix_of_prefix_length_le hlexeme hregex (by simp)).eq_of_length (by simp)
  obtain rfl : lexeme = ⟨.regex, "/w\\/1/", ⟨1, 6⟩⟩ := by simpa using hsame
  exact hline.2 (by simp [OneLine, IsLineEnd])

/-- A line end behind a backslash does not end the search for the closing slash. -/
theorem ofSource_slash_escapedLineEnd :
    (ofSource "/\"\\\n\"/").lexemes =
        [⟨.regex, "/\"\\\n\"/", ⟨1, 1⟩⟩, ⟨.endOfFile, "", ⟨2, 3⟩⟩] ∧
      ¬SlashRead OneLine [] ['"', '\\', '\n', '"', '/'] ⟨.regex, "/\"\\\n\"/", ⟨1, 1⟩⟩ := by
  refine ⟨by decide +kernel, fun h => ?_⟩
  exact h.oneLine '\n' (by simp) (.inl rfl)

end Lexing

end ManifestLint
