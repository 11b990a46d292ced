import ManifestLint.Proofs.Token.Truncation

set_option autoImplicit false

/-! # Blanks and line ends

How the spacing of a source shows in its lexemes. Blanks are an indent where a line begins and white
space elsewhere, and they never come twice in a row; line feeds end line ends, and all others stand
between the marks of a quoted text or of a regular expression (`ofSource_spacing`). So the flag with
which a context remembers that a line begins says the same as the text before it (`beginsLine_iff`),
and a gap between two lexemes has the text of one space only if it is one space. -/

namespace ManifestLint

/-! ## Where lines begin -/

/-- A line begins behind the text: it is empty, or it ends with a line feed. -/
def BeginsLine (text : List Char) : Prop := ∀ c ∈ text.getLast?, c = '\n'

theorem beginsLine_concat (text : List Char) (c : Char) : BeginsLine (text ++ [c]) ↔ c = '\n' := by
  simp [BeginsLine]

/-- In the first column lines begin, and nowhere else. -/
theorem column_endOf_eq_one_iff (text : List Char) :
    (Position.endOf text).column = 1 ↔ BeginsLine text := by
  have hcolumn : (Position.endOf text).column = 1 ↔ Position.lastLine text = [] := by
    rw [← List.length_eq_zero_iff, Position.endOf]
    dsimp only
    omega
  rw [hcolumn]
  rcases List.eq_nil_or_concat text with rfl | ⟨front, c, rfl⟩
  · simp [BeginsLine]
  · rw [List.concat_eq_append, Position.lastLine_concat, beginsLine_concat]
    by_cases hc : c = '\n' <;> simp [hc]

/-- A context remembers whether a line end was the last lexeme. -/
theorem atLineStart_contextAfter (front : List Lexeme) :
    (contextAfter front).atLineStart = true ↔ ∀ last ∈ front.getLast?, last.kind = .newline := by
  rcases List.eq_nil_or_concat front with rfl | ⟨others, last, rfl⟩
  · simp [contextAfter, Context.start]
  · rw [List.concat_eq_append, contextAfter, List.map_append, List.foldl_append]
    simp [Context.afterPiece, Context.after, Lexeme.piece]

/-! ## Line feeds -/

/-- Where line feeds stand in the text of a token: between the marks of a quoted text or of a
regular expression, or at the end of a line end. -/
def LineFeedsIn (kind : Kind) (text : List Char) : Prop :=
  ∀ before after, text = before ++ '\n' :: after →
    (kind = .quotedText ∨ kind = .regex) ∧ before ≠ [] ∧ after ≠ [] ∨ kind = .newline ∧ after = []

section LineFeeds

variable {kind : Kind} {text : List Char}

theorem lineFeedsIn_of_notMem (h : '\n' ∉ text) : LineFeedsIn kind text := by
  rintro before after rfl
  exact absurd (by simp) h

/-- Between two marks. -/
theorem lineFeedsIn_of_marks {mark : Char} {body : List Char} (hmark : mark ≠ '\n')
    (hkind : kind = .quotedText ∨ kind = .regex) :
    LineFeedsIn kind (mark :: (body ++ [mark])) := by
  intro before after hsplit
  refine .inl ⟨hkind, ?_, ?_⟩
  · rintro rfl
    exact hmark (List.cons.inj hsplit).1
  · rintro rfl
    rw [← List.cons_append] at hsplit
    exact hmark (List.cons.inj (List.append_inj' hsplit rfl).2).1

theorem eq_nil_of_lineFeed {before after : List Char} (h : ['\n'] = before ++ '\n' :: after) :
    after = [] := by
  rcases List.append_eq_singleton_iff.1 h.symm with ⟨-, hafter⟩ | ⟨-, hno⟩
  · exact (List.cons.inj hafter).2
  · cases hno

theorem ne_lineFeed_of_not_separator {c : Char} (h : isSeparator c = false) : c ≠ '\n' := by
  rintro rfl
  cases h

theorem IsName.notMem_lineFeed (h : IsName text) : '\n' ∉ text := by
  induction h with
  | nil => simp
  | char hc _ ih =>
      have hne := ne_lineFeed_of_not_separator (isSeparator_of_continuesName hc)
      simp [ih, hne.symm]
  | part _ _ ih => simp [ih]

theorem IsDigits.notMem_lineFeed (h : IsDigits text) : '\n' ∉ text := fun hmem =>
  ne_lineFeed_of_not_separator (isSeparator_of_isDigit (h.2 _ hmem)) rfl

theorem IsNumber.notMem_lineFeed (h : IsNumber text) : '\n' ∉ text := by
  cases h with
  | whole hdigits => exact hdigits.notMem_lineFeed
  | fraction hwhole hdigits => simp [hwhole.notMem_lineFeed, hdigits.notMem_lineFeed]

theorem notMem_lineFeed_keywords : ∀ entry ∈ keywords, '\n' ∉ entry.1 := by decide

theorem notMem_lineFeed_operatorTexts : ∀ entry ∈ operatorTexts, '\n' ∉ entry.1 := by decide

/-- **Line feeds** end line ends, or stand between marks. -/
theorem HasShape.lineFeedsIn (h : HasShape kind text) : LineFeedsIn kind text := by
  cases h with
  | blanks _ _ hblank =>
      refine lineFeedsIn_of_notMem fun hmem => ?_
      simpa using hblank _ hmem
  | lineFeed =>
      intro before after hsplit
      exact .inr ⟨rfl, eq_nil_of_lineFeed hsplit⟩
  | returnLineFeed =>
      intro before after hsplit
      refine .inr ⟨rfl, ?_⟩
      cases before with
      | nil => cases hsplit
      | cons c before =>
          exact eq_nil_of_lineFeed (List.cons.inj hsplit).2
  | comment hline =>
      exact lineFeedsIn_of_notMem fun hmem => hline '\n' (by simpa using hmem) (.inl rfl)
  | quoted hquote _ =>
      refine lineFeedsIn_of_marks ?_ (.inl rfl)
      rcases hquote with rfl | rfl <;> decide
  | number hnumber => exact lineFeedsIn_of_notMem hnumber.notMem_lineFeed
  | negative hnumber => exact lineFeedsIn_of_notMem (by simp [hnumber.notMem_lineFeed])
  | variableName hname => exact lineFeedsIn_of_notMem (by simp [hname.notMem_lineFeed])
  | keyword hkeyword => exact lineFeedsIn_of_notMem (notMem_lineFeed_keywords _ hkeyword)
  | word _ hname _ => exact lineFeedsIn_of_notMem hname.notMem_lineFeed
  | topScope hname => exact lineFeedsIn_of_notMem (by simp [hname.notMem_lineFeed])
  | regex _ => exact lineFeedsIn_of_marks (by decide) (.inr rfl)
  | operator hop => exact lineFeedsIn_of_notMem (notMem_lineFeed_operatorTexts _ hop)
  | endOfFile => exact lineFeedsIn_of_notMem List.not_mem_nil

end LineFeeds

/-! ## Gaps -/

/-- Spacing after code, among pieces that lex, has the text of one space only if it is one. -/
theorem Lexes.charsOf_gap_iff {context : Context} {head : Piece} {gap rest : List Piece}
    (h : Lexes context (head :: (gap ++ rest))) (hhead : head.isSpace = false)
    (hgap : ∀ p ∈ gap, p.isSpace = true) : Piece.charsOf gap = [' '] ↔ gap = oneSpace := by
  refine ⟨fun hchars => ?_, fun heq => by rw [heq]; rfl⟩
  cases gap with
  | nil => simp at hchars
  | cons p others =>
      have hfits : Fits _ p _ := h.tail.fits
      rw [Piece.charsOf_cons] at hchars
      rcases List.append_eq_singleton_iff.1 hchars with ⟨hempty, -⟩ | ⟨hspace, hothers⟩
      · exact absurd hempty hfits.chars_ne_nil
      · -- the space is neither a line end nor, after code, an indent
        have hkind : p.kind = .whitespace := by
          rcases (Kind.isSpace_iff p.kind).1 (hgap p List.mem_cons_self) with hk | hk | hk
          · exact hk
          · exact absurd hk (h.ne_indent (Piece.kind_ne hhead rfl))
          · rcases hfits.chars_of_newline hk with hline | hline
            · rw [hspace] at hline
              cases hline
            · rw [hspace] at hline
              cases hline
        have hpiece : p = .singleSpace := by
          obtain ⟨kind, value⟩ := p
          have hvalue : value = " " := String.toList_injective hspace
          rw [show kind = .whitespace from hkind, hvalue]
          rfl
        have hnone : others = [] := by
          cases others with
          | nil => rfl
          | cons q others =>
              rw [Piece.charsOf_cons, List.append_eq_nil_iff] at hothers
              exact absurd hothers.1 h.tail.tail.fits.chars_ne_nil
        rw [hpiece, hnone]
        rfl

/-! ## Lexings -/

/-- A piece is a line end exactly if a line begins behind it. -/
theorem Fits.newline_iff {context : Context} {piece : Piece} {body rest : List Char} {c : Char}
    (h : Fits context piece rest) (hchars : piece.chars = body ++ [c]) :
    piece.kind = .newline ↔ c = '\n' := by
  constructor
  · intro hkind
    have hlast : piece.chars.getLast? = some c := by rw [hchars, List.getLast?_concat]
    rcases h.chars_of_newline hkind with hline | hline
    · rw [hline] at hlast
      exact (Option.some.inj hlast).symm
    · rw [hline] at hlast
      exact (Option.some.inj hlast).symm
  · rintro rfl
    rcases h.hasShape.lineFeedsIn body [] hchars with ⟨-, -, hno⟩ | ⟨hkind, -⟩
    · exact absurd rfl hno
    · exact hkind

namespace Lexing

variable {context : Context} {position : Position} {cs : List Char} {lexeme : Lexeme}
  {front : List Lexeme}

/-- **Where a line begins** the last lexeme was a line end, or there was none. -/
theorem beginsLine_iff (h : front <+: (ofChars context position cs).lexemes)
    (hopen : ∀ first ∈ front, first.kind ≠ .endOfFile) :
    BeginsLine (Piece.charsOf (front.map Lexeme.piece)) ↔
      ∀ last ∈ front.getLast?, last.kind = .newline := by
  rcases List.eq_nil_or_concat front with rfl | ⟨others, last, rfl⟩
  · simp [BeginsLine]
  · rw [List.concat_eq_append] at h hopen ⊢
    have hkind : last.kind ≠ .endOfFile := hopen last (by simp)
    obtain ⟨-, hlast⟩ := exists_fits_behind h
    rcases hlast with ⟨-, hclosing⟩ | ⟨rest, -, hfits⟩
    · exact absurd (congrArg Piece.kind hclosing) hkind
    · obtain ⟨body, c, hchars⟩ : ∃ body c, last.piece.chars = body ++ [c] := by
        rcases List.eq_nil_or_concat last.piece.chars with hnil | ⟨body, c, hconcat⟩
        · exact absurd hnil hfits.chars_ne_nil
        · exact ⟨body, c, by rw [hconcat, List.concat_eq_append]⟩
      have hends : last.kind = .newline ↔ c = '\n' := hfits.newline_iff hchars
      rw [List.map_append, Piece.charsOf_append, List.map_singleton, Piece.charsOf_cons, hchars]
      simp only [Piece.charsOf_nil, List.append_nil, ← List.append_assoc, beginsLine_concat]
      simp [hends]

end Lexing

/-- How a lexeme of a source that comes after the lexemes `front` is laid out. -/
structure Lexeme.LaidOut (source : String) (front : List Lexeme) (lexeme : Lexeme) : Prop where
  /-- What comes before the lexeme is the beginning of the source. -/
  text : Piece.charsOf (front.map Lexeme.piece) <+: source.toList
  column : lexeme.position.column = 1 ↔ BeginsLine (Piece.charsOf (front.map Lexeme.piece))
  /-- Blanks are an indent at the beginning of a line, and white space elsewhere. -/
  blanks : lexeme.kind.isBlanks = true →
    (lexeme.kind = .indent ↔ BeginsLine (Piece.charsOf (front.map Lexeme.piece)))
  apart : lexeme.kind.isBlanks = true → ∀ last ∈ front.getLast?, last.kind.isBlanks = false
  indent : lexeme.kind = .indent → ∀ last ∈ front.getLast?, last.kind = .newline
  whitespace : lexeme.kind = .whitespace → ∃ last ∈ front.getLast?, last.kind ≠ .newline
  lineFeeds : LineFeedsIn lexeme.kind lexeme.value.toList

namespace Lexing

variable {source : String} {lexeme : Lexeme} {front : List Lexeme}

/-- Blanks are not read twice in a row. -/
theorem not_isBlanks_getLast? (h : front ++ [lexeme] <+: (ofSource source).lexemes)
    (hkind : lexeme.kind.isBlanks = true) :
    ∀ last ∈ front.getLast?, last.kind.isBlanks = false := by
  rcases List.eq_nil_or_concat front with rfl | ⟨others, last, rfl⟩
  · simp
  · rw [List.concat_eq_append] at h ⊢
    have hopen : ∀ l ∈ (others ++ [last]) ++ [lexeme], l.kind ≠ .endOfFile := by
      rw [List.forall_mem_append, List.forall_mem_singleton]
      refine ⟨kind_ne_of_concat h, ?_⟩
      intro heof
      rw [heof] at hkind
      cases hkind
    have hlexes := lexes_front h hopen
    rw [List.append_assoc, List.map_append] at hlexes
    obtain ⟨context, htwo⟩ := hlexes.of_append
    rw [List.getLast?_concat]
    rintro last ⟨⟩
    by_contra hblanks
    have hcode := Fits.not_isBlanks_next htwo.fits (Bool.of_not_eq_false hblanks) htwo.tail.fits
    rw [show lexeme.piece.kind.isBlanks = true from hkind] at hcode
    cases hcode

/-- Blanks are an indent exactly where the context says that a line begins. -/
theorem kind_of_isBlanks (h : front ++ [lexeme] <+: (ofSource source).lexemes)
    (hkind : lexeme.kind.isBlanks = true) :
    lexeme.kind = if (contextAfter front).atLineStart then .indent else .whitespace := by
  rcases (exists_fits_behind h).2 with ⟨-, hclosing⟩ | ⟨rest, -, hfits⟩
  · rw [show lexeme.kind = .endOfFile from congrArg Piece.kind hclosing] at hkind
    cases hkind
  · exact (hfits.split_blanks hkind).1

theorem laidOut (h : front ++ [lexeme] <+: (ofSource source).lexemes) :
    lexeme.LaidOut source front := by
  have hfront : front <+: (ofSource source).lexemes := (List.prefix_append front _).trans h
  have hbegins := beginsLine_iff hfront (kind_ne_of_concat h)
  obtain ⟨hposition, hlexeme⟩ := exists_fits_behind h
  constructor
  case text => exact charsOf_front hfront
  case column =>
    rw [hposition, Position.start_after]
    exact column_endOf_eq_one_iff _
  case blanks =>
    intro hkind
    rw [hbegins, ← atLineStart_contextAfter, kind_of_isBlanks h hkind]
    cases (contextAfter front).atLineStart <;> simp
  case apart => exact not_isBlanks_getLast? h
  case indent =>
    intro hkind
    rw [← atLineStart_contextAfter]
    have hindent := kind_of_isBlanks h (by rw [hkind]; rfl)
    rw [hkind] at hindent
    by_contra hno
    rw [if_neg hno] at hindent
    cases hindent
  case whitespace =>
    intro hkind
    have hwhite := kind_of_isBlanks h (by rw [hkind]; rfl)
    rw [hkind] at hwhite
    by_contra hno
    push Not at hno
    rw [if_pos ((atLineStart_contextAfter front).2 hno)] at hwhite
    cases hwhite
  case lineFeeds =>
    rcases hlexeme with ⟨-, hclosing⟩ | ⟨rest, -, hfits⟩
    · refine lineFeedsIn_of_notMem ?_
      rw [show lexeme.value = "" from congrArg Piece.value hclosing]
      simp
    · exact hfits.hasShape.lineFeedsIn

/-- **Blanks and line ends.** Each lexeme of a source is laid out as the text before it says,
whatever comes of the rest of the source. And a gap between two lexemes that are no spacing has the
text of one space exactly if it is one lexeme that is taken for a single space. -/
theorem ofSource_spacing (source : String) :
    (∀ front lexeme, front ++ [lexeme] <+: (ofSource source).lexemes →
        lexeme.LaidOut source front) ∧
      ∀ front left gap right, front ++ left :: (gap ++ [right]) <+: (ofSource source).lexemes →
        left.kind.isSpace = false → (∀ blank ∈ gap, blank.kind.isSpace = true) →
        right.kind.isSpace = false →
        (Piece.text (gap.map Lexeme.piece) = " " ↔
          ∃ blank, gap = [blank] ∧ (Token.ofLexeme blank).isSingleSpace = true) := by
  refine ⟨fun front lexeme h => laidOut h, fun front left gap right h hleft hgap _ => ?_⟩
  have hsplit : front ++ left :: (gap ++ [right]) = (front ++ left :: gap) ++ [right] := by simp
  rw [hsplit] at h
  have hlexes := lexes_front ((List.prefix_append _ _).trans h) (kind_ne_of_concat h)
  rw [List.map_append, List.map_cons, ← List.append_nil (gap.map Lexeme.piece)] at hlexes
  obtain ⟨context, hhead⟩ := hlexes.of_append
  have hspaces : ∀ p ∈ gap.map Lexeme.piece, p.isSpace = true := List.forall_mem_map.2 hgap
  rw [← String.toList_inj, Piece.toList_text]
  refine (hhead.charsOf_gap_iff hleft hspaces).trans ?_
  rw [oneSpace, List.map_eq_singleton_iff]
  refine exists_congr fun blank => and_congr_right fun _ => ?_
  simp [Token.isSingleSpace, Token.ofLexeme, Lexeme.piece, Piece.singleSpace]

/-- A space at the beginning of a line and one inside it. -/
theorem ofSource_spacing_indented :
    Lexeme.LaidOut "a\r\n b c" [⟨.identifier, "a", ⟨1, 1⟩⟩, ⟨.newline, "\r\n", ⟨1, 2⟩⟩]
        ⟨.indent, " ", ⟨2, 1⟩⟩ ∧
      ∃ blank, [⟨.whitespace, " ", ⟨2, 3⟩⟩] = [blank] ∧
        (Token.ofLexeme blank).isSingleSpace = true := by
  obtain ⟨hlaid, hgap⟩ := ofSource_spacing "a\r\n b c"
  refine ⟨hlaid _ _ (by decide +kernel), ?_⟩
  have hbetween := hgap
    [⟨.identifier, "a", ⟨1, 1⟩⟩, ⟨.newline, "\r\n", ⟨1, 2⟩⟩, ⟨.indent, " ", ⟨2, 1⟩⟩]
    ⟨.identifier, "b", ⟨2, 2⟩⟩ [⟨.whitespace, " ", ⟨2, 3⟩⟩] ⟨.identifier, "c", ⟨2, 4⟩⟩
    (by decide +kernel) rfl (List.forall_mem_singleton.2 rfl) rfl
  exact hbetween.1 (by decide)

end Lexing

end ManifestLint
