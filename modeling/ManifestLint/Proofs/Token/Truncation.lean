import ManifestLint.Proofs.Token.Comments

set_option autoImplicit false

/-! # Cutting a text off between two tokens

A reader that looks past the end of its token sees less when the text is cut off there. What it
decides stays the same all the same: a piece that fits before a text fits before each beginning of
that text (`Fits.cut`). Blanks are an exception, as a carriage return alone is one of them and
before a line feed it is not; but no line end is cut in two between tokens (`Fits.of_next`). So each
beginning of a lexing lexes by itself (`lexes_front`), and it is what is read of its own text
(`ofSource_truncated`), whatever comes of the rest of the source. -/

namespace ManifestLint

variable {context : Context} {piece : Piece} {rest rest' : List Char}

/-! ## Pieces -/

/-- A slash is read alone exactly where it opens no regular expression. -/
theorem fits_bareSlash_iff : Fits context .bareSlash rest ↔ scanRegex? context rest = none := by
  constructor
  · rintro ⟨c, cs, hcs, hscan⟩
    obtain ⟨rfl, rfl⟩ : '/' = c ∧ rest = cs := List.cons.inj hcs
    rw [scan_slash] at hscan
    cases hregex : scanRegex? context rest with
    | none => rfl
    | some regex =>
        rw [hregex] at hscan
        have hkind : regex.kind = .slash := congrArg Scanned.kind (Except.ok.inj hscan)
        rw [kind_scanRegex? hregex] at hkind
        cases hkind
  · intro hregex
    refine ⟨'/', rest, rfl, ?_⟩
    rw [scan_slash, hregex]
    rfl

theorem scanRegex?_eq_none_cut (h : rest' <+: rest) (hnone : scanRegex? context rest = none) :
    scanRegex? context rest' = none := by
  unfold scanRegex? at hnone ⊢
  split
  · rename_i hallowed
    rw [if_pos hallowed, Option.map_eq_none_iff] at hnone
    rw [Span.regexTail_eq_none_cut h hnone]
    rfl
  · rfl

/-- **A piece that is not made of blanks** fits before each beginning of a text that it fits
before. -/
theorem Fits.cut (h : Fits context piece rest) (hkind : piece.kind.isBlanks = false)
    (hrest : rest' <+: rest) : Fits context piece rest' := by
  by_cases hline : piece.kind = .newline
  · exact h.newline hline context rest'
  by_cases hcomment : piece.kind = .comment
  · -- a comment ends where the text does, or before the same character as it did
    obtain ⟨body, hbody, hfree, hends⟩ := (fits_comment_iff hcomment).1 h
    refine (fits_comment_iff hcomment).2 ⟨body, hbody, hfree, fun c hc => hends c ?_⟩
    obtain ⟨more, rfl⟩ := hrest
    rw [Option.mem_def, List.head?_append, Option.mem_def.1 hc]
    rfl
  by_cases hslash : piece = .bareSlash
  · subst hslash
    exact fits_bareSlash_iff.2 (scanRegex?_eq_none_cut hrest (fits_bareSlash_iff.1 h))
  · have hspace : piece.isSpace = false := by
      by_contra hno
      rcases Kind.isBlanks_or_newline (Bool.of_not_eq_false hno) with hblanks | hnewline
      · rw [hblanks] at hkind
        cases hkind
      · exact hline hnewline
    rcases h.code hspace rfl (.cut hrest) (fun hc => absurd hc hcomment) with hfits | ⟨hbare, -⟩
    · exact hfits
    · exact absurd hbare hslash

/-- No blanks are read where blanks have just been read. -/
theorem Fits.not_isBlanks_next {context' : Context} {next : Piece}
    (h : Fits context piece (next.chars ++ rest)) (hkind : piece.kind.isBlanks = true)
    (hnext : Fits context' next rest) : next.kind.isBlanks = false := by
  by_contra hblanks
  have hsplit := (hnext.split_blanks (Bool.of_not_eq_false hblanks)).2
  rw [Span.blanks_of_not_beginsBlank (h.not_beginsBlank hkind)] at hsplit
  exact hnext.chars_ne_nil (congrArg Prod.fst hsplit).symm

/-- A piece fits at the end of a text. -/
theorem Fits.at_end (h : Fits context piece rest) : Fits context piece [] := by
  cases hkind : piece.kind.isBlanks with
  | false => exact h.cut hkind List.nil_prefix
  | true => exact h.blanks hkind rfl nofun

/-- A piece fits before the next one, as long as that has not been cut off. -/
theorem Fits.of_next {context' : Context} {next : Piece}
    (h : Fits context piece (next.chars ++ rest)) (hnext : Fits context' next rest)
    (hrest : rest' <+: rest) : Fits context piece (next.chars ++ rest') := by
  cases hkind : piece.kind.isBlanks with
  | false => exact h.cut hkind ((List.prefix_append_right_inj _).2 hrest)
  | true =>
      have hcode := h.not_isBlanks_next hkind hnext
      refine h.blanks hkind (hnext.not_beginsBlank_append hcode rest') ?_
      obtain ⟨c, cs, hchars⟩ := List.exists_cons_of_ne_nil hnext.chars_ne_nil
      rw [hchars]
      exact id

/-! ## Lexings -/

namespace Lexing

variable {position : Position} {cs : List Char} {lexeme : Lexeme} {front others : List Lexeme}

/-! ### Tokens -/

/-- The tokens of a lexing: its lexemes without the one that closes it. -/
def tokens (lexing : Lexing) : List Lexeme :=
  lexing.lexemes.filter fun lexeme => lexeme.kind != .endOfFile

theorem kind_ne_of_mem_tokens {lexing : Lexing} :
    ∀ lexeme ∈ lexing.tokens, lexeme.kind ≠ .endOfFile :=
  fun _ hmem => bne_iff_ne.1 (List.mem_filter.1 hmem).2

/-- A source that is read to its end is read as its tokens. -/
theorem tokens_of_toExcept {lexing : Lexing} {lexemes : List Lexeme}
    (h : lexing.toExcept = .ok lexemes) : lexing.tokens = lexemes := by
  unfold toExcept at h
  split at h
  · cases h
  · cases h
    rfl

/-- The lexemes of a text are its tokens, which the text begins with, and one lexeme more at most,
which closes them. -/
theorem exists_closing (context : Context) (position : Position) (cs : List Char) :
    Piece.charsOf ((ofChars context position cs).tokens.map Lexeme.piece) <+: cs ∧
      ∃ closing : Option Lexeme, (∀ lexeme ∈ closing, lexeme.piece = .closing) ∧
        (ofChars context position cs).lexemes =
          (ofChars context position cs).tokens ++ closing.toList := by
  obtain ⟨front, rest, hproper, hchars, hlexing⟩ := ofChars_lossless context position cs
  have hfront : front.filter (fun lexeme => lexeme.kind != .endOfFile) = front :=
    List.filter_eq_self.2 fun lexeme hmem => bne_iff_ne.2 (hproper lexeme hmem).kind_ne
  have htext : Piece.charsOf (front.map Lexeme.piece) <+: cs := ⟨rest, hchars⟩
  rcases hlexing with ⟨-, hclosed⟩ | ⟨-, fault, hbroken⟩
  · have htokens : (ofChars context position cs).tokens = front := by
      rw [tokens, hclosed, List.filter_append, hfront]
      exact List.append_nil front
    rw [htokens, hclosed]
    exact ⟨htext, some _, fun lexeme hmem => by rw [← Option.some.inj hmem]; rfl, rfl⟩
  · have htokens : (ofChars context position cs).tokens = front := by
      rw [tokens, hbroken, hfront]
    rw [htokens, hbroken]
    exact ⟨htext, none, nofun, (List.append_nil front).symm⟩

theorem tokens_begin (context : Context) (position : Position) (cs : List Char) :
    (ofChars context position cs).tokens <+: (ofChars context position cs).lexemes := by
  obtain ⟨-, closing, -, hlexemes⟩ := exists_closing context position cs
  rw [hlexemes]
  exact List.prefix_append _ _

/-- Nothing comes after the lexeme that closes a lexing. -/
theorem kind_ne_of_concat (h : front ++ [lexeme] <+: (ofChars context position cs).lexemes) :
    ∀ first ∈ front, first.kind ≠ .endOfFile := by
  obtain ⟨-, closing, -, hlexemes⟩ := exists_closing context position cs
  rw [hlexemes] at h
  have hfront : front <+: (ofChars context position cs).tokens := by
    cases closing with
    | none =>
        rw [Option.toList_none, List.append_nil] at h
        exact (List.prefix_append front _).trans h
    | some last =>
        rcases List.prefix_concat_iff.1 h with heq | hproperly
        · have hsame := (List.append_inj' heq rfl).1
          exact hsame ▸ List.prefix_refl front
        · exact (List.prefix_append front _).trans hproperly
  exact fun first hmem => kind_ne_of_mem_tokens first (hfront.subset hmem)

/-- Some lexemes of a text say a beginning of the text. -/
theorem charsOf_front (h : front <+: (ofChars context position cs).lexemes) :
    Piece.charsOf (front.map Lexeme.piece) <+: cs := by
  obtain ⟨htext, closing, hclosing, hlexemes⟩ := exists_closing context position cs
  have hnone : Piece.charsOf (closing.toList.map Lexeme.piece) = [] := by
    cases closing with
    | none => rfl
    | some last =>
        rw [Option.toList_some, List.map_singleton, hclosing last rfl]
        rfl
  obtain ⟨more, hmore⟩ := h
  have hall : Piece.charsOf ((front ++ more).map Lexeme.piece) <+: cs := by
    rw [hmore, hlexemes, List.map_append, Piece.charsOf_append, hnone, List.append_nil]
    exact htext
  rw [List.map_append, Piece.charsOf_append] at hall
  exact (List.prefix_append _ _).trans hall

/-! ### Cutting off -/

/-- The first lexeme of a text, unless it closes it, fits before what the others are read from. -/
theorem exists_fits_of_cons (h : lexeme :: others <+: (ofChars context position cs).lexemes)
    (hkind : lexeme.kind ≠ .endOfFile) :
    lexeme.position = position ∧ ∃ rest, cs = lexeme.piece.chars ++ rest ∧
      Fits context lexeme.piece rest ∧
      others <+: (ofChars (context.afterPiece lexeme.piece)
        (position.after lexeme.piece.chars) rest).lexemes := by
  have hcs : cs ≠ [] := by
    rintro rfl
    rw [ofChars_nil] at h
    obtain ⟨rfl, -⟩ := List.cons_prefix_cons.1 h
    exact hkind rfl
  obtain ⟨hposition, rest, hsplit, hfits, hlexing⟩ := ofChars_eq_of_cons h hcs
  rw [hlexing] at h
  exact ⟨hposition, rest, hsplit, hfits, (List.cons_prefix_cons.1 h).2⟩

/-- **A beginning of a lexing lexes** by itself. -/
theorem lexes_front (h : front <+: (ofChars context position cs).lexemes)
    (hopen : ∀ lexeme ∈ front, lexeme.kind ≠ .endOfFile) :
    Lexes context (front.map Lexeme.piece) := by
  induction front generalizing context position cs with
  | nil => exact .nil context
  | cons lexeme others ih =>
      rw [List.forall_mem_cons] at hopen
      obtain ⟨-, behind, -, hfits, hothers⟩ := exists_fits_of_cons h hopen.1
      refine .cons ?_ (ih hothers hopen.2)
      -- what the lexeme fits before has to be cut off behind the others
      cases others with
      | nil => exact hfits.at_end
      | cons next others =>
          obtain ⟨-, rest, rfl, hnext, hrest⟩ :=
            exists_fits_of_cons hothers (hopen.2 next List.mem_cons_self)
          exact hfits.of_next hnext (charsOf_front hrest)

/-- A beginning of a lexing is what is read of its own text. -/
theorem ofChars_text_front (h : front <+: (ofChars context position cs).lexemes)
    (hopen : ∀ lexeme ∈ front, lexeme.kind ≠ .endOfFile) :
    ofChars context position (Piece.charsOf (front.map Lexeme.piece)) =
      ⟨front ++ [⟨.endOfFile, "", position.after (Piece.charsOf (front.map Lexeme.piece))⟩],
        none⟩ := by
  induction front generalizing context position cs with
  | nil => exact ofChars_nil context position
  | cons lexeme others ih =>
      have hfits := (lexes_front h hopen).fits
      rw [List.forall_mem_cons] at hopen
      obtain ⟨rfl, _, -, -, hothers⟩ := exists_fits_of_cons h hopen.1
      rw [List.map_cons, Piece.charsOf_cons, ofChars_eq_cons hfits, ih hothers hopen.2,
        Position.after_append]
      rfl

/-- The lexing of a text that is read to its end as the lexemes. -/
def complete (lexemes : List Lexeme) : Lexing :=
  ⟨lexemes ++ [⟨.endOfFile, "", Position.endOf (Piece.charsOf (lexemes.map Lexeme.piece))⟩], none⟩

/-- **A source may be cut off behind each of its tokens.** The text of its first tokens, however
many, is read as those tokens and the end, and without an error, also if the source itself cannot
be read to its end. -/
theorem ofSource_truncated (source : String) (k : Nat) :
    ofSource (Piece.text (((ofSource source).tokens.take k).map Lexeme.piece)) =
      complete ((ofSource source).tokens.take k) := by
  have hfirst : (ofSource source).tokens.take k <+: (ofSource source).lexemes :=
    (List.take_prefix k _).trans (tokens_begin _ _ _)
  have hopen : ∀ lexeme ∈ (ofSource source).tokens.take k, lexeme.kind ≠ .endOfFile :=
    fun lexeme hmem => kind_ne_of_mem_tokens lexeme (List.mem_of_mem_take hmem)
  rw [complete, ← Position.start_after, ofSource, Piece.toList_text]
  exact ofChars_text_front hfirst hopen

/-- Cut off inside a token, a source may be read in another way: the carriage return of a line end
is a blank if it is the last character. -/
example : (ofSource "a \r\n").tokens.map Lexeme.value = ["a", " ", "\r\n"] ∧
    (ofSource "a \r").tokens.map Lexeme.value = ["a", " \r"] := by
  decide +kernel

end Lexing

end ManifestLint
