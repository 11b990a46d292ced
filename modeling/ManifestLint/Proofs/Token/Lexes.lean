import ManifestLint.Proofs.Stream.Entry
import ManifestLint.Proofs.Token.Rescan
import ManifestLint.Token.Lexing

set_option autoImplicit false

/-! # Pieces that are read back

A piece *fits* before a text when it is what is scanned at the front of the two. Pieces *lex* when
each of them fits before the text of the rest; these are the pieces of the lexings that end
without an error (`lexes_of_toExcept`, `ofChars_of_lexes`). Pieces *relex* when each of them fits,
up to a slash at most that is read as the beginning of a regular expression.

What decides whether a piece fits is said for each sort of piece: a line end fits before every
text, blanks fit before a text that begins with none, and any other piece fits before each text
that agrees with one it fits before. -/

namespace ManifestLint

/-- The piece is what is scanned at the front of its characters and the text `rest`. -/
def Fits (context : Context) (piece : Piece) (rest : List Char) : Prop :=
  ∃ c cs, piece.chars ++ rest = c :: cs ∧
    scan context c cs = .ok ⟨piece.kind, piece.chars, rest⟩

/-- A regular expression is scanned at the front of the text. -/
def ReadsRegex (context : Context) (text : List Char) : Prop :=
  ∃ c cs s, text = c :: cs ∧ scan context c cs = .ok s ∧ s.kind = .regex

/-- A slash that is no part of anything else. -/
def Piece.bareSlash : Piece := ⟨.slash, "/"⟩

/-- The context after a piece. -/
def Context.afterPiece (context : Context) (piece : Piece) : Context :=
  context.after piece.kind piece.chars

/-- A line begins after a line end only. -/
theorem atLineStart_afterPiece (context : Context) {piece : Piece} (h : piece.kind ≠ .newline) :
    (context.afterPiece piece).atLineStart = false := beq_eq_false_iff_ne.2 h

/-- The pieces are what is scanned, one after another. -/
inductive Lexes : Context → List Piece → Prop
  | nil (context : Context) : Lexes context []
  | cons {context : Context} {piece : Piece} {rest : List Piece} :
      Fits context piece (Piece.charsOf rest) → Lexes (context.afterPiece piece) rest →
      Lexes context (piece :: rest)

/-- The pieces are what is scanned, one after another, up to a slash at most in whose place a
regular expression is scanned. -/
inductive Relexes : Context → List Piece → Prop
  | nil (context : Context) : Relexes context []
  | cons {context : Context} {piece : Piece} {rest : List Piece} :
      Fits context piece (Piece.charsOf rest) → Relexes (context.afterPiece piece) rest →
      Relexes context (piece :: rest)
  | slash {context : Context} {rest : List Piece} :
      ReadsRegex context (Piece.bareSlash.chars ++ Piece.charsOf rest) →
      Relexes context (.bareSlash :: rest)

/-! ## Sorts of pieces -/

/-- Decides whether a piece is made of blanks. -/
def Kind.isBlanks (kind : Kind) : Bool := kind == .whitespace || kind == .indent

theorem Kind.isSpace_of_isBlanks {kind : Kind} (h : kind.isBlanks = true) :
    kind.isSpace = true := by
  cases kind <;> first
    | rfl
    | cases h

theorem Kind.isBlanks_or_newline {kind : Kind} (h : kind.isSpace = true) :
    kind.isBlanks = true ∨ kind = .newline := by
  rcases (isSpace_iff kind).1 h with rfl | rfl | rfl
  · exact .inl rfl
  · exact .inl rfl
  · exact .inr rfl

/-- What a scan can read: blanks, a line end, or something that begins with no separator. -/
theorem scan_cases {context : Context} {c : Char} {cs : List Char} {s : Scanned}
    (h : scan context c cs = .ok s) :
    (Span.startsBlank c cs = true ∧
      s = .ofSplit (if context.atLineStart then .indent else .whitespace) []
        (Span.blanks (c :: cs))) ∨
    (s.kind = .newline ∧ (s.text = ['\n'] ∨ s.text = ['\r', '\n'])) ∨
    (isSeparator c = false ∧ scanCode context c cs = .ok s) := by
  rw [scan_eq] at h
  -- in the order of the scan: blanks, then the two line ends
  by_cases hblank : Span.startsBlank c cs = true
  · rw [if_pos hblank] at h
    cases h
    exact .inl ⟨hblank, rfl⟩
  rw [if_neg hblank] at h
  by_cases hline : c = '\n'
  · rw [if_pos hline] at h
    cases h
    exact .inr (.inl ⟨rfl, .inl (by rw [hline])⟩)
  rw [if_neg hline] at h
  have hhead : c = ' ' ∨ c = '\t' ∨ (c = '\r' ∧ cs.head? ≠ some '\n') → False := by
    simpa [Span.startsBlank, or_assoc] using hblank
  by_cases hreturn : c = '\r'
  · rw [if_pos hreturn] at h
    cases h
    have hnext : cs.head? = some '\n' := by
      by_contra hne
      exact hhead (.inr (.inr ⟨hreturn, hne⟩))
    obtain ⟨rest, rfl⟩ := List.head?_eq_some_iff.1 hnext
    exact .inr (.inl ⟨rfl, .inr (by rw [hreturn]; rfl)⟩)
  · rw [if_neg hreturn] at h
    refine .inr (.inr ⟨?_, h⟩)
    have hspace : c ≠ ' ' := fun heq => hhead (.inl heq)
    have htab : c ≠ '\t' := fun heq => hhead (.inr (.inl heq))
    simp [isSeparator, hspace, htab, hreturn, hline]

theorem scan_of_not_separator {c : Char} (h : isSeparator c = false) (context : Context)
    (cs : List Char) : scan context c cs = scanCode context c cs := by
  have hne : ∀ d, isSeparator d = true → c ≠ d := by
    rintro d hd rfl
    rw [hd] at h
    cases h
  have hblank : ¬Span.startsBlank c cs = true := by
    simp [Span.startsBlank, hne ' ' rfl, hne '\t' rfl, hne '\r' rfl]
  rw [scan_eq, if_neg hblank, if_neg (hne '\n' rfl), if_neg (hne '\r' rfl)]

namespace Fits

variable {context context' : Context} {piece : Piece} {rest rest' : List Char}

theorem chars_ne_nil (h : Fits context piece rest) : piece.chars ≠ [] := by
  obtain ⟨c, cs, -, hscan⟩ := h
  exact scan_ne_nil hscan

theorem kind_ne_endOfFile (h : Fits context piece rest) : piece.kind ≠ .endOfFile := by
  obtain ⟨c, cs, -, hscan⟩ := h
  rcases scan_cases hscan with ⟨-, heq⟩ | ⟨hkind, -⟩ | ⟨-, hcode⟩
  · have hkind : piece.kind = if context.atLineStart then .indent else .whitespace :=
      congrArg Scanned.kind heq
    rw [hkind]
    split <;> decide
  · rw [show piece.kind = .newline from hkind]
    decide
  · exact Kind.ne_endOfFile_of_isCode (isCode_scanCode hcode)

/-! ### Line ends -/

theorem chars_of_newline (h : Fits context piece rest) (hkind : piece.kind = .newline) :
    piece.chars = ['\n'] ∨ piece.chars = ['\r', '\n'] := by
  obtain ⟨c, cs, -, hscan⟩ := h
  rcases scan_cases hscan with ⟨-, heq⟩ | ⟨-, htext⟩ | ⟨-, hcode⟩
  · have hblank : piece.kind = if context.atLineStart then .indent else .whitespace :=
      congrArg Scanned.kind heq
    rw [hkind] at hblank
    split at hblank <;> cases hblank
  · exact htext
  · have hspace : piece.kind.isSpace = false := Kind.isSpace_of_isCode (isCode_scanCode hcode)
    rw [hkind] at hspace
    cases hspace

/-- A line end fits before every text. -/
theorem newline (h : Fits context piece rest) (hkind : piece.kind = .newline)
    (context' : Context) (rest' : List Char) : Fits context' piece rest' := by
  rcases h.chars_of_newline hkind with hchars | hchars
  · refine ⟨'\n', rest', by rw [hchars]; rfl, ?_⟩
    rw [scan_eq, if_neg (by simp [Span.startsBlank]), if_pos rfl, hkind, hchars]
  · refine ⟨'\r', '\n' :: rest', by rw [hchars]; rfl, ?_⟩
    rw [scan_eq, if_neg (by simp [Span.startsBlank]), if_neg (by decide), if_pos rfl, hkind, hchars]
    rfl

/-! ### Blanks -/

theorem split_blanks (h : Fits context piece rest) (hkind : piece.kind.isBlanks = true) :
    piece.kind = (if context.atLineStart then .indent else .whitespace) ∧
      Span.blanks (piece.chars ++ rest) = (piece.chars, rest) := by
  obtain ⟨c, cs, hcs, hscan⟩ := h
  rcases scan_cases hscan with ⟨-, heq⟩ | ⟨hline, -⟩ | ⟨-, hcode⟩
  · rw [hcs]
    obtain ⟨hkind', hchars, hrest⟩ := Scanned.mk.inj heq
    refine ⟨hkind', Prod.ext ?_ hrest.symm⟩
    exact hchars.symm
  · rw [show piece.kind = .newline from hline] at hkind
    cases hkind
  · have hspace : piece.kind.isSpace = false := Kind.isSpace_of_isCode (isCode_scanCode hcode)
    rw [Kind.isSpace_of_isBlanks hkind] at hspace
    cases hspace

theorem of_split_blanks (hsplit : Span.blanks (piece.chars ++ rest) = (piece.chars, rest))
    (hne : piece.chars ≠ [])
    (hkind : piece.kind = if context.atLineStart then .indent else .whitespace) :
    Fits context piece rest := by
  obtain ⟨c, text, hchars⟩ := List.exists_cons_of_ne_nil hne
  refine ⟨c, text ++ rest, by rw [hchars]; rfl, ?_⟩
  rw [hchars, List.cons_append] at hsplit
  have hblank : Span.startsBlank c (text ++ rest) = true := by
    by_contra hno
    rw [Span.blanks, if_neg hno] at hsplit
    cases hsplit
  rw [scan_eq, if_pos hblank, hsplit, hkind, hchars]
  rfl

theorem not_beginsBlank (h : Fits context piece rest) (hkind : piece.kind.isBlanks = true) :
    Span.beginsBlank rest = false := by
  have hsplit := (h.split_blanks hkind).2
  rw [show rest = (Span.blanks (piece.chars ++ rest)).2 from (congrArg Prod.snd hsplit).symm]
  exact Span.beginsBlank_blanks _

/-- Blanks fit before a text that begins with none. -/
theorem blanks (h : Fits context piece rest) (hkind : piece.kind.isBlanks = true)
    (hstop : Span.beginsBlank rest' = false)
    (hline : rest'.head? = some '\n' → rest.head? = some '\n') : Fits context piece rest' := by
  obtain ⟨hkind', hsplit⟩ := h.split_blanks hkind
  have hrest : (Span.blanks (piece.chars ++ rest)).2 = rest := congrArg Prod.snd hsplit
  have hstable := Span.blanks_stable hstop (hrest.symm ▸ hline)
  rw [hsplit] at hstable
  exact of_split_blanks hstable h.chars_ne_nil hkind'

/-- A single space fits inside a line before a text that begins with no blank. -/
theorem singleSpace (hcontext : context.atLineStart = false)
    (hstop : Span.beginsBlank rest = false) : Fits context .singleSpace rest := by
  have hsplit : Span.blanks (Piece.singleSpace.chars ++ rest) =
      (Piece.singleSpace.chars, rest) := by
    show Span.blanks (' ' :: rest) = ([' '], rest)
    rw [Span.blanks, if_pos (show Span.startsBlank ' ' rest = true from rfl),
      Span.blanks_of_not_beginsBlank hstop]
  refine of_split_blanks hsplit (by decide) ?_
  rw [hcontext]
  rfl

/-! ### Code and comments -/

/-- What is no blank does not begin with one, whatever comes after it. -/
theorem not_beginsBlank_append (h : Fits context piece rest) (hkind : piece.kind.isBlanks = false)
    (rest' : List Char) : Span.beginsBlank (piece.chars ++ rest') = false := by
  obtain ⟨c, cs, hcs, hscan⟩ := id h
  rcases scan_cases hscan with ⟨-, heq⟩ | ⟨hline, -⟩ | ⟨hc, -⟩
  · have hblank : piece.kind = if context.atLineStart then .indent else .whitespace :=
      congrArg Scanned.kind heq
    rw [hblank] at hkind
    split at hkind <;> cases hkind
  · rcases h.chars_of_newline hline with hchars | hchars <;> rw [hchars] <;> rfl
  · obtain ⟨d, text, hchars⟩ := List.exists_cons_of_ne_nil h.chars_ne_nil
    rw [hchars, List.cons_append] at hcs ⊢
    obtain rfl : d = c := (List.cons.inj hcs).1
    have hne : ∀ e, isSeparator e = true → d ≠ e := by
      rintro e he rfl
      rw [he] at hc
      cases hc
    simp [Span.beginsBlank, Span.startsBlank, hne ' ' rfl, hne '\t' rfl, hne '\r' rfl]

/-- A piece that is no spacing fits before each text that agrees with one it fits before, or it
is a slash and a regular expression is read. -/
theorem code (h : Fits context piece rest) (hkind : piece.isSpace = false)
    (hcontext : context'.regexAllowed = context.regexAllowed) (hagrees : Agrees rest rest')
    (hcomment : piece.kind = .comment → rest'.head? = rest.head?) :
    Fits context' piece rest' ∨
      piece = .bareSlash ∧ ReadsRegex context' (piece.chars ++ rest') := by
  obtain ⟨d, text, hchars⟩ := List.exists_cons_of_ne_nil h.chars_ne_nil
  obtain ⟨c, cs, hcs, hscan⟩ := h
  obtain rfl : d = c := by
    rw [hchars] at hcs
    exact (List.cons.inj hcs).1
  rcases scan_cases hscan with ⟨-, heq⟩ | ⟨hline, -⟩ | ⟨hc, hcode⟩
  · have hblank : piece.kind = if context.atLineStart then .indent else .whitespace :=
      congrArg Scanned.kind heq
    rw [Piece.isSpace, hblank] at hkind
    split at hkind <;> cases hkind
  · rw [Piece.isSpace, show piece.kind = .newline from hline] at hkind
    cases hkind
  · rcases scanCode_stable hcode hchars hcontext hagrees hcomment with hagain | ⟨hslash, hregex⟩
    · refine .inl ⟨d, text ++ rest', by rw [hchars]; rfl, ?_⟩
      rw [scan_of_not_separator hc]
      exact hagain
    · obtain ⟨regex, hscan', hkind'⟩ := hregex
      have hpiece : piece = .bareSlash := by
        obtain ⟨kind, value⟩ := piece
        have hvalue : value = "/" := String.toList_injective hslash.2
        rw [show kind = .slash from hslash.1, hvalue]
        rfl
      refine .inr ⟨hpiece, d, text ++ rest', regex, by rw [hchars]; rfl, ?_, hkind'⟩
      rw [scan_of_not_separator hc]
      exact hscan'

end Fits

/-- What is scanned fits before the rest. -/
theorem fits_of_scan {context : Context} {c : Char} {cs : List Char} {s : Scanned}
    (h : scan context c cs = .ok s) : Fits context ⟨s.kind, String.ofList s.text⟩ s.rest := by
  have hchars : Piece.chars ⟨s.kind, String.ofList s.text⟩ = s.text := String.toList_ofList
  refine ⟨c, cs, ?_, ?_⟩
  · rw [hchars, scan_append h]
  · rw [h, hchars]

/-! ## Pieces that lex -/

namespace Lexes

variable {context : Context} {piece : Piece} {rest : List Piece}

theorem fits (h : Lexes context (piece :: rest)) : Fits context piece (Piece.charsOf rest) := by
  cases h with
  | cons hfits _ => exact hfits

theorem tail (h : Lexes context (piece :: rest)) : Lexes (context.afterPiece piece) rest := by
  cases h with
  | cons _ hrest => exact hrest

theorem of_append {front : List Piece} (h : Lexes context (front ++ rest)) :
    ∃ context', Lexes context' rest := by
  induction front generalizing context with
  | nil => exact ⟨context, h⟩
  | cons first others ih => exact ih h.tail

/-- An indent comes after a line end only. -/
theorem ne_indent {next : Piece} (h : Lexes context (piece :: next :: rest))
    (hkind : piece.kind ≠ .newline) : next.kind ≠ .indent := by
  intro hindent
  have hblank := (h.tail.fits.split_blanks (by rw [hindent]; rfl)).1
  rw [hindent, atLineStart_afterPiece context hkind] at hblank
  cases hblank

theorem kind_ne_endOfFile (h : Lexes context rest) : ∀ p ∈ rest, p.kind ≠ .endOfFile := by
  induction h with
  | nil => simp
  | cons hfits _ ih => exact List.forall_mem_cons.2 ⟨hfits.kind_ne_endOfFile, ih⟩

end Lexes

/-! ## Lexings -/

/-- The piece that closes a lexing without an error. -/
def Piece.closing : Piece := ⟨.endOfFile, ""⟩

namespace Lexing

/-- The pieces of a lexing. -/
def pieces (lexing : Lexing) : List Piece := lexing.lexemes.map Lexeme.piece

/-- A piece that fits is read first, and the rest in the context and at the position behind it. -/
theorem ofChars_eq_cons {context : Context} {piece : Piece} {rest : List Char}
    (h : Fits context piece rest) (position : Position) :
    ofChars context position (piece.chars ++ rest) =
      cons ⟨piece.kind, piece.value, position⟩
        (ofChars (context.afterPiece piece) (position.after piece.chars) rest) := by
  obtain ⟨c, cs, hcs, hscan⟩ := h
  rw [hcs, ofChars_ok hscan, show String.ofList piece.chars = piece.value from
    String.ofList_toList]
  rfl

theorem ofChars_of_fits {context : Context} {piece : Piece} {rest : List Char}
    (h : Fits context piece rest) (position : Position) :
    ∃ position', (ofChars context position (piece.chars ++ rest)).pieces =
        piece :: (ofChars (context.afterPiece piece) position' rest).pieces ∧
      (ofChars context position (piece.chars ++ rest)).error =
        (ofChars (context.afterPiece piece) position' rest).error := by
  refine ⟨position.after piece.chars, ?_⟩
  rw [ofChars_eq_cons h]
  exact ⟨rfl, rfl⟩

/-- Pieces that lex are what their text is read as. -/
theorem ofChars_of_lexes {context : Context} {ps : List Piece} (h : Lexes context ps)
    (position : Position) :
    (ofChars context position (Piece.charsOf ps)).error = none ∧
      (ofChars context position (Piece.charsOf ps)).pieces = ps ++ [.closing] := by
  induction h generalizing position with
  | nil context =>
      rw [Piece.charsOf_nil, ofChars_nil]
      exact ⟨rfl, rfl⟩
  | cons hfits _ ih =>
      obtain ⟨position', hpieces, herror⟩ := ofChars_of_fits hfits position
      rw [Piece.charsOf_cons, hpieces, herror, (ih position').1, (ih position').2]
      exact ⟨rfl, rfl⟩

/-- What a text is read as without an error are pieces that lex. -/
theorem lexes_of_ofChars {context : Context} {position : Position} {cs : List Char}
    (h : (ofChars context position cs).error = none) :
    ∃ ps, Lexes context ps ∧ Piece.charsOf ps = cs ∧
      (ofChars context position cs).pieces = ps ++ [.closing] := by
  induction hlength : cs.length using Nat.strong_induction_on generalizing context position cs with
  | _ n ih =>
      cases cs with
      | nil =>
          refine ⟨[], .nil context, rfl, ?_⟩
          rw [ofChars_nil]
          rfl
      | cons c rest =>
          cases hscan : scan context c rest with
          | error fault =>
              rw [ofChars_error hscan] at h
              cases h
          | ok s =>
              rw [ofChars_ok hscan] at h ⊢
              have hshort := scan_rest_length hscan
              -- the pieces of the rest, with the scanned one in front of them
              obtain ⟨ps, hlexes, hchars, hpieces⟩ := ih s.rest.length (hlength ▸ hshort) h rfl
              refine ⟨⟨s.kind, String.ofList s.text⟩ :: ps, ?_, ?_, ?_⟩
              · refine .cons ?_ ?_
                · rw [hchars]
                  exact fits_of_scan hscan
                · rw [Context.afterPiece, Piece.chars, String.toList_ofList]
                  exact hlexes
              · rw [Piece.charsOf_cons, hchars]
                exact (congrArg (· ++ s.rest) String.toList_ofList).trans (scan_append hscan)
              · rw [pieces, cons_lexemes, List.map_cons]
                exact congrArg (List.cons _) hpieces

/-- Only the closing lexeme is left out. -/
theorem map_piece_filter {lexing : Lexing} {ps : List Piece}
    (hkinds : ∀ p ∈ ps, p.kind ≠ .endOfFile) (hpieces : lexing.pieces = ps ++ [.closing]) :
    (lexing.lexemes.filter fun l => l.kind != .endOfFile).map Lexeme.piece = ps := by
  have hall : ∀ p ∈ ps, (p.kind != .endOfFile) = true := fun p hp => by simpa using hkinds p hp
  rw [show (fun l : Lexeme => l.kind != .endOfFile) =
    (fun p : Piece => p.kind != .endOfFile) ∘ Lexeme.piece from rfl, ← List.filter_map]
  rw [show lexing.lexemes.map Lexeme.piece = _ from hpieces, List.filter_append,
    List.filter_eq_self.2 hall]
  exact List.append_nil ps

theorem toExcept_of_error {lexing : Lexing} (h : lexing.error = none) :
    lexing.toExcept = .ok (lexing.lexemes.filter fun lexeme => lexeme.kind != .endOfFile) := by
  rw [toExcept, h]

/-- **The lexemes of a source** that can be read are pieces that lex, and their text is the
source. -/
theorem lexes_of_toExcept {source : String} {lexemes : List Lexeme}
    (h : (ofSource source).toExcept = .ok lexemes) :
    Lexes .start (lexemes.map Lexeme.piece) ∧
      Piece.charsOf (lexemes.map Lexeme.piece) = source.toList := by
  unfold toExcept at h
  split at h
  · cases h
  · rename_i herror
    cases h
    obtain ⟨ps, hlexes, hchars, hpieces⟩ := lexes_of_ofChars herror
    have hpieces' : (ofSource source).pieces = ps ++ [.closing] := hpieces
    rw [map_piece_filter hlexes.kind_ne_endOfFile hpieces']
    exact ⟨hlexes, hchars⟩

/-- Pieces that lex are the lexemes of their text. -/
theorem toExcept_of_lexes {ps : List Piece} (h : Lexes .start ps) :
    ∃ lexemes, (ofSource (Piece.text ps)).toExcept = .ok lexemes ∧
      lexemes.map Lexeme.piece = ps := by
  obtain ⟨herror, hpieces⟩ := ofChars_of_lexes h .start
  rw [← Piece.toList_text] at herror hpieces
  exact ⟨_, toExcept_of_error herror, map_piece_filter h.kind_ne_endOfFile hpieces⟩

/-- **What the text of pieces that relex is read as**: the pieces themselves, or the pieces up to
a slash and then a regular expression that begins with that slash. -/
theorem pieces_of_relexes {context : Context} {ps : List Piece} (h : Relexes context ps)
    (position : Position) :
    ((ofChars context position (Piece.charsOf ps)).error = none ∧
      (ofChars context position (Piece.charsOf ps)).pieces = ps ++ [.closing]) ∨
    ∃ front back body others, ps = front ++ .bareSlash :: back ∧
      (ofChars context position (Piece.charsOf ps)).pieces =
        front ++ ⟨.regex, String.ofList ('/' :: body)⟩ :: others := by
  induction h generalizing position with
  | nil context =>
      rw [Piece.charsOf_nil, ofChars_nil]
      exact .inl ⟨rfl, rfl⟩
  | cons hfits _ ih =>
      obtain ⟨position', hpieces, herror⟩ := ofChars_of_fits hfits position
      rw [Piece.charsOf_cons, hpieces, herror]
      rcases ih position' with ⟨hnone, hsame⟩ | ⟨front, back, body, others, rfl, hsame⟩
      · rw [hnone, hsame]
        exact .inl ⟨rfl, rfl⟩
      · rw [hsame]
        exact .inr ⟨_ :: front, back, body, others, rfl, rfl⟩
  | slash hregex =>
      rename_i context rest
      -- what is scanned instead begins with the slash too
      obtain ⟨c, cs, s, hcs, hscan, hkind⟩ := hregex
      obtain rfl : '/' = c := (List.cons.inj hcs).1
      obtain ⟨d, body, htext⟩ := List.exists_cons_of_ne_nil (scan_ne_nil hscan)
      have happend := scan_append hscan
      rw [htext, List.cons_append] at happend
      obtain rfl : d = '/' := (List.cons.inj happend).1
      have hpieces : (ofChars context position (Piece.charsOf (.bareSlash :: rest))).pieces =
          ⟨.regex, String.ofList ('/' :: body)⟩ ::
            (ofChars (context.after s.kind s.text) (position.after s.text) s.rest).pieces := by
        rw [Piece.charsOf_cons, hcs, ofChars_ok hscan, pieces, cons_lexemes, List.map_cons,
          ← hkind, ← htext]
        rfl
      exact .inr ⟨[], rest, body, _, rfl, hpieces⟩

end Lexing

end ManifestLint
