import ManifestLint.Proofs.Token.Readers
import ManifestLint.Proofs.Token.Shape

set_option autoImplicit false

/-! # Where comments end

A line ends with a line feed, or with the carriage return directly before one; any other carriage
return is a blank. A comment does not keep to that, as it ends before the first carriage return
whatever comes after it (`fits_comment_iff`). So a comment takes up the rest of its line exactly if
there is no carriage return in it. If there is one, the comment ends there, and what stands behind
it on the line is read as if it belonged to no comment (`ofSource_comment`). -/

namespace ManifestLint

/-! ## Lines -/

/-- Decides whether a line ends at the character `c` that is followed by `cs`. -/
def endsLine (c : Char) (cs : List Char) : Bool :=
  c == '\n' || (c == '\r' && cs.head? == some '\n')

/-- The text up to the end of its first line. -/
def lineOf : List Char → List Char
  | [] => []
  | c :: cs => if endsLine c cs then [] else c :: lineOf cs

variable {c : Char} {cs body rest : List Char}

theorem lineOf_of_endsLine (h : endsLine c cs = true) : lineOf (c :: cs) = [] := if_pos h

theorem lineOf_of_not_endsLine (h : endsLine c cs = false) : lineOf (c :: cs) = c :: lineOf cs :=
  if_neg (by simp [h])

/-- A line goes on where no line end stands. -/
theorem lineOf_append (h : OneLine body) (rest : List Char) :
    lineOf (body ++ rest) = body ++ lineOf rest := by
  induction body with
  | nil => rfl
  | cons c others ih =>
      rw [OneLine, List.forall_mem_cons] at h
      have hgoes : endsLine c (others ++ rest) = false := by
        have hc : c ≠ '\n' ∧ c ≠ '\r' := not_or.1 h.1
        simp [endsLine, hc.1, hc.2]
      rw [List.cons_append, lineOf_of_not_endsLine hgoes, ih h.2]
      rfl

theorem OneLine.notMem_return (h : OneLine body) : '\r' ∉ body :=
  fun hmem => h '\r' hmem (.inr rfl)

/-- What a comment takes up of a line that goes on with a carriage return. -/
theorem takeWhile_lineOf {more : List Char} (h : OneLine body)
    (hrest : lineOf rest = '\r' :: more) :
    (lineOf (body ++ rest)).takeWhile (· != '\r') = body := by
  have hall : ∀ c ∈ body, (c != '\r') = true := by
    intro c hc
    rw [bne_iff_ne]
    rintro rfl
    exact h.notMem_return hc
  rw [lineOf_append h, hrest, List.takeWhile_append_of_pos hall,
    List.takeWhile_cons_of_neg (by simp), List.append_nil]

/-! ## The text of a comment -/

theorem Span.comment_eq_iff {front : List Char} :
    Span.comment cs = (front, rest) ↔
      cs = front ++ rest ∧ OneLine front ∧ ∀ c ∈ rest.head?, IsLineEnd c := by
  have hfree : ∀ c : Char, (c != '\n' && c != '\r') = true ↔ ¬IsLineEnd c := by
    intro c
    simp [IsLineEnd]
  have hends : ∀ c : Char, (c != '\n' && c != '\r') = false ↔ IsLineEnd c := by
    intro c
    rw [← Bool.not_eq_true, hfree, not_not]
  rw [Span.comment, Span.run_eq_iff]
  simp only [hfree, hends]
  rfl

theorem kind_ne_comment_keywords : ∀ entry ∈ keywords, entry.2 ≠ .comment := by decide

theorem kind_ne_comment_operatorTexts : ∀ entry ∈ operatorTexts, entry.2 ≠ .comment := by decide

theorem HasShape.comment_text {text : List Char} (h : HasShape .comment text) :
    ∃ body, text = '#' :: body ∧ OneLine body := by
  cases h with
  | blanks hkind _ _ => cases hkind
  | comment hline => exact ⟨_, rfl, hline⟩
  | keyword hkeyword => exact absurd rfl (kind_ne_comment_keywords _ hkeyword)
  | operator hop => exact absurd rfl (kind_ne_comment_operatorTexts _ hop)

/-- **A comment** is a hash sign and what comes after it up to a carriage return or a line feed. -/
theorem fits_comment_iff {context : Context} {piece : Piece} (hkind : piece.kind = .comment) :
    Fits context piece rest ↔
      ∃ body, piece.chars = '#' :: body ∧ OneLine body ∧ ∀ c ∈ rest.head?, IsLineEnd c := by
  have hhash : ¬IsLineEnd '#' := by simp [IsLineEnd]
  constructor
  · intro h
    have hshape := h.hasShape
    rw [hkind] at hshape
    obtain ⟨body, hbody, hline⟩ := hshape.comment_text
    obtain ⟨c, cs, hcs, hscan⟩ := h
    rw [hbody, List.cons_append] at hcs
    obtain ⟨rfl, rfl⟩ := List.cons.inj hcs
    rw [scan_comment] at hscan
    have hsplit : Span.comment ('#' :: (body ++ rest)) = (piece.chars, rest) := by
      obtain ⟨-, hfirst, hsecond⟩ := Scanned.mk.inj (Except.ok.inj hscan)
      exact Prod.ext hfirst hsecond
    exact ⟨body, hbody, hline, (Span.comment_eq_iff.1 hsplit).2.2⟩
  · rintro ⟨body, hbody, hline, hrest⟩
    have hsplit : Span.comment ('#' :: (body ++ rest)) = ('#' :: body, rest) :=
      Span.comment_eq_iff.2 ⟨rfl, List.forall_mem_cons.2 ⟨hhash, hline⟩, hrest⟩
    refine ⟨'#', body ++ rest, by rw [hbody]; rfl, ?_⟩
    rw [scan_comment, hsplit, hkind, hbody]
    rfl

/-! ## What comes after a comment -/

namespace Lexing

variable {context : Context}

/-- Where a comment has ended, the line ends with what is read next, or a carriage return stands
there that ends no line, and blanks are read. -/
theorem exists_next_of_lineEnd (hcontext : context.atLineStart = false) (position : Position)
    (hrest : ∀ c ∈ rest.head?, IsLineEnd c) :
    ∃ next others, (ofChars context position rest).lexemes = next :: others ∧
      (lineOf rest = [] ∧ (next.kind = .newline ∨ next.kind = .endOfFile) ∨
        (∃ cs, lineOf rest = '\r' :: cs) ∧ next.kind = .whitespace) := by
  cases rest with
  | nil =>
      rw [ofChars_nil]
      exact ⟨_, _, rfl, .inl ⟨rfl, .inr rfl⟩⟩
  | cons c cs =>
      rcases hrest c rfl with rfl | rfl
      · -- a line feed
        have hscan : scan context '\n' cs = .ok ⟨.newline, ['\n'], cs⟩ := rfl
        rw [ofChars_ok hscan]
        exact ⟨_, _, rfl, .inl ⟨rfl, .inl rfl⟩⟩
      · cases hnext : endsLine '\r' cs with
        | true =>
            have hhead : cs.head? = some '\n' := by simpa [endsLine] using hnext
            obtain ⟨tail, rfl⟩ := List.head?_eq_some_iff.1 hhead
            have hscan : scan context '\r' ('\n' :: tail) = .ok ⟨.newline, ['\r', '\n'], tail⟩ :=
              rfl
            rw [ofChars_ok hscan]
            exact ⟨_, _, rfl, .inl ⟨lineOf_of_endsLine hnext, .inl rfl⟩⟩
        | false =>
            have hblank : Span.startsBlank '\r' cs = true := by
              simpa [endsLine, Span.startsBlank] using hnext
            have hscan : scan context '\r' cs =
                .ok (.ofSplit .whitespace [] (Span.blanks ('\r' :: cs))) := by
              rw [scan_eq, if_pos hblank, hcontext]
              rfl
            rw [ofChars_ok hscan]
            exact ⟨_, _, rfl, .inr ⟨⟨_, lineOf_of_not_endsLine hnext⟩, rfl⟩⟩

/-- A comment is read up to the first carriage return or line feed, and the rest behind it. -/
theorem lexemes_of_comment (hline : OneLine body) (hrest : ∀ c ∈ rest.head?, IsLineEnd c)
    (context : Context) (position : Position) :
    ∃ context' position', context'.atLineStart = false ∧
      (ofChars context position ('#' :: (body ++ rest))).lexemes =
        ⟨.comment, String.ofList ('#' :: body), position⟩ ::
          (ofChars context' position' rest).lexemes := by
  have hchars : Piece.chars ⟨.comment, String.ofList ('#' :: body)⟩ = '#' :: body :=
    String.toList_ofList
  have hfits : Fits context ⟨.comment, String.ofList ('#' :: body)⟩ rest :=
    (fits_comment_iff rfl).2 ⟨body, hchars, hline, hrest⟩
  have hlexing := congrArg lexemes (ofChars_eq_cons hfits position)
  rw [hchars] at hlexing
  exact ⟨_, _, atLineStart_afterPiece context (by simp), hlexing⟩

/-- The comment says all that is left of its line after the hash sign, and the line ends right
after it. -/
def TakesLine (tail : List Char) (comment next : Lexeme) : Prop :=
  comment.value.toList = '#' :: lineOf tail ∧ (next.kind = .newline ∨ next.kind = .endOfFile)

/-- **Where comments end.** At each hash sign where a token of a source begins there is a comment,
with a token after it. The comment takes up the rest of its line if no carriage return stands in
it, and only then; otherwise it ends before the first one, and blanks come next. A comment begins
nowhere else. -/
theorem ofSource_comment (source : String) :
    (∀ front tail, front <+: (ofSource source).lexemes →
        source.toList = Piece.charsOf (front.map Lexeme.piece) ++ '#' :: tail →
        ∃ comment next, front ++ [comment, next] <+: (ofSource source).lexemes ∧
          comment.kind = .comment ∧ (TakesLine tail comment next ↔ '\r' ∉ lineOf tail) ∧
          ('\r' ∈ lineOf tail → next.kind = .whitespace ∧
            comment.value.toList = '#' :: (lineOf tail).takeWhile (· != '\r'))) ∧
      ∀ front comment, front ++ [comment] <+: (ofSource source).lexemes →
        comment.kind = .comment →
        ∃ tail, source.toList = Piece.charsOf (front.map Lexeme.piece) ++ '#' :: tail := by
  refine ⟨fun front tail hfront hsource => ?_, fun front comment h hkind => ?_⟩
  · obtain ⟨position, hlexemes⟩ := ofChars_of_prefix hfront hsource (List.cons_ne_nil '#' tail)
    obtain ⟨body, rest, hsplit⟩ : ∃ body rest, Span.comment tail = (body, rest) := ⟨_, _, rfl⟩
    obtain ⟨rfl, hline, hrest⟩ := Span.comment_eq_iff.1 hsplit
    obtain ⟨context, position', hcontext, hcomment⟩ := lexemes_of_comment hline hrest _ position
    obtain ⟨next, others, hnext, hcases⟩ := exists_next_of_lineEnd hcontext position' hrest
    rw [hcomment, hnext] at hlexemes
    refine ⟨⟨.comment, String.ofList ('#' :: body), position⟩, next, ⟨others, ?_⟩, rfl, ?_⟩
    · rw [List.append_assoc]
      exact hlexemes.symm
    rw [TakesLine, String.toList_ofList]
    rcases hcases with ⟨hends, hkind⟩ | ⟨⟨more, hgoes⟩, hkind⟩
    · rw [lineOf_append hline, hends, List.append_nil]
      exact ⟨iff_of_true ⟨rfl, hkind⟩ hline.notMem_return,
        fun hmem => absurd hmem hline.notMem_return⟩
    · have hmem : '\r' ∈ lineOf (body ++ rest) := by
        rw [lineOf_append hline, hgoes]
        simp
      refine ⟨iff_of_false ?_ (not_not_intro hmem), fun _ => ⟨hkind, ?_⟩⟩
      · rintro ⟨-, hends⟩
        rw [hkind] at hends
        simp at hends
      · rw [takeWhile_lineOf hline hgoes]
  · rcases (exists_fits_behind h).2 with ⟨-, hclosing⟩ | ⟨rest, hsource, hfits⟩
    · rw [show comment.kind = .endOfFile from congrArg Piece.kind hclosing] at hkind
      cases hkind
    · have hpiece : comment.piece.kind = .comment := hkind
      obtain ⟨body, hbody, -⟩ := (fits_comment_iff hpiece).1 hfits
      exact ⟨body ++ rest, by rw [hsource, hbody]; rfl⟩

/-- A comment before a carriage return that belongs to a line end. -/
theorem ofSource_comment_crlf :
    TakesLine " a\r\nb".toList ⟨.comment, "# a", ⟨1, 1⟩⟩ ⟨.newline, "\r\n", ⟨1, 4⟩⟩ ∧
      ∃ tail, "# a\r\nb".toList = [] ++ '#' :: tail := by
  obtain ⟨hread, hbegins⟩ := ofSource_comment "# a\r\nb"
  have hlexemes : [] ++ [⟨.comment, "# a", ⟨1, 1⟩⟩, ⟨.newline, "\r\n", ⟨1, 4⟩⟩] <+:
      (ofSource "# a\r\nb").lexemes := by
    decide +kernel
  have hcomment : [] ++ [⟨.comment, "# a", ⟨1, 1⟩⟩] <+: (ofSource "# a\r\nb").lexemes := by
    decide +kernel
  refine ⟨?_, hbegins _ _ hcomment rfl⟩
  obtain ⟨comment, next, hfound, -, htakes, -⟩ := hread [] _ List.nil_prefix rfl
  have hsame := (List.prefix_of_prefix_length_le hfound hlexemes (by simp)).eq_of_length (by simp)
  obtain ⟨rfl, rfl⟩ : comment = ⟨.comment, "# a", ⟨1, 1⟩⟩ ∧ next = ⟨.newline, "\r\n", ⟨1, 4⟩⟩ := by
    simpa using hsame
  exact htakes.2 (by decide)

/-- A comment before a carriage return that belongs to no line end: what comes after it on the
line is read as a header. -/
theorem ofSource_comment_loneReturn :
    (ofSource "# a\rclass  x").lexemes =
        [⟨.comment, "# a", ⟨1, 1⟩⟩, ⟨.whitespace, "\r", ⟨1, 4⟩⟩, ⟨.classWord, "class", ⟨1, 5⟩⟩,
          ⟨.whitespace, "  ", ⟨1, 10⟩⟩, ⟨.identifier, "x", ⟨1, 12⟩⟩, ⟨.endOfFile, "", ⟨1, 13⟩⟩] ∧
      ¬TakesLine " a\rclass  x".toList ⟨.comment, "# a", ⟨1, 1⟩⟩ ⟨.whitespace, "\r", ⟨1, 4⟩⟩ := by
  refine ⟨by decide +kernel, ?_⟩
  rintro ⟨-, hkind | hkind⟩
  · cases hkind
  · cases hkind

end Lexing

end ManifestLint
