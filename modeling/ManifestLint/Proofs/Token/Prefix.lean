import ManifestLint.Proofs.Token.Lossless

set_option autoImplicit false

/-! # Beginnings of a lexing

A lexing goes on after some of its lexemes as it would begin there: with the text that is left, in
the context that those lexemes leave, and at the position behind their text
(`ofChars_eq_behind`). So each lexeme of a lexing fits where it stands, whatever comes of the
rest (`exists_fits_behind`), and a lexing that breaks off does so at the text behind its
lexemes. -/

namespace ManifestLint.Lexing

variable {context : Context} {position : Position} {cs rest : List Char} {lexeme : Lexeme}
  {front others : List Lexeme}

/-- The lexing with some lexemes before it. -/
def prepend (front : List Lexeme) (lexing : Lexing) : Lexing :=
  ⟨front ++ lexing.lexemes, lexing.error⟩

@[simp] theorem prepend_nil (lexing : Lexing) : prepend [] lexing = lexing := rfl

/-- The first lexeme of a text fits at its front, and the others are read behind it. -/
theorem ofChars_eq_of_cons (h : lexeme :: others <+: (ofChars context position cs).lexemes)
    (hcs : cs ≠ []) :
    lexeme.position = position ∧ ∃ rest, cs = lexeme.piece.chars ++ rest ∧
      Fits context lexeme.piece rest ∧
      ofChars context position cs = cons lexeme
        (ofChars (context.afterPiece lexeme.piece) (position.after lexeme.piece.chars) rest) := by
  obtain ⟨c, cs, rfl⟩ := List.exists_cons_of_ne_nil hcs
  cases hscan : scan context c cs with
  | error fault =>
      rw [ofChars_error hscan] at h
      simp at h
  | ok s =>
      rw [ofChars_ok hscan] at h ⊢
      obtain ⟨rfl, -⟩ := List.cons_prefix_cons.1 h
      have hchars : (Lexeme.piece ⟨s.kind, String.ofList s.text, position⟩).chars = s.text :=
        String.toList_ofList
      refine ⟨rfl, s.rest, ?_, fits_of_scan hscan, ?_⟩
      · rw [hchars, scan_append hscan]
      · rw [Context.afterPiece, hchars]
        rfl

/-- Behind some of its lexemes a lexing goes on in the context and at the position that those
leave. -/
theorem ofChars_eq_behind (hfront : front <+: (ofChars context position cs).lexemes)
    (hcs : cs = Piece.charsOf (front.map Lexeme.piece) ++ rest) (hrest : rest ≠ []) :
    ofChars context position cs = prepend front
      (ofChars ((front.map Lexeme.piece).foldl Context.afterPiece context)
        (position.after (Piece.charsOf (front.map Lexeme.piece))) rest) := by
  induction front generalizing context position cs with
  | nil =>
      obtain rfl : cs = rest := hcs
      rfl
  | cons lexeme front ih =>
      -- the first lexeme is read in this context and the others in the one it leaves
      have hne : cs ≠ [] := by simp [hcs, hrest]
      obtain ⟨-, behind, rfl, -, hlexing⟩ := ofChars_eq_of_cons hfront hne
      rw [hlexing] at hfront ⊢
      rw [List.map_cons, Piece.charsOf_cons, List.append_assoc] at hcs
      rw [ih (List.cons_prefix_cons.1 hfront).2 (List.append_cancel_left hcs), List.map_cons,
        Piece.charsOf_cons, Position.after_append]
      rfl

/-- **Each lexeme of a lexing** closes it at the end of the text, or fits where it stands. -/
theorem exists_fits_behind
    (h : front ++ [lexeme] <+: (ofChars context position cs).lexemes) :
    lexeme.position = position.after (Piece.charsOf (front.map Lexeme.piece)) ∧
      ((cs = Piece.charsOf (front.map Lexeme.piece) ∧ lexeme.piece = .closing) ∨
        ∃ rest, cs = Piece.charsOf (front.map Lexeme.piece) ++ (lexeme.piece.chars ++ rest) ∧
          Fits ((front.map Lexeme.piece).foldl Context.afterPiece context) lexeme.piece rest) := by
  induction front generalizing context position cs with
  | nil =>
      cases cs with
      | nil =>
          rw [ofChars_nil] at h
          obtain ⟨rfl, -⟩ := List.cons_prefix_cons.1 h
          exact ⟨rfl, .inl ⟨rfl, rfl⟩⟩
      | cons c cs =>
          obtain ⟨hposition, rest, hcs, hfits, -⟩ := ofChars_eq_of_cons h (List.cons_ne_nil c cs)
          exact ⟨hposition, .inr ⟨rest, hcs, hfits⟩⟩
  | cons first front ih =>
      have hne : cs ≠ [] := by
        rintro rfl
        rw [ofChars_nil] at h
        simpa using h.length_le
      obtain ⟨-, behind, rfl, -, hlexing⟩ := ofChars_eq_of_cons h hne
      rw [hlexing] at h
      obtain ⟨hposition, hlexeme⟩ := ih (List.cons_prefix_cons.1 h).2
      rw [List.map_cons, Piece.charsOf_cons, Position.after_append]
      refine ⟨hposition, ?_⟩
      rcases hlexeme with ⟨rfl, hclosing⟩ | ⟨rest, rfl, hfits⟩
      · exact .inl ⟨rfl, hclosing⟩
      · exact .inr ⟨rest, (List.append_assoc _ _ _).symm, hfits⟩

end ManifestLint.Lexing
