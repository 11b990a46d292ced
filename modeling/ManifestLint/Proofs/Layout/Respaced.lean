import ManifestLint.Proofs.Layout.Relex
import ManifestLint.Proofs.Text.Respaced

set_option autoImplicit false

/-! # The text of a tidied layout

When pieces that lex are laid out and every gap is tidied, the text of the new pieces is the old
one respaced (`respaced_respace`): a tidied gap is the old one, or it is made of separators like
the old one and not empty. -/

namespace ManifestLint

/-! ## Characters of spacing -/

theorem isSeparator_of_startsBlank {c : Char} {following : List Char}
    (h : Span.startsBlank c following = true) : isSeparator c = true := by
  simp only [Span.startsBlank, Bool.or_eq_true, Bool.and_eq_true, beq_iff_eq] at h
  rw [isSeparator_iff]
  rcases h with (rfl | rfl) | ⟨rfl, -⟩
  · exact .inl rfl
  · exact .inr (.inl rfl)
  · exact .inr (.inr (.inl rfl))

theorem isSeparator_of_mem_blanks {cs : List Char} :
    ∀ c ∈ (Span.blanks cs).1, isSeparator c = true := by
  induction cs with
  | nil =>
      intro c hc
      cases hc
  | cons d rest ih =>
      rw [Span.blanks]
      split
      · rename_i hblank
        exact List.forall_mem_cons.2 ⟨isSeparator_of_startsBlank hblank, ih⟩
      · intro c hc
        cases hc

/-- A piece that is not empty, and if it is spacing is made of separators. -/
structure Piece.Solid (piece : Piece) : Prop where
  chars_ne : piece.chars ≠ []
  separators : piece.isSpace = true → ∀ c ∈ piece.chars, isSeparator c = true

theorem Fits.solid {context : Context} {piece : Piece} {rest : List Char}
    (h : Fits context piece rest) : piece.Solid where
  chars_ne := h.chars_ne_nil
  separators hspace := by
    rcases Kind.isBlanks_or_newline hspace with hblanks | hline
    · have hchars : (Span.blanks (piece.chars ++ rest)).1 = piece.chars :=
        congrArg Prod.fst (h.split_blanks hblanks).2
      rw [← hchars]
      exact isSeparator_of_mem_blanks
    · rcases h.chars_of_newline hline with hchars | hchars
      · rw [hchars]
        exact List.forall_mem_singleton.2 rfl
      · rw [hchars]
        exact List.forall_mem_cons.2 ⟨rfl, List.forall_mem_singleton.2 rfl⟩

theorem Lexes.solid {context : Context} {ps : List Piece} (h : Lexes context ps) :
    ∀ p ∈ ps, p.Solid := by
  induction h with
  | nil context =>
      intro p hp
      cases hp
  | cons hfits _ ih => exact List.forall_mem_cons.2 ⟨hfits.solid, ih⟩

theorem Piece.solid_singleSpace : Piece.singleSpace.Solid where
  chars_ne := by decide
  separators _ := List.forall_mem_singleton.2 rfl

/-- The text of pieces that are spacing is made of separators. -/
theorem isSeparator_of_mem_charsOf {gap : List Piece} (hsolid : ∀ p ∈ gap, p.Solid)
    (hspaces : ∀ p ∈ gap, p.isSpace = true) : ∀ c ∈ Piece.charsOf gap, isSeparator c = true := by
  intro c hc
  obtain ⟨p, hp, hcp⟩ := List.mem_flatMap.1 hc
  exact (hsolid p hp).separators (hspaces p hp) c hcp

theorem charsOf_ne_nil {first : Piece} (h : first.Solid) (rest : List Piece) :
    Piece.charsOf (first :: rest) ≠ [] := by
  rw [Piece.charsOf_cons]
  exact List.append_ne_nil_of_left_ne_nil h.chars_ne _

/-! ## Gaps and layouts -/

/-- A tidied gap respaces the text. -/
theorem respaced_tidied {site : Site Piece} {gap' : List Piece} (htidied : Tidied site gap')
    (hspaces : ∀ p ∈ site.gap, p.isSpace = true) (hsolid : ∀ p ∈ site.gap, p.Solid)
    {old new : List Char} (h : Respaced old new) :
    Respaced (Piece.charsOf site.gap ++ old) (Piece.charsOf gap' ++ new) := by
  have hold := isSeparator_of_mem_charsOf hsolid hspaces
  -- in all cases but the first the new gap begins with a piece
  have hmade : ∀ {first : Piece} {rest : List Piece}, gap' = first :: rest →
      (∀ p ∈ gap', p.Solid) →
      Respaced (Piece.charsOf site.gap ++ old) (Piece.charsOf gap' ++ new) := by
    intro first rest hgap' hsolid'
    have hnew := isSeparator_of_mem_charsOf hsolid' (spaces_of_tidied htidied hspaces)
    have hne : Piece.charsOf gap' ≠ [] := by
      rw [hgap']
      exact charsOf_ne_nil (hsolid' first (hgap' ▸ List.mem_cons_self)) rest
    exact .gap hold hnew hne h
  cases htidied with
  | same => exact h.append_left _
  | single _ => exact hmade rfl (List.forall_mem_singleton.2 Piece.solid_singleSpace)
  | white _ hsplit _ =>
      rw [hsplit, List.forall_mem_cons] at hsolid
      exact hmade rfl (List.forall_mem_cons.2 ⟨Piece.solid_singleSpace, hsolid.2⟩)
  | lines _ hsplit _ _ =>
      rw [hsplit, List.forall_mem_cons, List.forall_mem_append] at hsolid
      exact hmade rfl (List.forall_mem_cons.2 ⟨hsolid.1, hsolid.2.2⟩)

theorem respaced_respaceFrom {f : Site Piece → List Piece} {before : Option Piece}
    {stretches : List (Stretch Piece)}
    (hproper : ∀ s ∈ stretches, s.Proper Piece.isSpace)
    (hsolid : ∀ p ∈ Stretch.listOf stretches, p.Solid)
    (hf : ∀ site ∈ sitesFrom before stretches, Tidied site (f site)) :
    Respaced (Piece.charsOf (Stretch.listOf stretches))
      (Piece.charsOf (Stretch.listOf (respaceFrom f before stretches))) := by
  induction stretches generalizing before with
  | nil => exact .nil
  | cons stretch rest ih =>
      rw [List.forall_mem_cons] at hproper
      rw [Stretch.listOf_cons, List.forall_mem_cons, List.forall_mem_append] at hsolid
      rw [sitesFrom, List.forall_mem_cons] at hf
      have hrest := ih hproper.2 hsolid.2.2 hf.2
      rw [respaceFrom_cons, Stretch.listOf_cons, Stretch.listOf_cons, Piece.charsOf_cons,
        Piece.charsOf_cons, Piece.charsOf_append, Piece.charsOf_append]
      exact (respaced_tidied hf.1 hproper.1.gap hsolid.2.1 hrest).append_left _

/-- **Tidied pieces are the old text respaced.** -/
theorem respaced_respace {context : Context} {ps : List Piece} (h : Lexes context ps)
    {f : Site Piece → List Piece}
    (hf : ∀ site ∈ (Layout.ofList Piece.isSpace ps).sites, Tidied site (f site)) :
    Respaced (Piece.charsOf ps)
      (Piece.charsOf ((Layout.ofList Piece.isSpace ps).respace f).toList) := by
  have hproper := Layout.proper_ofList Piece.isSpace ps
  have hsplit : (Layout.ofList Piece.isSpace ps).lead ++
      Stretch.listOf (Layout.ofList Piece.isSpace ps).stretches = ps :=
    Layout.toList_ofList Piece.isSpace ps
  have hsolid := h.solid
  rw [← hsplit, List.forall_mem_append] at hsolid
  have hstretches := respaced_respaceFrom hproper.stretches hsolid.2 hf
  have htext := hstretches.append_left
    (Piece.charsOf (Layout.ofList Piece.isSpace ps).lead)
  rw [← Piece.charsOf_append, hsplit, ← Piece.charsOf_append] at htext
  exact htext

end ManifestLint
