import ManifestLint.Proofs.Layout.Basic
import ManifestLint.Proofs.Token.Lexes

set_option autoImplicit false

/-! # Reading a respaced text again

A gap is *tidied* when it is left alone, made one space, or has its beginning tidied up: white
space made one space, or line ends dropped but for the first. Nothing of the kind is done after a
comment, whose end is the end of its line.

When pieces that lex are laid out and every gap is tidied, the new pieces relex: each of them is
read back, up to a slash at most that is taken for the beginning of a regular expression
(`relexes_respace`). The text after a head agrees with the old one, as it is the same up to the
first gap that changed, and there it has spacing. -/

namespace ManifestLint

/-- The ways to tidy the gap of a site. -/
inductive Tidied (site : Site Piece) : List Piece → Prop
  | same : Tidied site site.gap
  | single : site.head.kind ≠ .comment → Tidied site oneSpace
  | white {first : Piece} {rest : List Piece} : site.head.kind ≠ .comment →
      site.gap = first :: rest → first.kind = .whitespace → Tidied site (.singleSpace :: rest)
  | lines {first : Piece} {lines rest : List Piece} : site.head.kind ≠ .comment →
      site.gap = first :: (lines ++ rest) → first.kind = .newline →
      (∀ line ∈ lines, line.kind = .newline) → Tidied site (first :: rest)

theorem eq_gap_of_comment {site : Site Piece} {gap' : List Piece} (h : Tidied site gap')
    (hkind : site.head.kind = .comment) : gap' = site.gap := by
  cases h with
  | same => rfl
  | single hne => exact absurd hkind hne
  | white hne _ _ => exact absurd hkind hne
  | lines hne _ _ _ => exact absurd hkind hne

/-- A tidied gap is spacing. -/
theorem spaces_of_tidied {site : Site Piece} {gap' : List Piece} (h : Tidied site gap')
    (hgap : ∀ p ∈ site.gap, p.isSpace = true) : ∀ p ∈ gap', p.isSpace = true := by
  cases h with
  | same => exact hgap
  | single _ => exact List.forall_mem_singleton.2 rfl
  | white _ hsplit _ =>
      rw [hsplit, List.forall_mem_cons] at hgap
      exact List.forall_mem_cons.2 ⟨rfl, hgap.2⟩
  | lines _ hsplit _ _ =>
      rw [hsplit, List.forall_mem_cons, List.forall_mem_append] at hgap
      exact List.forall_mem_cons.2 ⟨hgap.1, hgap.2.2⟩

/-! ## Contexts -/

/-- The context after a piece depends on the one before it only in what that allows. -/
theorem afterPiece_eq {context context' : Context}
    (h : context'.regexAllowed = context.regexAllowed) (piece : Piece) :
    context'.afterPiece piece = context.afterPiece piece := by
  simp [Context.afterPiece, Context.after, h]

theorem regexAllowed_afterPiece (context : Context) {piece : Piece} (h : piece.isSpace = true) :
    (context.afterPiece piece).regexAllowed = context.regexAllowed := by
  show (if piece.kind.isTrivia = true then context.regexAllowed else _) = _
  rw [if_pos (Kind.isTrivia_of_isSpace h)]

theorem afterPiece_whitespace {context : Context} {piece : Piece}
    (h : piece.kind = .whitespace) :
    context.afterPiece .singleSpace = context.afterPiece piece := by
  show Context.mk _ _ = Context.mk _ _
  rw [h]
  rfl

theorem afterPiece_newline {context : Context} {piece : Piece} (h : piece.kind = .newline)
    (hstart : context.atLineStart = true) : context.afterPiece piece = context := by
  obtain ⟨atLineStart, regexAllowed⟩ := context
  show Context.mk _ _ = Context.mk _ _
  rw [h]
  cases hstart
  rfl

/-- At the start of a line, further line ends can be passed over. -/
theorem Lexes.drop_lines {context : Context} {lines rest : List Piece}
    (h : Lexes context (lines ++ rest)) (hstart : context.atLineStart = true)
    (hlines : ∀ line ∈ lines, line.kind = .newline) : Lexes context rest := by
  induction lines with
  | nil => exact h
  | cons line others ih =>
      rw [List.forall_mem_cons] at hlines
      have htail := h.tail
      rw [afterPiece_newline hlines.1 hstart] at htail
      exact ih htail hlines.2

/-- Spacing leaves what is known of the code as it is. -/
theorem Lexes.of_spaces {context : Context} {gap rest : List Piece}
    (h : Lexes context (gap ++ rest)) (hgap : ∀ p ∈ gap, p.isSpace = true) :
    ∃ context', Lexes context' rest ∧ context'.regexAllowed = context.regexAllowed := by
  induction gap generalizing context with
  | nil => exact ⟨context, h, rfl⟩
  | cons piece others ih =>
      rw [List.forall_mem_cons] at hgap
      obtain ⟨context', hrest, hsame⟩ := ih h.tail hgap.2
      exact ⟨context', hrest, hsame.trans (regexAllowed_afterPiece context hgap.1)⟩

/-! ## Gaps -/

variable {context : Context} {piece : Piece} {rest rest' : List Piece}

/-- Texts of pieces that begin with the same piece begin with the same character. -/
theorem head?_charsOf (h : Lexes context rest) (hhead : rest'.head? = rest.head?) :
    (Piece.charsOf rest').head? = (Piece.charsOf rest).head? := by
  cases rest with
  | nil =>
      rw [List.head?_nil, List.head?_eq_none_iff] at hhead
      rw [hhead]
  | cons first others =>
      obtain ⟨others', rfl⟩ := List.head?_eq_some_iff.1 hhead
      obtain ⟨c, cs, hchars⟩ := List.exists_cons_of_ne_nil h.fits.chars_ne_nil
      rw [Piece.charsOf_cons, Piece.charsOf_cons, hchars]
      rfl

/-- A text that begins with the same piece begins with a blank only if the old one does. -/
theorem beginsBlank_charsOf (h : Lexes context rest) (hhead : rest'.head? = rest.head?)
    (hstop : Span.beginsBlank (Piece.charsOf rest) = false) :
    Span.beginsBlank (Piece.charsOf rest') = false := by
  cases rest with
  | nil =>
      rw [List.head?_nil, List.head?_eq_none_iff] at hhead
      rw [hhead]
      rfl
  | cons first others =>
      obtain ⟨others', rfl⟩ := List.head?_eq_some_iff.1 hhead
      refine h.fits.not_beginsBlank_append ?_ _
      by_contra hblanks
      rw [Bool.not_eq_false] at hblanks
      have hsplit := (h.fits.split_blanks hblanks).2
      rw [Piece.charsOf_cons] at hstop
      rw [Span.blanks_of_not_beginsBlank hstop] at hsplit
      exact h.fits.chars_ne_nil (congrArg Prod.fst hsplit).symm

/-- A text that begins with the same head begins with no blank. -/
theorem beginsBlank_charsOf_of_code (h : Lexes context rest) (hhead : rest'.head? = rest.head?)
    (hcode : ∀ p ∈ rest.head?, p.isSpace = false) :
    Span.beginsBlank (Piece.charsOf rest') = false := by
  cases rest with
  | nil =>
      rw [List.head?_nil, List.head?_eq_none_iff] at hhead
      rw [hhead]
      rfl
  | cons first others =>
      obtain ⟨others', rfl⟩ := List.head?_eq_some_iff.1 hhead
      refine h.fits.not_beginsBlank_append ?_ _
      by_contra hblanks
      rw [Bool.not_eq_false] at hblanks
      have hspace : first.isSpace = true := Kind.isSpace_of_isBlanks hblanks
      rw [hcode first rfl] at hspace
      cases hspace

/-- Spacing is read back before pieces that begin as the old ones did. -/
theorem relexes_gap {gap : List Piece} (hgap : ∀ p ∈ gap, p.isSpace = true)
    (h : Lexes context (gap ++ rest)) (hhead : rest'.head? = rest.head?)
    (hrest : ∀ context', context'.regexAllowed = context.regexAllowed → Relexes context' rest') :
    Relexes context (gap ++ rest') := by
  induction gap generalizing context with
  | nil => exact hrest context rfl
  | cons first others ih =>
      rw [List.forall_mem_cons] at hgap
      have hfirst : (others ++ rest').head? = (others ++ rest).head? := by
        rw [List.head?_append, List.head?_append, hhead]
      refine .cons ?_ (ih hgap.2 h.tail fun context' hcontext' => hrest context' ?_)
      · rcases Kind.isBlanks_or_newline hgap.1 with hblanks | hkind
        · have hstop := beginsBlank_charsOf h.tail hfirst (h.fits.not_beginsBlank hblanks)
          exact h.fits.blanks hblanks hstop fun hline => head?_charsOf h.tail hfirst ▸ hline
        · exact h.fits.newline hkind _ _
      · rw [hcontext', regexAllowed_afterPiece context hgap.1]

/-- A tidied gap after a head is read back before pieces that begin as the old ones did. -/
theorem relexes_tidied {site : Site Piece} {gap' : List Piece} (htidied : Tidied site gap')
    (hgap : ∀ p ∈ site.gap, p.isSpace = true) (h : Lexes context (site.gap ++ rest))
    (hstart : context.atLineStart = false) (hhead : rest'.head? = rest.head?)
    (hcode : ∀ p ∈ rest.head?, p.isSpace = false)
    (hrest : ∀ context', context'.regexAllowed = context.regexAllowed → Relexes context' rest') :
    Relexes context (gap' ++ rest') := by
  cases htidied with
  | same => exact relexes_gap hgap h hhead hrest
  | single _ =>
      obtain ⟨context', hlexes⟩ := h.of_append
      have hstop := beginsBlank_charsOf_of_code hlexes hhead hcode
      have hspace : Piece.singleSpace.isSpace = true := rfl
      exact .cons (.singleSpace hstart hstop) (hrest _ (regexAllowed_afterPiece context hspace))
  | white _ hsplit hkind =>
      rename_i first others _
      rw [hsplit] at hgap h
      rw [List.forall_mem_cons] at hgap
      have hblanks : first.kind.isBlanks = true := by
        rw [hkind]
        rfl
      have hfirst : (others ++ rest').head? = (others ++ rest).head? := by
        rw [List.head?_append, List.head?_append, hhead]
      have hstop := beginsBlank_charsOf h.tail hfirst (h.fits.not_beginsBlank hblanks)
      refine .cons (.singleSpace hstart hstop) ?_
      rw [afterPiece_whitespace hkind]
      refine relexes_gap hgap.2 h.tail hhead fun context' hcontext' => hrest context' ?_
      rw [hcontext', regexAllowed_afterPiece context hgap.1]
  | lines _ hsplit hkind hlines =>
      rename_i first lines others _
      rw [hsplit] at hgap h
      rw [List.forall_mem_cons] at hgap
      have hstart' : (context.afterPiece first).atLineStart = true := by
        show (first.kind == .newline) = true
        rw [hkind]
        rfl
      rw [List.cons_append, List.append_assoc] at h
      have htail := h.tail
      refine .cons (h.fits.newline hkind _ _) ?_
      refine relexes_gap (fun p hp => hgap.2 p (List.mem_append_right _ hp))
        (htail.drop_lines hstart' hlines) hhead fun context' hcontext' => hrest context' ?_
      rw [hcontext', regexAllowed_afterPiece context hgap.1]

/-! ## Stretches -/

theorem agrees_tidied {site : Site Piece} {gap' : List Piece} (htidied : Tidied site gap')
    (h : Lexes context (site.gap ++ rest))
    (hagrees : Agrees (Piece.charsOf rest) (Piece.charsOf rest')) :
    Agrees (Piece.charsOf (site.gap ++ rest)) (Piece.charsOf (gap' ++ rest')) := by
  rw [Piece.charsOf_append, Piece.charsOf_append]
  cases htidied with
  | same => exact hagrees.append _
  | single _ => exact .of_isSeparator rfl _ _
  | white _ _ _ => exact .of_isSeparator rfl _ _
  | lines _ hsplit hkind _ =>
      rename_i first lines others _
      rw [hsplit] at h ⊢
      rw [Piece.charsOf_cons]
      rcases h.fits.chars_of_newline hkind with hchars | hchars
      · rw [Piece.charsOf_cons, hchars]
        exact .of_isSeparator rfl _ _
      · rw [Piece.charsOf_cons, hchars]
        exact .of_isSeparator rfl _ _

/-- **Tidied stretches are read back.** Heads and gaps are what is scanned again, up to a slash at
most in whose place a regular expression is scanned; and the new text agrees with the old one. -/
theorem relexes_respaceFrom {f : Site Piece → List Piece} {before : Option Piece}
    {stretches : List (Stretch Piece)} {context context' : Context}
    (hproper : ∀ s ∈ stretches, s.Proper Piece.isSpace)
    (hf : ∀ site ∈ sitesFrom before stretches, Tidied site (f site))
    (h : Lexes context (Stretch.listOf stretches))
    (hcontext : context'.regexAllowed = context.regexAllowed) :
    Relexes context' (Stretch.listOf (respaceFrom f before stretches)) ∧
      Agrees (Piece.charsOf (Stretch.listOf stretches))
        (Piece.charsOf (Stretch.listOf (respaceFrom f before stretches))) := by
  induction stretches generalizing before context context' with
  | nil => exact ⟨.nil context', .refl _⟩
  | cons stretch rest ih =>
      rw [List.forall_mem_cons] at hproper
      rw [sitesFrom, List.forall_mem_cons] at hf
      rw [Stretch.listOf_cons] at h
      obtain ⟨contextGap, hgap, hsame⟩ := h.tail.of_spaces hproper.1.gap
      -- the rest is read back in every context that allows what the old one did
      have hrest : ∀ context', context'.regexAllowed =
          (context.afterPiece stretch.head).regexAllowed →
          Relexes context' (Stretch.listOf (respaceFrom f (some stretch.head) rest)) :=
        fun context' hcontext' => (ih hproper.2 hf.2 hgap (hcontext'.trans hsame.symm)).1
      have hagrees := (ih hproper.2 hf.2 hgap rfl).2
      have hhead : (Stretch.listOf (respaceFrom f (some stretch.head) rest)).head? =
          (Stretch.listOf rest).head? := by
        rw [Stretch.head?_listOf, Stretch.head?_listOf, head?_respaceFrom]
      have hcode : ∀ p ∈ (Stretch.listOf rest).head?, p.isSpace = false := by
        rw [Stretch.head?_listOf]
        intro p hp
        obtain ⟨s, hs, rfl⟩ := Option.map_eq_some_iff.1 hp
        exact (hproper.2 s (List.mem_of_mem_head? hs)).head
      have hstart := atLineStart_afterPiece context (Piece.kind_ne hproper.1.head rfl)
      -- the text behind the head: whatever has become of the gap, it agrees with the old one
      have htext := agrees_tidied hf.1 h.tail hagrees
      rw [respaceFrom_cons, Stretch.listOf_cons, Stretch.listOf_cons, Piece.charsOf_cons,
        Piece.charsOf_cons]
      refine ⟨?_, htext.append _⟩
      -- behind a comment nothing is tidied, so that it ends where it did
      have hcomment : stretch.head.kind = .comment →
          (Piece.charsOf (f ⟨before, stretch.head, stretch.gap, rest.head?.map Stretch.head⟩ ++
            Stretch.listOf (respaceFrom f (some stretch.head) rest))).head? =
          (Piece.charsOf (stretch.gap ++ Stretch.listOf rest)).head? := by
        intro hkind
        refine head?_charsOf h.tail ?_
        rw [(eq_gap_of_comment hf.1 hkind), List.head?_append, List.head?_append, hhead]
      rcases h.fits.code hproper.1.head hcontext htext hcomment with hfits | ⟨hslash, hregex⟩
      · refine .cons hfits ?_
        rw [afterPiece_eq hcontext]
        exact relexes_tidied hf.1 hproper.1.gap h.tail hstart hhead hcode hrest
      · rw [hslash] at hregex ⊢
        exact .slash hregex

/-- **A respaced layout is read back**, up to a slash at most in whose place a regular expression
is scanned. -/
theorem relexes_respace {ps : List Piece} (h : Lexes .start ps) {f : Site Piece → List Piece}
    (hf : ∀ site ∈ (Layout.ofList Piece.isSpace ps).sites, Tidied site (f site)) :
    Relexes .start ((Layout.ofList Piece.isSpace ps).respace f).toList := by
  have hproper := Layout.proper_ofList Piece.isSpace ps
  have hsplit : (Layout.ofList Piece.isSpace ps).lead ++
      Stretch.listOf (Layout.ofList Piece.isSpace ps).stretches = ps :=
    Layout.toList_ofList Piece.isSpace ps
  rw [← hsplit] at h
  obtain ⟨context, hlexes, hsame⟩ := h.of_spaces hproper.lead
  refine relexes_gap hproper.lead h ?_ fun context' hcontext' => ?_
  · rw [Stretch.head?_listOf, Stretch.head?_listOf]
    exact head?_respaceFrom f none _
  · exact (relexes_respaceFrom hproper.stretches hf hlexes (hcontext'.trans hsame.symm)).1

end ManifestLint
