import Mathlib.Data.List.DropRight
import Mathlib.Data.List.Induction
import ManifestLint.Proofs.Layout.Relex
import ManifestLint.Proofs.Lint.Respace

set_option autoImplicit false

/-! # What a selection of rules makes of a gap

The bundled rules as one function of a gap, in which the order of the rules and how often one is
named do not occur. A gap in which some selected rule wants one space becomes one space. Any other
gap after an opening brace is tidied at its beginning if the rule on what follows a brace is
selected. All other gaps stay as they are.

Running the rules one after another comes to the same (`regapAll_eq_tidyGap`): no two rules want
different things of one gap, and none of them spoils what another one has done. -/

namespace ManifestLint

open OpeningBrace ClassHeader

/-! ## The tidied gap -/

/-- Decides whether a selected rule wants one space in the gap. -/
def wantsOneSpace (selected : String → Bool) (site : Site Piece) : Bool :=
  selected beforeName && wantsSpaceBefore site ||
    (selected nameBefore && wantsSpaceBeforeName site ||
      selected nameAfter && wantsSpaceAfterName site)

/-- A gap after an opening brace with its beginning tidied: an empty gap becomes one space unless
a bracket or brace comes next or nothing does, white space at the beginning becomes one space, and
of line ends at the beginning the first is kept. -/
def openBlock (next : Option Piece) : List Piece → List Piece
  | [] => if next.any fun piece => !afterExempt piece.kind then oneSpace else []
  | first :: rest =>
    match first.kind with
    | .whitespace => .singleSpace :: rest
    | .newline => first :: rest.dropWhile fun piece => piece.kind == .newline
    | _ => first :: rest

/-- The gap as the selected rules leave it. -/
def tidyGap (selected : String → Bool) (site : Site Piece) : List Piece :=
  if wantsOneSpace selected site then oneSpace
  else if selected afterName && site.head.kind == .leftBrace then openBlock site.next site.gap
  else site.gap

/-- The gap is spacing, and as it begins on the line of its head, it does not begin with an
indent. -/
structure Site.AfterCode (site : Site Piece) : Prop where
  spaces : ∀ p ∈ site.gap, p.isSpace = true
  ne_indent : ∀ p ∈ site.gap.head?, p.kind ≠ .indent

/-- The gaps of pieces that lex begin on the lines of their heads. -/
theorem afterCode_of_lexes {context : Context} {ps : List Piece} (h : Lexes context ps) :
    ∀ site ∈ (Layout.ofList Piece.isSpace ps).sites, site.AfterCode := by
  intro site hmem
  obtain ⟨pre, post, hwithin⟩ := Layout.exists_within hmem
  refine ⟨hwithin.gap, fun p hp => ?_⟩
  obtain ⟨rest, hgap⟩ := List.head?_eq_some_iff.1 hp
  have hsplit := hwithin.split
  rw [hgap, List.cons_append] at hsplit
  rw [hsplit] at h
  obtain ⟨context', hlexes⟩ := h.of_append
  refine hlexes.ne_indent fun hline => ?_
  have hcode : site.head.kind.isSpace = false := hwithin.head
  rw [hline] at hcode
  cases hcode

/-! ## Opening a block -/

variable {site : Site Piece}

/-- Tidying the beginning of a gap is what the rule wants, unless an indent stands there. -/
theorem blockGap_eq_openBlock (hsite : site.AfterCode) (next : Option Piece) :
    blockGap next site.gap = openBlock next site.gap := by
  obtain ⟨before, head, gap, following⟩ := site
  cases gap with
  | nil => rfl
  | cons first rest =>
      have hspace : first.kind.isSpace = true := hsite.spaces first List.mem_cons_self
      rcases (Kind.isSpace_iff first.kind).1 hspace with hkind | hkind | hkind
      · simp only [blockGap, openBlock, hkind]
      · exact absurd hkind (hsite.ne_indent first rfl)
      · simp only [blockGap, openBlock, hkind]

/-- A gap whose beginning is tidied is as the rule wants it. -/
theorem blockGap_openBlock (hsite : site.AfterCode) (next : Option Piece) :
    blockGap next (openBlock next site.gap) = openBlock next site.gap := by
  obtain ⟨before, head, gap, following⟩ := site
  cases gap with
  | nil =>
      by_cases hany : (next.any fun piece => !afterExempt piece.kind) = true
      · simp only [openBlock, hany, if_true]
        rfl
      · rw [Bool.not_eq_true] at hany
        simp only [openBlock, blockGap, hany, Bool.false_eq_true, if_false]
  | cons first rest =>
      have hspace : first.kind.isSpace = true := hsite.spaces first List.mem_cons_self
      rcases (Kind.isSpace_iff first.kind).1 hspace with hkind | hkind | hkind
      · simp only [openBlock, hkind]
        rfl
      · exact absurd hkind (hsite.ne_indent first rfl)
      · simp only [openBlock, blockGap, hkind, List.dropWhile_idempotent]

/-! ## One rule after another -/

/-- After an opening brace no rule wants one space throughout. -/
theorem wantsOneSpace_leftBrace (h : site.head.kind = .leftBrace)
    (selected : String → Bool) : wantsOneSpace selected site = false := by
  simp [wantsOneSpace, wantsSpaceBefore, wantsSpaceBeforeName, wantsSpaceAfterName, h,
    beforeExempt, headerKinds]

theorem regapAll_concat (specs : List GapRule) (spec : GapRule) (site : Site Piece) :
    regapAll (specs ++ [spec]) site = spec.regap (site.withGap (regapAll specs site)) := by
  rw [regapAll, List.foldl_append]
  rfl

/-- The selection with one more name. -/
def alsoSelected (selected : String → Bool) (name : String) : String → Bool :=
  fun other => selected other || name == other

theorem alsoSelected_self (selected : String → Bool) (name : String) :
    alsoSelected selected name name = true := by
  simp [alsoSelected]

theorem alsoSelected_of_ne (selected : String → Bool) {name other : String} (h : name ≠ other) :
    alsoSelected selected name other = selected other := by
  simp only [alsoSelected, beq_eq_false_iff_ne.2 h, Bool.or_false]

theorem names_ne :
    beforeName ≠ nameBefore ∧ beforeName ≠ nameAfter ∧ nameBefore ≠ nameAfter ∧
      beforeName ≠ afterName ∧ nameBefore ≠ afterName ∧ nameAfter ≠ afterName := by
  decide

theorem wantsOneSpace_beforeName (selected : String → Bool) (site : Site Piece) :
    wantsOneSpace (alsoSelected selected beforeName) site =
      (wantsOneSpace selected site || wantsSpaceBefore site) := by
  rw [wantsOneSpace, alsoSelected_self, alsoSelected_of_ne _ names_ne.1,
    alsoSelected_of_ne _ names_ne.2.1, wantsOneSpace]
  cases selected beforeName <;> cases wantsSpaceBefore site <;> simp

theorem wantsOneSpace_nameBefore (selected : String → Bool) (site : Site Piece) :
    wantsOneSpace (alsoSelected selected nameBefore) site =
      (wantsOneSpace selected site || wantsSpaceBeforeName site) := by
  rw [wantsOneSpace, alsoSelected_self, alsoSelected_of_ne _ names_ne.1.symm,
    alsoSelected_of_ne _ names_ne.2.2.1, wantsOneSpace]
  cases selected nameBefore <;> cases wantsSpaceBeforeName site <;> simp

theorem wantsOneSpace_nameAfter (selected : String → Bool) (site : Site Piece) :
    wantsOneSpace (alsoSelected selected nameAfter) site =
      (wantsOneSpace selected site || wantsSpaceAfterName site) := by
  rw [wantsOneSpace, alsoSelected_self, alsoSelected_of_ne _ names_ne.2.1.symm,
    alsoSelected_of_ne _ names_ne.2.2.1.symm, wantsOneSpace]
  cases selected nameAfter <;> cases wantsSpaceAfterName site <;> simp

theorem wantsOneSpace_afterName (selected : String → Bool) (site : Site Piece) :
    wantsOneSpace (alsoSelected selected afterName) site = wantsOneSpace selected site := by
  obtain ⟨-, -, -, hbefore, hnameBefore, hnameAfter⟩ := names_ne
  rw [wantsOneSpace, alsoSelected_of_ne _ hbefore.symm, alsoSelected_of_ne _ hnameBefore.symm,
    alsoSelected_of_ne _ hnameAfter.symm, wantsOneSpace]

/-- A rule that wants one space has its way with what the others have left. -/
theorem single_tidyGap {selected : String → Bool} {name message : String}
    {applies : Site Piece → Bool} {anchor : Site Entry → Option Entry}
    (hgap : ∀ gap, applies (site.withGap gap) = applies site)
    (hone : wantsOneSpace (alsoSelected selected name) site =
      (wantsOneSpace selected site || applies site))
    (hname : name ≠ afterName) :
    (GapRule.single name message applies anchor).regap
        (site.withGap (tidyGap selected site)) =
      tidyGap (alsoSelected selected name) site := by
  have hafter := alsoSelected_of_ne selected hname
  show (if applies (site.withGap _) then oneSpace else tidyGap selected site) = _
  rw [hgap, tidyGap, tidyGap, hone, hafter]
  by_cases happlies : applies site = true
  · rw [happlies, Bool.or_true, if_pos rfl, if_pos rfl]
  · rw [Bool.not_eq_true] at happlies
    rw [happlies, Bool.or_false, if_neg Bool.false_ne_true]

/-- The rule on what follows a brace has its way with what the others have left. -/
theorem after_tidyGap {selected : String → Bool} (hsite : site.AfterCode) :
    afterGap.regap (site.withGap (tidyGap selected site)) =
      tidyGap (alsoSelected selected afterName) site := by
  have hone := wantsOneSpace_afterName selected site
  have hafter := alsoSelected_self selected afterName
  by_cases hkind : site.head.kind = .leftBrace
  · -- no other rule is about this gap, so that its beginning alone matters
    have hnone := wantsOneSpace_leftBrace hkind
    have hleft : afterGap.regap (site.withGap (tidyGap selected site)) =
        blockGap site.next (tidyGap selected site) := if_pos hkind
    rw [hleft, tidyGap, tidyGap, hnone, hnone, hafter, hkind]
    simp only [Bool.false_eq_true, if_false, BEq.rfl, Bool.and_true, if_true]
    by_cases hselected : selected afterName = true
    · rw [if_pos hselected]
      exact blockGap_openBlock hsite site.next
    · rw [if_neg hselected]
      exact blockGap_eq_openBlock hsite site.next
  · have hleft : afterGap.regap (site.withGap (tidyGap selected site)) =
        tidyGap selected site := if_neg hkind
    have hno : (site.head.kind == Kind.leftBrace) = false := by simpa using hkind
    rw [hleft, tidyGap, tidyGap, hone, hno, Bool.and_false, Bool.and_false]

/-- Each bundled rule has its way with what a selection has left, as if it had been selected
too. -/
theorem regap_tidyGap {spec : GapRule} (hspec : spec ∈ bundledGapRules) (hsite : site.AfterCode)
    (selected : String → Bool) :
    spec.regap (site.withGap (tidyGap selected site)) =
      tidyGap (alsoSelected selected spec.name) site := by
  obtain ⟨-, -, -, hbefore, hnameBefore, hnameAfter⟩ := names_ne
  rcases mem_bundledGapRules.1 hspec with rfl | rfl | rfl | rfl
  · exact single_tidyGap (fun _ => rfl) (wantsOneSpace_beforeName _ site) hbefore
  · exact after_tidyGap hsite
  · exact single_tidyGap (fun _ => rfl) (wantsOneSpace_nameBefore _ site) hnameBefore
  · exact single_tidyGap (fun _ => rfl) (wantsOneSpace_nameAfter _ site) hnameAfter

/-- The names of gap rules, as a selection. -/
def selectedBy (specs : List GapRule) : String → Bool :=
  fun name => specs.any fun spec => spec.name == name

/-- **One rule after another** makes of a gap what the selection makes of it, in any order and
with any repetitions. -/
theorem regapAll_eq_tidyGap {specs : List GapRule}
    (hspecs : ∀ spec ∈ specs, spec ∈ bundledGapRules) (hsite : site.AfterCode) :
    regapAll specs site = tidyGap (selectedBy specs) site := by
  -- from the last rule backwards, as it is the last one that sees what the others have left
  induction specs using List.reverseRecOn with
  | nil => simp [regapAll, tidyGap, wantsOneSpace, selectedBy]
  | append_singleton specs spec ih =>
      rw [List.forall_mem_append, List.forall_mem_singleton] at hspecs
      have hselected : selectedBy (specs ++ [spec]) =
          alsoSelected (selectedBy specs) spec.name := by
        funext name
        simp [selectedBy, alsoSelected]
      calc regapAll (specs ++ [spec]) site
          = spec.regap (site.withGap (regapAll specs site)) := regapAll_concat specs spec site
        _ = spec.regap (site.withGap (tidyGap (selectedBy specs) site)) := by rw [ih hspecs.1]
        _ = tidyGap (alsoSelected (selectedBy specs) spec.name) site :=
            regap_tidyGap hspecs.2 hsite _
        _ = tidyGap (selectedBy (specs ++ [spec])) site := by rw [hselected]

/-- What a selection has made of a gap is as each of its rules wants it. -/
theorem settled_tidyGap {specs : List GapRule}
    (hspecs : ∀ spec ∈ specs, spec ∈ bundledGapRules) (hsite : site.AfterCode) :
    ∀ spec ∈ specs, spec.Settled (site.withGap (tidyGap (selectedBy specs) site)) := by
  intro spec hmem
  have hselected : alsoSelected (selectedBy specs) spec.name = selectedBy specs := by
    funext name
    rw [alsoSelected, Bool.or_eq_left_iff_imp]
    intro hname
    exact List.any_eq_true.2 ⟨spec, hmem, hname⟩
  have hregap := regap_tidyGap (hspecs spec hmem) hsite (selectedBy specs)
  rw [hselected] at hregap
  exact hregap

/-- A gap is as every rule of a selection wants it exactly when the selection leaves it alone. -/
theorem settled_iff_tidyGap {specs : List GapRule}
    (hspecs : ∀ spec ∈ specs, spec ∈ bundledGapRules) (hsite : site.AfterCode) :
    (∀ spec ∈ specs, spec.Settled site) ↔ tidyGap (selectedBy specs) site = site.gap := by
  constructor
  · intro hsettled
    rw [← regapAll_eq_tidyGap hspecs hsite, regapAll]
    refine List.foldlRecOn specs _ (motive := fun gap => gap = site.gap) rfl ?_
    rintro _ rfl spec hmem
    exact hsettled spec hmem
  · intro htidy
    have hsettled := settled_tidyGap hspecs hsite
    rw [htidy] at hsettled
    exact hsettled

/-! ## Regular expressions for slashes -/

/-- Before a head all gaps look the same if it is a slash or a regular expression. -/
theorem tidyGap_next_regex {regex : Piece} (hkind : regex.kind = .regex)
    (selected : String → Bool) (before : Option Piece) (head : Piece) (gap : List Piece) :
    tidyGap selected ⟨before, head, gap, some regex⟩ =
      tidyGap selected ⟨before, head, gap, some .bareSlash⟩ := by
  have hone : wantsOneSpace selected ⟨before, head, gap, some regex⟩ =
      wantsOneSpace selected ⟨before, head, gap, some .bareSlash⟩ := by
    simp only [wantsOneSpace, wantsSpaceBefore, wantsSpaceBeforeName, wantsSpaceAfterName,
      Option.any_some, hkind]
    rfl
  have hopen : openBlock (some regex) gap = openBlock (some .bareSlash) gap := by
    cases gap with
    | nil => simp [openBlock, afterExempt, hkind, Piece.bareSlash]
    | cons first rest => rfl
  rw [tidyGap, tidyGap, hone, hopen]

/-- What stands before a regular expression says nothing about the gap after it. -/
theorem tidyGap_head_regex {regex : Piece} (hkind : regex.kind = .regex)
    (selected : String → Bool) (before : Option Piece) (gap : List Piece) (next : Option Piece) :
    tidyGap selected ⟨before, regex, gap, next⟩ = tidyGap selected ⟨none, regex, gap, next⟩ := by
  have hone : wantsOneSpace selected ⟨before, regex, gap, next⟩ =
      wantsOneSpace selected ⟨none, regex, gap, next⟩ := by
    simp only [wantsOneSpace, wantsSpaceBefore, wantsSpaceBeforeName, wantsSpaceAfterName, hkind]
    rfl
  rw [tidyGap, tidyGap, hone]

/-- Where the gaps are as the selection wants them up to a slash, and a regular expression begins
with that slash, it comes down to the gaps from there on. -/
theorem tidy_append_regex_iff {selected : String → Bool} {front back others : List Piece}
    {regex : Piece} (hkind : regex.kind = .regex)
    (htidy : ∀ site ∈ (Layout.ofList Piece.isSpace (front ++ .bareSlash :: back)).sites,
      tidyGap selected site = site.gap) :
    (∀ site ∈ (Layout.ofList Piece.isSpace (front ++ regex :: others)).sites,
        tidyGap selected site = site.gap) ↔
      ∀ site ∈ (Layout.ofList Piece.isSpace (regex :: others)).sites,
        tidyGap selected site = site.gap := by
  have hregex : regex.isSpace = false := by
    rw [Piece.isSpace, hkind]
    rfl
  refine Layout.forall_sites_append_iff rfl hregex ?_ ?_ htidy
  · intro before head gap hsame
    exact (tidyGap_next_regex hkind selected before head gap).trans hsame
  · intro before gap next
    rw [tidyGap_head_regex hkind]

/-! ## Tidied gaps -/

theorem head_ne_comment {selected : String → Bool} (h : wantsOneSpace selected site = true) :
    site.head.kind ≠ .comment := by
  intro hkind
  simp [wantsOneSpace, wantsSpaceBefore, wantsSpaceBeforeName, wantsSpaceAfterName, hkind,
    beforeExempt, headerKinds] at h

theorem tidied_openBlock (hsite : site.AfterCode) (hkind : site.head.kind ≠ .comment) :
    Tidied site (openBlock site.next site.gap) := by
  cases hgap : site.gap with
  | nil =>
      show Tidied site
        (if (site.next.any fun piece => !afterExempt piece.kind) = true then oneSpace else [])
      split
      · exact .single hkind
      · rw [← hgap]
        exact .same
  | cons first rest =>
      have hspace : first.kind.isSpace = true :=
        hsite.spaces first (hgap ▸ List.mem_cons_self)
      rcases (Kind.isSpace_iff first.kind).1 hspace with hfirst | hfirst | hfirst
      · simp only [openBlock, hfirst]
        exact .white hkind hgap hfirst
      · exact absurd hfirst (hsite.ne_indent first (by rw [hgap]; rfl))
      · simp only [openBlock, hfirst]
        have hsplit : site.gap = first :: ((rest.takeWhile fun piece => piece.kind == .newline) ++
            rest.dropWhile fun piece => piece.kind == .newline) := by
          rw [List.takeWhile_append_dropWhile, hgap]
        refine .lines hkind hsplit hfirst fun line hline => ?_
        simpa using List.mem_takeWhile_imp hline

/-- A selection changes a gap only in ways that are read back. -/
theorem tidied_tidyGap (hsite : site.AfterCode) (selected : String → Bool) :
    Tidied site (tidyGap selected site) := by
  unfold tidyGap
  split
  · rename_i hone
    exact .single (head_ne_comment hone)
  · split
    · rename_i hafter
      refine tidied_openBlock hsite fun hkind => ?_
      simp [hkind] at hafter
    · exact .same

theorem tidied_of_lexes {context : Context} {ps : List Piece} (h : Lexes context ps)
    (selected : String → Bool) :
    ∀ site ∈ (Layout.ofList Piece.isSpace ps).sites, Tidied site (tidyGap selected site) :=
  fun site hsite => tidied_tidyGap (afterCode_of_lexes h site hsite) selected

/-- A tidied gap still begins on the line of its head. -/
theorem Site.AfterCode.of_tidied {gap : List Piece} (hsite : site.AfterCode)
    (h : Tidied site gap) : (site.withGap gap).AfterCode where
  spaces := spaces_of_tidied h hsite.spaces
  ne_indent := by
    intro p hp
    cases h with
    | same => exact hsite.ne_indent p hp
    | single _ =>
        cases hp
        decide
    | white _ _ _ =>
        cases hp
        decide
    | lines _ hsplit hfirst _ =>
        cases hp
        rw [hfirst]
        decide

/-- What a selection has made of a gap, it leaves alone. -/
theorem tidyGap_tidyGap {specs : List GapRule}
    (hspecs : ∀ spec ∈ specs, spec ∈ bundledGapRules) (hsite : site.AfterCode) :
    tidyGap (selectedBy specs) (site.withGap (tidyGap (selectedBy specs) site)) =
      tidyGap (selectedBy specs) site := by
  have hsite' := hsite.of_tidied (tidied_tidyGap hsite (selectedBy specs))
  exact (settled_iff_tidyGap hspecs hsite').1 (settled_tidyGap hspecs hsite)

end ManifestLint
