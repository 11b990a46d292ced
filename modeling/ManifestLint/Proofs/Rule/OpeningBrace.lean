import ManifestLint.Proofs.Rule.Gap
import ManifestLint.Rule.OpeningBrace

set_option autoImplicit false

/-! # The rules around opening braces, gap by gap

The rule on the space before a brace is about the gap in front of a brace, the rule on what
follows a brace about the gap after one. Each is given as a gap rule, and is shown to implement
it. -/

namespace ManifestLint.OpeningBrace

open Edit

/-! ## Before the brace -/

/-- Decides whether the gap leads to an opening brace and is not exempt. -/
def wantsSpaceBefore (site : Site Piece) : Bool :=
  (site.next.any fun piece => piece.kind == .leftBrace) && !beforeExempt site.head.kind

/-- The rule on the space before a brace. -/
def beforeGap : GapRule := .single beforeName beforeMessage wantsSpaceBefore Site.next

variable {view : View} {site : Site Entry} {pre post : List Entry} {brace : Entry}

/-- Two tokens are one space apart when their positions say so and the token before the second
one is a single space. -/
theorem oneSpace_iff_of_getLast? {head last : Entry} {gap : List Entry}
    (hlast : (pre ++ head :: gap).getLast? = some last) :
    (pre.length + 2 == (pre ++ head :: gap).length && decide (last.piece = .singleSpace)) =
      decide (gap.map Entry.piece = oneSpace) := by
  rw [Bool.eq_iff_iff]
  simp only [Bool.and_eq_true, beq_iff_eq, decide_eq_true_eq, map_piece_eq_oneSpace_iff,
    List.length_append, List.length_cons]
  constructor
  · rintro ⟨hlength, hpiece⟩
    obtain ⟨entry, rfl⟩ := List.length_eq_one_iff.1 (show gap.length = 1 by omega)
    have heq : entry = last := by simpa using hlast
    exact ⟨entry, rfl, heq ▸ hpiece⟩
  · rintro ⟨entry, rfl, hpiece⟩
    have heq : entry = last := by simpa using hlast
    exact ⟨rfl, heq ▸ hpiece⟩

theorem wantsSpaceBefore_iff :
    wantsSpaceBefore site.pieces = true ↔
      (∃ brace ∈ site.next, brace.kind = .leftBrace) ∧ beforeExempt site.head.kind = false := by
  simp [wantsSpaceBefore, Site.pieces, Site.map, Option.any_eq_true, Entry.kind]

/-- At a brace with code before it the check says what the gap rule says about the gap between
the two. -/
theorem checkBeforeAt_reads (hwithin : site.Within Entry.isSpace view.entries pre post)
    (hnext : site.next = some brace) (hkind : brace.kind = .leftBrace) :
    (checkBeforeAt brace.id).Reads view (beforeGap.finding site) := by
  obtain ⟨rest, rfl, hbrace⟩ := hwithin.split_next hnext
  have hhead := hwithin.split
  obtain ⟨last, hlast⟩ : ∃ last, (pre ++ site.head :: site.gap).getLast? = some last :=
    Option.isSome_iff_exists.1 (by simp)
  have hmem : last ∈ view.entries := by
    rw [hbrace]
    exact List.mem_append_left _ (List.mem_of_getLast? hlast)
  have hprev := prev_reads hbrace
  rw [hlast] at hprev
  unfold checkBeforeAt
  refine hprev.bind ((prevHead_reads hwithin hnext).bind ?_)
  show Turns (token site.head.id >>= _) _ _ _
  refine Turns.token_bind (mem_of_split hhead) fun code hpiece _ => ?_
  rw [show code.kind = site.head.kind from congrArg Piece.kind hpiece]
  cases hexempt : beforeExempt site.head.kind with
  | true =>
      have hsettled : beforeGap.Settled site.pieces := by
        refine GapRule.single_settled_iff.2 fun happlies => ?_
        rw [(wantsSpaceBefore_iff.1 happlies).2] at hexempt
        cases hexempt
      rw [GapRule.finding_eq_none_of_settled hsettled]
      exact Turns.pure none
  | false =>
      have hsettled : beforeGap.Settled site.pieces ↔ site.gap.map Entry.piece = oneSpace := by
        refine GapRule.single_settled_iff.trans (forall_prop_of_true ?_)
        exact wantsSpaceBefore_iff.2 ⟨⟨brace, hnext, hkind⟩, hexempt⟩
      refine (index_reads hhead).bind ((index_reads hbrace).bind ?_)
      refine (isSingleSpace_reads hmem).bind ?_
      rw [oneSpace_iff_of_getLast? hlast]
      by_cases hgap : site.gap.map Entry.piece = oneSpace
      · rw [if_pos (decide_eq_true hgap),
          GapRule.finding_eq_none_of_settled (hsettled.2 hgap)]
        exact Turns.pure none
      · rw [if_neg (by simpa using hgap),
          GapRule.finding_of_not_settled (fun h => hgap (hsettled.1 h)) hnext]
        exact (findingAt_reads (mem_of_split hbrace) _ _ _).bind (Turns.pure _)

/-- A brace that no code comes before is never reported. -/
theorem checkBeforeAt_reads_none (hsplit : view.entries = pre ++ brace :: post)
    (hpre : (pre.reverse.find? fun entry => !entry.isSpace) = none) :
    (checkBeforeAt brace.id).Reads view none := by
  have hcode := prevNonSpace_reads hsplit
  rw [hpre] at hcode
  unfold checkBeforeAt
  refine (prev_reads hsplit).bind (hcode.bind ?_)
  cases pre.getLast? with
  | none => exact Turns.pure none
  | some previous => exact Turns.pure none

theorem beforeGap_finding_of_next_ne (hnext : ∀ entry ∈ site.next, entry.kind ≠ .leftBrace) :
    beforeGap.finding site = none := by
  refine GapRule.finding_eq_none_of_settled (GapRule.single_settled_iff.2 fun happlies => ?_)
  obtain ⟨⟨entry, hentry, hkind⟩, -⟩ := wantsSpaceBefore_iff.1 happlies
  exact absurd hkind (hnext entry hentry)

/-- The check of the braces at the ends of gaps finds the gaps that are not settled. -/
theorem collect_checkBeforeAt_reads (view : View) :
    (collect checkBeforeAt (view.sites.filterMap fun site =>
      (site.next.filter fun e => [Kind.leftBrace].contains e.kind).map Entry.id)).Reads view
      (view.sites.filterMap beforeGap.finding) := by
  refine collect_reads ?_ ?_
  · intro site hsite t ht
    obtain ⟨brace, hbrace, rfl⟩ := Option.map_eq_some_iff.1 ht
    obtain ⟨hnext, hkind⟩ := Option.filter_eq_some_iff.1 hbrace
    obtain ⟨pre, post, hwithin⟩ := View.exists_within hsite
    exact checkBeforeAt_reads hwithin hnext (by simpa using hkind)
  · intro site _ hnone
    apply beforeGap_finding_of_next_ne
    intro entry hentry hkind
    rw [Option.mem_def.1 hentry] at hnone
    simp [Option.filter, hkind] at hnone

/-- The check on the space before braces goes through the gaps that lead to a brace. The first
head is no end of a gap; if it is a brace, it is passed over. -/
theorem checkBefore_reads (view : View) :
    checkBefore.Reads view (view.sites.filterMap beforeGap.finding) := by
  have hgaps := collect_checkBeforeAt_reads view
  unfold checkBefore
  refine (View.ofKinds_heads (by decide)).bind ?_
  rw [View.filter_heads_eq]
  cases hfirst : view.layout.stretches with
  | nil => exact hgaps
  | cons stretch rest =>
      simp only [List.head?_cons, Option.map_some, Option.toList_some, List.filter_cons]
      split
      · -- only spacing stands before the first head
        have hproper := Layout.proper_ofList Entry.isSpace view.entries
        have hsplit : view.entries = view.layout.lead ++
            stretch.head :: (stretch.gap ++ Stretch.listOf rest) := by
          rw [← Stretch.listOf_cons, ← hfirst]
          exact (Layout.toList_ofList Entry.isSpace view.entries).symm
        have hnone := (find?_spaces hproper.lead).2
        show (collect checkBeforeAt (stretch.head.id :: _)).Reads view _
        unfold collect
        exact (checkBeforeAt_reads_none hsplit hnone).bind hgaps
      · exact hgaps

/-! ### The repair -/

/-- Whatever spacing stands before a token is replaced by one space, whether code comes before the
spacing or nothing does. -/
theorem fixBefore_turns_of_split {front gap rest : List Entry}
    (h : view.entries = (front ++ gap) ++ brace :: rest) (hgap : ∀ e ∈ gap, e.isSpace = true)
    (hfront : ∀ e ∈ front.getLast?, e.isSpace = false) {finding : Finding}
    (htoken : finding.token = some brace.id) :
    (fixBefore finding).Turns view ()
      ⟨front ++ spaceBefore view.size brace :: brace :: rest, view.size + 1⟩ := by
  -- the spacing is collected backwards from the token
  have hback : view.entries.reverse =
      (rest.reverse ++ [brace]) ++ (gap.reverse ++ front.reverse) := by
    rw [h]
    simp
  have hprev := prev_reads h
  rw [List.getLast?_eq_head?_reverse, List.reverse_append] at hprev
  have hcode := prevNonSpace_reads h
  rw [List.reverse_append, List.find?_append, (find?_spaces hgap).2, Option.none_or,
    find?_reverse_of_getLast? hfront] at hcode
  unfold fixBefore anchor
  rw [htoken]
  refine (Turns.pure brace.id).bind (hprev.bind (hcode.bind (Turns.get_bind fun draft hsize => ?_)))
  have hfuel : gap.reverse.length ≤ draft.stream.size + 1 := by
    rw [hsize, h, List.length_reverse, List.length_append, List.length_append]
    omega
  have hspaces := (follows_prev view).spacesUntil_reads .unexpectedBeforeBrace hback
    (fun e he => hgap e (List.mem_reverse.1 he)) hfuel
  refine hspaces.bind ?_
  have hsplit : view.entries = front ++ (gap ++ brace :: rest) := by
    rw [h, List.append_assoc]
  refine (removeAll_turns hsplit (gap.reverse_perm.map Entry.id)).bind ?_
  exact insertSpaceBefore_turns rfl

/-- Whatever spacing stands before a brace is replaced by one space. -/
theorem fixBefore_turns (hwithin : site.Within Entry.isSpace view.entries pre post)
    (hnext : site.next = some brace) {finding : Finding} (htoken : finding.token = some brace.id) :
    (fixBefore finding).Turns view ()
      ⟨pre ++ site.head :: ([spaceBefore view.size brace] ++ post), view.size + 1⟩ := by
  obtain ⟨rest, rfl, hbrace⟩ := hwithin.split_next hnext
  have hsplit : view.entries = ((pre ++ [site.head]) ++ site.gap) ++ brace :: rest := by
    rw [hbrace]
    simp
  have hhead : ∀ e ∈ (pre ++ [site.head]).getLast?, e.isSpace = false := by
    rw [List.getLast?_concat]
    rintro _ ⟨⟩
    exact hwithin.head
  have hturns := fixBefore_turns_of_split hsplit hwithin.gap hhead htoken
  rw [List.append_assoc] at hturns
  exact hturns

/-- **The rule on the space before a brace** is the gap rule. -/
theorem before_implements : beforeRule.Implements beforeGap where
  name_eq := rfl
  anchored := by
    intro site pre post xs _ hsettled
    obtain ⟨⟨brace, hbrace, -⟩, -⟩ :=
      wantsSpaceBefore_iff.1 (GapRule.applies_of_not_settled hsettled)
    exact Option.isSome_iff_exists.2 ⟨brace, hbrace⟩
  check_reads := checkBefore_reads
  fix_turns := by
    refine ⟨fixBefore, rfl, ?_⟩
    intro view site pre post finding hwithin hfinding
    obtain ⟨hsettled, brace, hbrace, rfl⟩ := GapRule.not_settled_of_finding hfinding
    refine ⟨[spaceBefore view.size brace], view.size + 1, ?_, ?_,
      fixBefore_turns hwithin hbrace rfl⟩
    · exact (GapRule.single_regap hsettled).symm
    · exact List.forall_mem_singleton.2 rfl

/-! ## After the brace -/

/-- The gap after a brace: something in it unless a bracket or brace comes next or nothing does,
one space where there is white space, and one line end where there are several. -/
def blockGap (next : Option Piece) : List Piece → List Piece
  | [] => if next.any fun piece => !afterExempt piece.kind then oneSpace else []
  | first :: rest =>
    match first.kind with
    | .whitespace => .singleSpace :: rest
    | .newline => first :: rest.dropWhile fun piece => piece.kind == .newline
    | _ => .singleSpace :: first :: rest

/-- The gap of a site, as the rule on what follows a brace wants it. -/
def regapAfter (site : Site Piece) : List Piece :=
  if site.head.kind = .leftBrace then blockGap site.next site.gap else site.gap

/-- A gap after a brace is reported at its beginning, or at its second line end. -/
def afterAnchor (site : Site Entry) : Option Entry :=
  match site.gap with
  | [] => site.next
  | first :: rest => if first.kind = .newline then rest.head? else some first

/-- The rule on what follows a brace. -/
def afterGap : GapRule := ⟨afterName, afterMessage, regapAfter, afterAnchor⟩

section After

variable {before next : Option Entry} {head first : Entry} {rest : List Entry}

theorem afterGap_settled_of_kind_ne (h : site.head.kind ≠ .leftBrace) :
    afterGap.Settled site.pieces := if_neg h

theorem kind_of_not_settled (h : ¬afterGap.Settled site.pieces) : site.head.kind = .leftBrace := by
  by_contra hkind
  exact h (afterGap_settled_of_kind_ne hkind)

theorem afterGap_settled_iff (h : site.head.kind = .leftBrace) :
    afterGap.Settled site.pieces ↔
      blockGap (site.next.map Entry.piece) (site.gap.map Entry.piece) =
        site.gap.map Entry.piece := by
  show regapAfter site.pieces = _ ↔ _
  rw [regapAfter, if_pos (show site.pieces.head.kind = .leftBrace from h)]
  rfl

theorem blockGap_nil_iff :
    blockGap (next.map Entry.piece) [] = [] ↔
      ∀ following ∈ next, afterExempt following.kind = true := by
  unfold blockGap
  cases next with
  | none => simp
  | some following =>
      show (if (!afterExempt following.kind) = true then oneSpace else []) = [] ↔ _
      cases hexempt : afterExempt following.kind with
      | true => simp [hexempt]
      | false => simp [hexempt, oneSpace]

theorem blockGap_whitespace (hfirst : first.kind = .whitespace) (following : Option Piece) :
    blockGap following ((first :: rest).map Entry.piece) =
      .singleSpace :: rest.map Entry.piece := by
  simp only [List.map_cons, blockGap, show first.piece.kind = .whitespace from hfirst]

theorem blockGap_newline (hfirst : first.kind = .newline) (following : Option Piece) :
    blockGap following ((first :: rest).map Entry.piece) =
      first.piece :: (rest.dropWhile fun entry => entry.kind == .newline).map Entry.piece := by
  simp only [List.map_cons, blockGap, show first.piece.kind = .newline from hfirst]
  rw [List.dropWhile_map]
  rfl

theorem blockGap_indent (hfirst : first.kind = .indent) (following : Option Piece) :
    blockGap following ((first :: rest).map Entry.piece) =
      .singleSpace :: (first :: rest).map Entry.piece := by
  simp only [List.map_cons, blockGap, show first.piece.kind = .indent from hfirst]

/-- Line ends are dropped exactly when there is a second one. -/
theorem blockGap_newline_iff (hfirst : first.kind = .newline) (following : Option Piece) :
    blockGap following ((first :: rest).map Entry.piece) = (first :: rest).map Entry.piece ↔
      ∀ second ∈ rest.head?, second.kind ≠ .newline := by
  rw [blockGap_newline hfirst, List.map_cons, List.cons.injEq, and_iff_right rfl]
  cases rest with
  | nil => simp
  | cons second others =>
      by_cases hsecond : second.kind = .newline
      · have hshort : (others.dropWhile fun e => e.kind == .newline).length ≤ others.length :=
          (List.dropWhile_suffix _).length_le
        rw [List.dropWhile_cons, if_pos (beq_iff_eq.2 hsecond)]
        constructor
        · intro heq
          have hlength := congrArg List.length heq
          simp only [List.length_map, List.length_cons] at hlength
          omega
        · intro hne
          exact absurd hsecond (hne second rfl)
      · rw [List.dropWhile_cons, if_neg (by simpa using hsecond)]
        simpa using hsecond

theorem afterExempt_of_isSpace {kind : Kind} (h : kind.isSpace = true) :
    afterExempt kind = false := by
  rcases (Kind.isSpace_iff kind).1 h with rfl | rfl | rfl <;> rfl

/-- Where nothing stands after the brace the check asks what comes next. -/
theorem checkAfterAt_reads_nil
    (hwithin : Site.Within Entry.isSpace ⟨before, head, [], next⟩ view.entries pre post)
    (hkind : head.kind = .leftBrace) :
    (checkAfterAt head.id).Reads view (afterGap.finding ⟨before, head, [], next⟩) := by
  have hnext := next_reads hwithin.split
  simp only [List.nil_append, hwithin.next_eq] at hnext
  have hsettled : afterGap.Settled (Site.pieces ⟨before, head, [], next⟩) ↔
      ∀ following ∈ next, afterExempt following.kind = true :=
    (afterGap_settled_iff hkind).trans blockGap_nil_iff
  unfold checkAfterAt
  refine hnext.bind ?_
  cases hfollowing : next with
  | none =>
      subst hfollowing
      rw [GapRule.finding_eq_none_of_settled (hsettled.2 (by simp))]
      exact Turns.pure none
  | some following =>
      subst hfollowing
      have hcode : following.isSpace = false := hwithin.next following rfl
      obtain ⟨others, rfl⟩ := List.head?_eq_some_iff.1 hwithin.next_eq
      have hmem : following ∈ view.entries := by
        rw [hwithin.split]
        simp
      have hnotSpace : following.piece ≠ .singleSpace := by
        intro hpiece
        rw [Entry.isSpace, hpiece] at hcode
        cases hcode
      refine (isSingleSpace_reads hmem).bind ?_
      rw [decide_eq_false hnotSpace]
      show Turns (token following.id >>= _) _ _ _
      refine Turns.token_bind hmem fun token hpiece _ => ?_
      rw [show token.kind = following.kind from congrArg Piece.kind hpiece]
      dsimp only
      cases hexempt : afterExempt following.kind with
      | true =>
          rw [GapRule.finding_eq_none_of_settled (hsettled.2 (by simpa using hexempt)),
            if_pos rfl]
          exact Turns.pure none
      | false =>
          have hnotLine : following.kind ≠ .newline := Entry.kind_ne hcode rfl
          have hfinding := GapRule.finding_of_not_settled
            (fun h => by simp [hsettled.1 h following rfl] at hexempt)
            (show afterGap.anchor ⟨before, head, [], some following⟩ = some following from rfl)
          rw [hfinding, if_neg Bool.false_ne_true, if_neg hnotLine]
          exact (findingAt_reads hmem _ _ _).bind (Turns.pure _)

/-- A second line end is what is reported. -/
theorem afterGap_finding_of_second (hkind : head.kind = .leftBrace)
    (hfirst : first.kind = .newline) {second : Entry} (hrest : rest.head? = some second)
    (hsecond : second.kind = .newline) :
    afterGap.finding ⟨before, head, first :: rest, next⟩ =
      some ⟨afterName, .error, afterMessage, second.position, some second.id⟩ := by
  have hanchor : afterGap.anchor ⟨before, head, first :: rest, next⟩ = some second :=
    (if_pos hfirst).trans hrest
  refine GapRule.finding_of_not_settled (fun hsettled => ?_) hanchor
  exact (blockGap_newline_iff hfirst _).1 ((afterGap_settled_iff hkind).1 hsettled) second hrest
    hsecond

/-- A line end that no other one follows is not reported. -/
theorem afterGap_finding_of_line (hkind : head.kind = .leftBrace) (hfirst : first.kind = .newline)
    (hrest : ∀ second ∈ rest.head?, second.kind ≠ .newline) :
    afterGap.finding ⟨before, head, first :: rest, next⟩ = none :=
  GapRule.finding_eq_none_of_settled
    ((afterGap_settled_iff hkind).2 ((blockGap_newline_iff hfirst _).2 hrest))

theorem afterGap_settled_of_single (hkind : head.kind = .leftBrace)
    (hsingle : first.piece = .singleSpace) :
    afterGap.Settled (Site.pieces ⟨before, head, first :: rest, next⟩) := by
  rw [afterGap_settled_iff hkind]
  show blockGap _ ((first :: rest).map Entry.piece) = _
  rw [blockGap_whitespace (congrArg Piece.kind hsingle), ← hsingle]
  rfl

/-- Blanks other than a single space are reported. -/
theorem afterGap_finding_of_blanks (hkind : head.kind = .leftBrace)
    (hspace : first.kind.isSpace = true) (hsingle : first.piece ≠ .singleSpace)
    (hfirst : first.kind ≠ .newline) :
    afterGap.finding ⟨before, head, first :: rest, next⟩ =
      some ⟨afterName, .error, afterMessage, first.position, some first.id⟩ := by
  have hanchor : afterGap.anchor ⟨before, head, first :: rest, next⟩ = some first := if_neg hfirst
  refine GapRule.finding_of_not_settled (fun hsettled => ?_) hanchor
  have heq : blockGap (next.map Entry.piece) ((first :: rest).map Entry.piece) =
      (first :: rest).map Entry.piece := (afterGap_settled_iff hkind).1 hsettled
  rcases (Kind.isSpace_iff first.kind).1 hspace with hwhite | hindent | hline
  · rw [blockGap_whitespace hwhite] at heq
    exact hsingle (List.cons.inj heq).1.symm
  · rw [blockGap_indent hindent] at heq
    have hlength := congrArg List.length heq
    simp at hlength
  · exact hfirst hline

/-- Where a line end stands after the brace the check asks for a second one. -/
theorem checkAfterAt_reads_line
    (hwithin : Site.Within Entry.isSpace ⟨before, head, first :: rest, next⟩ view.entries pre
      post)
    (hkind : head.kind = .leftBrace) (hline : first.kind = .newline) :
    (checkAfterAt head.id).Reads view (afterGap.finding ⟨before, head, first :: rest, next⟩) := by
  have hfirst : view.entries = (pre ++ [head]) ++ first :: (rest ++ post) := by
    rw [hwithin.split]
    simp
  have hmem := mem_of_split hfirst
  have hnotSpace : first.piece ≠ .singleSpace := by
    intro hpiece
    rw [Entry.kind, hpiece] at hline
    cases hline
  unfold checkAfterAt
  refine (next_reads hwithin.split).bind ((isSingleSpace_reads hmem).bind ?_)
  rw [if_neg (by simpa using hnotSpace)]
  refine Turns.token_bind hmem fun token hpiece _ => ?_
  rw [show token.kind = .newline from (congrArg Piece.kind hpiece).trans hline]
  show Turns (Edit.next first.id >>= _) _ _ _
  refine (next_reads hfirst).bind ?_
  cases hsecond : (rest ++ post).head? with
  | none =>
      have hrest := (List.append_eq_nil_iff.1 (List.head?_eq_none_iff.1 hsecond)).1
      rw [afterGap_finding_of_line hkind hline (by simp [hrest])]
      exact Turns.pure none
  | some second =>
      obtain ⟨others, hothers⟩ := List.head?_eq_some_iff.1 hsecond
      have hmem' : second ∈ view.entries := by
        rw [hfirst, hothers]
        simp
      refine Turns.token_bind hmem' fun token hpiece _ => ?_
      rw [show token.kind = second.kind from congrArg Piece.kind hpiece]
      by_cases hline' : second.kind = .newline
      · -- a line end is an element of the gap, not the head after it
        have hrest : rest.head? = some second := by
          cases rest with
          | nil =>
              have hcode := hwithin.next second (hwithin.next_eq.symm.trans hsecond)
              exact absurd hline' (Entry.kind_ne hcode rfl)
          | cons a others => exact hsecond
        rw [if_pos hline', afterGap_finding_of_second hkind hline hrest hline']
        exact (findingAt_reads hmem' _ _ _).bind (Turns.pure _)
      · have hrest : ∀ other ∈ rest.head?, other.kind ≠ .newline := by
          intro other hother
          rw [List.head?_append, Option.mem_def.1 hother] at hsecond
          obtain rfl : other = second := by simpa using hsecond
          exact hline'
        rw [if_neg hline', afterGap_finding_of_line hkind hline hrest]
        exact Turns.pure none

/-- Where blanks stand after the brace the check asks whether they are a single space. -/
theorem checkAfterAt_reads_blanks
    (hwithin : Site.Within Entry.isSpace ⟨before, head, first :: rest, next⟩ view.entries pre
      post)
    (hkind : head.kind = .leftBrace) (hline : first.kind ≠ .newline) :
    (checkAfterAt head.id).Reads view (afterGap.finding ⟨before, head, first :: rest, next⟩) := by
  have hspace : first.kind.isSpace = true := hwithin.gap first List.mem_cons_self
  have hmem : first ∈ view.entries := by
    rw [hwithin.split]
    simp
  unfold checkAfterAt
  refine (next_reads hwithin.split).bind ((isSingleSpace_reads hmem).bind ?_)
  by_cases hsingle : first.piece = .singleSpace
  · rw [if_pos (decide_eq_true hsingle),
      GapRule.finding_eq_none_of_settled (afterGap_settled_of_single hkind hsingle)]
    exact Turns.pure none
  · rw [if_neg (by simpa using hsingle)]
    refine Turns.token_bind hmem fun token hpiece _ => ?_
    rw [show token.kind = first.kind from congrArg Piece.kind hpiece]
    dsimp only
    rw [afterExempt_of_isSpace hspace, if_neg Bool.false_ne_true, if_neg hline,
      afterGap_finding_of_blanks hkind hspace hsingle hline]
    exact (findingAt_reads hmem _ _ _).bind (Turns.pure _)

theorem checkAfterAt_reads (hwithin : site.Within Entry.isSpace view.entries pre post)
    (hkind : site.head.kind = .leftBrace) :
    (checkAfterAt site.head.id).Reads view (afterGap.finding site) := by
  obtain ⟨before, head, gap, next⟩ := site
  cases gap with
  | nil => exact checkAfterAt_reads_nil hwithin hkind
  | cons first rest =>
      by_cases hline : first.kind = .newline
      · exact checkAfterAt_reads_line hwithin hkind hline
      · exact checkAfterAt_reads_blanks hwithin hkind hline

/-- The check on what follows braces goes through the gaps that a brace opens. -/
theorem checkAfter_reads (view : View) :
    checkAfter.Reads view (view.sites.filterMap afterGap.finding) := by
  unfold checkAfter
  refine (View.ofKinds_sites (by decide)).bind (collect_reads ?_ ?_)
  · intro site hsite t ht
    obtain ⟨pre, post, hwithin⟩ := View.exists_within hsite
    obtain ⟨hkind, ht'⟩ := Option.ite_none_right_eq_some.1 ht
    cases ht'
    exact checkAfterAt_reads hwithin (by simpa using hkind)
  · intro site _ hnone
    refine GapRule.finding_eq_none_of_settled (afterGap_settled_of_kind_ne fun hkind => ?_)
    simp [hkind] at hnone

/-! ### The repair -/

/-- The line ends at the beginning of what is left are taken out. -/
theorem removeNewlines_turns {gap : List Entry} {fuel : Nat} {entries : List Entry} {size : Nat}
    (h : entries = pre ++ (gap ++ post)) (hpost : ∀ entry ∈ post.head?, entry.kind ≠ .newline)
    (hfuel : gap.length ≤ fuel) :
    (removeNewlines fuel ((gap ++ post).head?.map Entry.id)).Turns ⟨entries, size⟩ ()
      ⟨pre ++ ((gap.dropWhile fun e => e.kind == .newline) ++ post), size⟩ := by
  subst h
  induction gap generalizing fuel with
  | nil =>
      cases post with
      | nil =>
          unfold removeNewlines
          exact Turns.pure ()
      | cons stop others =>
          have hmem : stop ∈ (View.mk (pre ++ ([] ++ stop :: others)) size).entries := by simp
          show (removeNewlines fuel (some stop.id)).Turns _ _ _
          unfold removeNewlines
          refine Turns.token_bind hmem fun token hpiece _ => ?_
          rw [show token.kind = stop.kind from congrArg Piece.kind hpiece,
            if_neg (hpost stop rfl)]
          exact Turns.pure ()
  | cons entry rest ih =>
      obtain _ | fuel := fuel
      · simp at hfuel
      · have hsplit : (View.mk (pre ++ (entry :: rest ++ post)) size).entries =
            pre ++ entry :: (rest ++ post) := rfl
        show (removeNewlines (fuel + 1) (some entry.id)).Turns _ _ _
        unfold removeNewlines
        refine Turns.token_bind (mem_of_split hsplit) fun token hpiece _ => ?_
        rw [show token.kind = entry.kind from congrArg Piece.kind hpiece, List.dropWhile_cons]
        by_cases hline : entry.kind = .newline
        · rw [if_pos hline, if_pos (beq_iff_eq.2 hline)]
          refine (next_reads hsplit).bind ((remove_turns hsplit).bind ?_)
          exact ih (Nat.le_of_succ_le_succ hfuel)
        · rw [if_neg hline, if_neg (by simpa using hline)]
          exact Turns.pure ()

theorem fixAfter_whitespace {entry : Entry} (hsplit : view.entries = pre ++ entry :: post)
    (hkind : entry.kind = .whitespace) {finding : Finding}
    (htoken : finding.token = some entry.id) :
    (fixAfter finding).Turns view ()
      ⟨pre ++ ⟨entry.id, .singleSpace, entry.position⟩ :: post, view.size⟩ := by
  unfold fixAfter anchor
  rw [htoken]
  refine (Turns.pure entry.id).bind (Turns.token_bind (mem_of_split hsplit) ?_)
  intro token hpiece _
  rw [show token.kind = .whitespace from (congrArg Piece.kind hpiece).trans hkind]
  have hset := setValue_turns hsplit " "
  rw [hkind] at hset
  exact hset

theorem fixAfter_newline {entry : Entry} (hsplit : view.entries = pre ++ (rest ++ post))
    (hhead : rest.head? = some entry) (hkind : entry.kind = .newline)
    (hpost : ∀ e ∈ post.head?, e.kind ≠ .newline) {finding : Finding}
    (htoken : finding.token = some entry.id) :
    (fixAfter finding).Turns view ()
      ⟨pre ++ ((rest.dropWhile fun e => e.kind == .newline) ++ post), view.size⟩ := by
  have hfirst : (rest ++ post).head? = some entry := by
    rw [List.head?_append, hhead]
    rfl
  have hmem : entry ∈ view.entries := by
    rw [hsplit]
    exact List.mem_append_right _ (List.mem_of_mem_head? hfirst)
  unfold fixAfter anchor
  rw [htoken]
  refine (Turns.pure entry.id).bind (Turns.token_bind hmem ?_)
  intro token hpiece _
  rw [show token.kind = .newline from (congrArg Piece.kind hpiece).trans hkind]
  refine Turns.get_bind fun draft hsize => ?_
  have hfuel : rest.length ≤ draft.stream.size + 1 := by
    rw [hsize, hsplit, List.length_append, List.length_append]
    omega
  have hremove : (removeNewlines (draft.stream.size + 1)
      ((rest ++ post).head?.map Entry.id)).Turns view () _ :=
    removeNewlines_turns hsplit hpost hfuel
  rw [hfirst] at hremove
  exact hremove

theorem fixAfter_other {entry : Entry} (hsplit : view.entries = pre ++ entry :: post)
    (hwhite : entry.kind ≠ .whitespace) (hline : entry.kind ≠ .newline) {finding : Finding}
    (htoken : finding.token = some entry.id) :
    (fixAfter finding).Turns view ()
      ⟨pre ++ spaceBefore view.size entry :: entry :: post, view.size + 1⟩ := by
  unfold fixAfter anchor
  rw [htoken]
  refine (Turns.pure entry.id).bind (Turns.token_bind (mem_of_split hsplit) ?_)
  intro token hpiece _
  rw [show token.kind = entry.kind from congrArg Piece.kind hpiece]
  split
  · exact absurd ‹_› hwhite
  · exact absurd ‹_› hline
  · exact insertSpaceBefore_turns hsplit

/-- The repair where nothing stands after the brace. -/
theorem fixAfter_turns_nil
    (hwithin : Site.Within Entry.isSpace ⟨before, head, [], next⟩ view.entries pre post)
    {entry : Entry} (hnext : next = some entry) {finding : Finding}
    (htoken : finding.token = some entry.id) :
    (fixAfter finding).Turns view ()
      ⟨pre ++ head :: ([spaceBefore view.size entry] ++ post), view.size + 1⟩ := by
  obtain ⟨rest, rfl⟩ := List.head?_eq_some_iff.1 (hwithin.next_eq.trans hnext)
  have hcode : entry.isSpace = false := hwithin.next entry hnext
  have hsplit : view.entries = (pre ++ [head]) ++ entry :: rest := by
    rw [hwithin.split]
    simp
  have hturns := fixAfter_other hsplit (Entry.kind_ne hcode rfl) (Entry.kind_ne hcode rfl) htoken
  rw [List.append_assoc] at hturns
  exact hturns

/-- The repair where spacing stands after the brace. -/
theorem fixAfter_turns_cons
    (hwithin : Site.Within Entry.isSpace ⟨before, head, first :: rest, next⟩ view.entries pre
      post)
    (hsettled : blockGap (next.map Entry.piece) ((first :: rest).map Entry.piece) ≠
      (first :: rest).map Entry.piece)
    {entry : Entry} (hanchor : afterAnchor ⟨before, head, first :: rest, next⟩ = some entry)
    {finding : Finding} (htoken : finding.token = some entry.id) :
    ∃ gap size, gap.map Entry.piece =
        blockGap (next.map Entry.piece) ((first :: rest).map Entry.piece) ∧
      (∀ e ∈ gap, e.isSpace = true) ∧
      (fixAfter finding).Turns view () ⟨pre ++ head :: (gap ++ post), size⟩ := by
  have hspace : first.kind.isSpace = true := hwithin.gap first List.mem_cons_self
  have hrest : ∀ e ∈ rest, e.isSpace = true := fun e he =>
    hwithin.gap e (List.mem_cons_of_mem _ he)
  have hsplit : view.entries = (pre ++ [head]) ++ first :: (rest ++ post) := by
    rw [hwithin.split]
    simp
  have hentry : (if first.kind = .newline then rest.head? else some first) = some entry := hanchor
  rcases (Kind.isSpace_iff first.kind).1 hspace with hkind | hkind | hkind
  · rw [hkind, if_neg (by decide)] at hentry
    obtain rfl := Option.some.inj hentry
    have hturns := fixAfter_whitespace hsplit hkind htoken
    rw [List.append_assoc] at hturns
    refine ⟨⟨first.id, .singleSpace, first.position⟩ :: rest, view.size, ?_, ?_, hturns⟩
    · rw [blockGap_whitespace hkind]
      rfl
    · exact List.forall_mem_cons.2 ⟨rfl, hrest⟩
  · rw [hkind, if_neg (by decide)] at hentry
    obtain rfl := Option.some.inj hentry
    have hturns := fixAfter_other hsplit (by rw [hkind]; decide) (by rw [hkind]; decide) htoken
    rw [List.append_assoc] at hturns
    refine ⟨spaceBefore view.size first :: first :: rest, view.size + 1, ?_, ?_, hturns⟩
    · rw [blockGap_indent hkind]
      rfl
    · exact List.forall_mem_cons.2 ⟨rfl, List.forall_mem_cons.2 ⟨hspace, hrest⟩⟩
  · rw [if_pos hkind] at hentry
    -- the second line end was reported; the repair goes on from there
    have hsecond : entry.kind = .newline := by
      by_contra hne
      refine hsettled ((blockGap_newline_iff hkind _).2 fun second hmem => ?_)
      obtain rfl : entry = second := Option.some.inj (hentry.symm.trans hmem)
      exact hne
    have hpost : ∀ e ∈ post.head?, e.kind ≠ .newline := fun e he =>
      Entry.kind_ne (hwithin.next e (hwithin.next_eq ▸ he)) rfl
    have hsplit' : view.entries = (pre ++ [head, first]) ++ (rest ++ post) := by
      rw [hsplit]
      simp
    have hturns := fixAfter_newline hsplit' hentry hsecond hpost htoken
    rw [List.append_assoc] at hturns
    refine ⟨first :: rest.dropWhile fun e => e.kind == .newline, view.size, ?_, ?_, hturns⟩
    · rw [blockGap_newline hkind]
      rfl
    · refine List.forall_mem_cons.2 ⟨hspace, fun e he => hrest e ?_⟩
      exact (List.dropWhile_sublist _).subset he

/-- A gap that is not as it should be has a place at which it is reported. -/
theorem isSome_afterAnchor (h : ¬afterGap.Settled site.pieces) :
    (afterAnchor site).isSome = true := by
  rw [afterGap_settled_iff (kind_of_not_settled h)] at h
  obtain ⟨before, head, gap, next⟩ := site
  cases gap with
  | nil =>
      cases next with
      | none => exact absurd (blockGap_nil_iff.2 (by simp)) h
      | some following => rfl
  | cons first rest =>
      show (if first.kind = .newline then rest.head? else some first).isSome = true
      split
      · rename_i hline
        by_contra hnone
        rw [Bool.not_eq_true, Option.isSome_eq_false_iff, Option.isNone_iff_eq_none] at hnone
        exact h ((blockGap_newline_iff hline _).2 (by simp [hnone]))
      · rfl

/-- **The rule on what follows a brace** is the gap rule. -/
theorem after_implements : afterRule.Implements afterGap where
  name_eq := rfl
  anchored := fun _ _ _ _ _ hsettled => isSome_afterAnchor hsettled
  check_reads := checkAfter_reads
  fix_turns := by
    refine ⟨fixAfter, rfl, ?_⟩
    intro view site pre post finding hwithin hfinding
    obtain ⟨hsettled, entry, hanchor, rfl⟩ := GapRule.not_settled_of_finding hfinding
    have hkind := kind_of_not_settled hsettled
    have hregap : afterGap.regap site.pieces =
        blockGap (site.next.map Entry.piece) (site.gap.map Entry.piece) := if_pos hkind
    rw [afterGap_settled_iff hkind] at hsettled
    rw [hregap]
    obtain ⟨before, head, gap, next⟩ := site
    cases gap with
    | nil =>
        refine ⟨[spaceBefore view.size entry], view.size + 1, ?_, List.forall_mem_singleton.2 rfl,
          fixAfter_turns_nil hwithin hanchor rfl⟩
        by_contra hnot
        refine hsettled ((if_neg fun hany => hnot ?_))
        exact (if_pos hany).symm
    | cons first rest => exact fixAfter_turns_cons hwithin hsettled hanchor rfl

end After

end ManifestLint.OpeningBrace
