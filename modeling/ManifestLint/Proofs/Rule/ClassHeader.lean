import ManifestLint.Proofs.Rule.Gap
import ManifestLint.Rule.ClassHeader

set_option autoImplicit false

/-! # The rules on class headers, gap by gap

A header is a keyword head whose next head is a name. The rule on the space before the name is
about the gap of the keyword, the rule on the space after the name about the gap of the name. Both
want one space there, and both repair it in the same way. -/

namespace ManifestLint.ClassHeader

open Edit

variable {view : View} {site : Site Entry} {pre post : List Entry} {right : Entry}

/-! ## Collapsing a gap -/

/-- Two neighbouring heads are one space apart when their gap is one space. -/
theorem singleSpaced_reads (hwithin : site.Within Entry.isSpace view.entries pre post)
    (hnext : site.next = some right) :
    (singleSpaced site.head.id right.id).Reads view
      (decide (site.gap.map Entry.piece = oneSpace)) := by
  obtain ⟨rest, rfl, hright⟩ := hwithin.split_next hnext
  have hhead := hwithin.split
  obtain ⟨between, hbetween⟩ : ∃ between, (site.gap ++ right :: rest).head? = some between :=
    Option.isSome_iff_exists.1 (by simp)
  have hmem : between ∈ view.entries := by
    rw [hhead]
    exact List.mem_append_right _ (List.mem_cons_of_mem _ (List.mem_of_mem_head? hbetween))
  have hstep := next_reads hhead
  rw [hbetween] at hstep
  unfold singleSpaced
  refine hstep.bind ((index_reads hright).bind ((index_reads hhead).bind ?_))
  split
  · rename_i hlength
    -- between positions that are two apart there is one entry, and it comes after the first
    rw [List.length_append, List.length_cons] at hlength
    obtain ⟨entry, hgap⟩ := List.length_eq_one_iff.1 (show site.gap.length = 1 by omega)
    have hentry : entry = between := by simpa [hgap] using hbetween
    subst hentry
    have hread := isSingleSpace_reads hmem
    rw [hgap, List.map_singleton, oneSpace]
    simpa using hread
  · rename_i hlength
    have hne : site.gap.map Entry.piece ≠ oneSpace := by
      intro hgap
      have hone := congrArg List.length hgap
      rw [List.length_map] at hone
      rw [List.length_append, List.length_cons, hone] at hlength
      exact hlength rfl
    rw [decide_eq_false hne]
    exact Turns.pure false

/-- The spacing between two tokens is replaced by one space. -/
theorem collapseBetween_turns_of_split {left : Entry} {gap rest : List Entry}
    (h : view.entries = pre ++ left :: (gap ++ right :: rest))
    (hgap : ∀ e ∈ gap, e.isSpace = true) :
    (collapseBetween left.id (some right.id)).Turns view ()
      ⟨(pre ++ [left]) ++ spaceBefore view.size right :: right :: rest, view.size + 1⟩ := by
  have hsplit : view.entries = (pre ++ [left]) ++ (gap ++ right :: rest) := by
    rw [h]
    simp
  unfold collapseBetween
  refine Turns.get_bind fun draft hsize => ?_
  refine (next_reads h).bind ?_
  have hfuel : gap.length ≤ draft.stream.size + 1 := by
    rw [hsize, h, List.length_append, List.length_cons, List.length_append]
    omega
  have hspaces := (follows_next view).spacesUntil_reads .unexpectedInHeader hsplit hgap hfuel
  refine hspaces.bind ((removeAll_turns hsplit (.refl _)).bind ?_)
  exact insertSpaceBefore_turns rfl

/-- Where only spacing stands after a token, it is taken out, and then the token before which the
space should go is missing. -/
theorem collapseBetween_fails {left : Entry} {gap : List Entry}
    (h : view.entries = pre ++ left :: gap) (hgap : ∀ e ∈ gap, e.isSpace = true) :
    (collapseBetween left.id none).Fails view .noToken ⟨pre ++ [left], view.size⟩ := by
  have hsplit : view.entries = (pre ++ [left]) ++ (gap ++ []) := by
    rw [h]
    simp
  have hnext := next_reads h
  rw [← List.append_nil gap] at hnext
  unfold collapseBetween
  refine Fails.get_bind fun draft hsize => hnext.bind_fails ?_
  have hfuel : gap.length ≤ draft.stream.size + 1 := by
    rw [hsize, h, List.length_append, List.length_cons]
    omega
  have hspaces := (follows_next view).spacesUntil_reads .unexpectedInHeader hsplit hgap hfuel
  have hremove := removeAll_turns hsplit (.refl _)
  rw [List.append_nil] at hremove
  exact hspaces.bind_fails (hremove.bind_fails (Fails.throw _))

/-- The gap between two neighbouring heads is replaced by one space. -/
theorem collapseBetween_turns (hwithin : site.Within Entry.isSpace view.entries pre post)
    (hnext : site.next = some right) :
    (collapseBetween site.head.id (some right.id)).Turns view ()
      ⟨pre ++ site.head :: ([spaceBefore view.size right] ++ post), view.size + 1⟩ := by
  obtain ⟨rest, rfl⟩ := List.head?_eq_some_iff.1 (hwithin.next_eq.trans hnext)
  have hturns := collapseBetween_turns_of_split hwithin.split hwithin.gap
  rw [List.append_assoc] at hturns
  exact hturns

/-! ## Headers -/

/-- Decides whether a kind is a keyword that begins a header. -/
abbrev isKeyword (kind : Kind) : Bool := headerKinds.contains kind

theorem isSpace_of_isKeyword {entry : Entry} (h : isKeyword entry.kind = true) :
    entry.isSpace = false := by
  have hkinds : ∀ kind ∈ headerKinds, kind.isSpace = false := by decide
  exact hkinds entry.kind (List.contains_iff_mem.1 h)

/-- A keyword and a name, as the checks refer to them. -/
def headerOf (keyword name : Entry) : Option (TokenId × TokenId) :=
  if isKeyword keyword.kind then
    if name.kind = .identifier then some (keyword.id, name.id) else none
  else none

theorem headerOf_eq_some_iff {keyword name : Entry} {header : TokenId × TokenId} :
    headerOf keyword name = some header ↔
      (isKeyword keyword.kind = true ∧ name.kind = .identifier) ∧
        (keyword.id, name.id) = header := by
  simp only [headerOf, Option.ite_none_right_eq_some, Option.some.injEq, and_assoc]

theorem headerAt_reads (hwithin : site.Within Entry.isSpace view.entries pre post)
    (hkeyword : isKeyword site.head.kind = true) :
    (headerAt site.head.id).Reads view (site.next.bind (headerOf site.head)) := by
  unfold headerAt
  refine (nextHead_reads hwithin).bind ?_
  cases hnext : site.next with
  | none => exact Turns.pure none
  | some name =>
      obtain ⟨rest, -, hsplit⟩ := hwithin.split_next hnext
      have hmem := mem_of_split hsplit
      refine Turns.token_bind hmem fun token hpiece _ => ?_
      rw [show token.kind = name.kind from congrArg Piece.kind hpiece]
      rw [Option.bind_some, headerOf, if_pos hkeyword]
      split
      · exact Turns.pure _
      · exact Turns.pure none

/-- The headers, read off the gaps of the keywords. -/
theorem headers_reads (view : View) :
    headers.Reads view
      (view.sites.filterMap fun site => site.next.bind (headerOf site.head)) := by
  unfold headers
  refine (View.ofKinds_sites (by decide)).bind (collect_reads ?_ ?_)
  · intro site hsite t ht
    obtain ⟨pre, post, hwithin⟩ := View.exists_within hsite
    obtain ⟨hkeyword, ht'⟩ := Option.ite_none_right_eq_some.1 ht
    cases ht'
    exact headerAt_reads hwithin hkeyword
  · intro site _ hnone
    have hkeyword : ¬isKeyword site.head.kind = true := by
      intro hkeyword
      rw [if_pos hkeyword] at hnone
      cases hnone
    refine Option.bind_eq_none_iff.2 fun name _ => ?_
    rw [headerOf, if_neg hkeyword]

/-- The headers, read off the gaps of the names. -/
theorem headers_reads_names (view : View) :
    headers.Reads view
      (view.sites.filterMap fun site =>
        site.before.bind fun keyword => headerOf keyword site.head) := by
  have hlinks := filterMap_before headerOf none view.layout.stretches
  rw [Option.bind_none, Option.toList_none, List.nil_append] at hlinks
  have hread := headers_reads view
  unfold View.sites Layout.sites at hread ⊢
  rw [hlinks]
  exact hread

/-! ## Before the name -/

/-- Decides whether the gap stands between a header keyword and its name. -/
def wantsSpaceBeforeName (site : Site Piece) : Bool :=
  isKeyword site.head.kind && site.next.any fun piece => piece.kind == .identifier

/-- The rule on the space before the name. -/
def nameBeforeGap : GapRule :=
  .single nameBefore nameBeforeMessage wantsSpaceBeforeName fun site => site.gap.head?.or site.next

theorem wantsSpaceBeforeName_iff :
    wantsSpaceBeforeName site.pieces = true ↔
      isKeyword site.head.kind = true ∧ ∃ name ∈ site.next, name.kind = .identifier := by
  simp [wantsSpaceBeforeName, Site.pieces, Site.map, Option.any_eq_true, Entry.kind]

theorem head?_gap_append {entries : List Entry}
    (hwithin : site.Within Entry.isSpace entries pre post) :
    (site.gap ++ post).head? = site.gap.head?.or site.next := by
  rw [List.head?_append, hwithin.next_eq]

theorem checkNameBeforeAt_reads (hwithin : site.Within Entry.isSpace view.entries pre post)
    {name : Entry} (hnext : site.next = some name) (hkeyword : isKeyword site.head.kind = true)
    (hname : name.kind = .identifier) :
    (checkNameBeforeAt (site.head.id, name.id)).Reads view (nameBeforeGap.finding site) := by
  have hsettled : nameBeforeGap.Settled site.pieces ↔ site.gap.map Entry.piece = oneSpace := by
    refine GapRule.single_settled_iff.trans (forall_prop_of_true ?_)
    exact wantsSpaceBeforeName_iff.2 ⟨hkeyword, name, hnext, hname⟩
  unfold checkNameBeforeAt
  refine (singleSpaced_reads hwithin hnext).bind ?_
  by_cases hgap : site.gap.map Entry.piece = oneSpace
  · rw [if_pos (decide_eq_true hgap), GapRule.finding_eq_none_of_settled (hsettled.2 hgap)]
    exact Turns.pure none
  · obtain ⟨first, hfirst⟩ : ∃ first, site.gap.head?.or site.next = some first := by
      rw [hnext]
      exact Option.isSome_iff_exists.1 (by simp)
    have hhead := (head?_gap_append hwithin).trans hfirst
    have hmem : first ∈ view.entries := by
      rw [hwithin.split]
      exact List.mem_append_right _ (List.mem_cons_of_mem _ (List.mem_of_mem_head? hhead))
    have hstep := next_reads hwithin.split
    rw [hhead] at hstep
    rw [if_neg (by simpa using hgap),
      GapRule.finding_of_not_settled (fun h => hgap (hsettled.1 h)) hfirst]
    exact hstep.bind ((findingAt_reads hmem _ _ _).bind (Turns.pure _))

/-- The check on the space before names goes through the gaps of the header keywords. -/
theorem checkNameBefore_reads (view : View) :
    checkNameBefore.Reads view (view.sites.filterMap nameBeforeGap.finding) := by
  unfold checkNameBefore
  refine (headers_reads view).bind (collect_reads ?_ ?_)
  · intro site hsite header hheader
    obtain ⟨pre, post, hwithin⟩ := View.exists_within hsite
    obtain ⟨name, hnext, hlink⟩ := Option.bind_eq_some_iff.1 hheader
    obtain ⟨⟨hkeyword, hname⟩, rfl⟩ := headerOf_eq_some_iff.1 hlink
    exact checkNameBeforeAt_reads hwithin hnext hkeyword hname
  · intro site _ hnone
    refine GapRule.finding_eq_none_of_settled (GapRule.single_settled_iff.2 fun happlies => ?_)
    obtain ⟨hkeyword, name, hnext, hname⟩ := wantsSpaceBeforeName_iff.1 happlies
    rw [Option.mem_def.1 hnext, Option.bind_some,
      headerOf_eq_some_iff.2 ⟨⟨hkeyword, hname⟩, rfl⟩] at hnone
    cases hnone

/-- The spacing between a keyword and the next token that is none is replaced by one space, when
the repair is asked for at whatever directly follows the keyword. -/
theorem fixNameBefore_turns_of_split {keyword : Entry} {gap rest : List Entry}
    (h : view.entries = pre ++ keyword :: (gap ++ right :: rest))
    (hkeyword : isKeyword keyword.kind = true) (hgap : ∀ e ∈ gap, e.isSpace = true)
    (hright : right.isSpace = false) {finding : Finding}
    (htoken : finding.token = (gap ++ right :: rest).head?.map Entry.id) :
    (fixNameBefore finding).Turns view ()
      ⟨(pre ++ [keyword]) ++ spaceBefore view.size right :: right :: rest, view.size + 1⟩ := by
  obtain ⟨first, others, hfirst⟩ := List.exists_cons_of_ne_nil
    (show gap ++ right :: rest ≠ [] by simp)
  have hsplit : view.entries = (pre ++ [keyword]) ++ first :: others := by
    rw [h, hfirst, List.append_assoc, List.singleton_append]
  have hprev := prev_reads hsplit
  rw [List.getLast?_concat] at hprev
  have hcode := nextNonSpace_reads h
  rw [List.find?_append, (find?_spaces hgap).1, Option.none_or,
    List.find?_cons_of_pos (by simp [hright])] at hcode
  rw [hfirst] at htoken
  unfold fixNameBefore anchor
  rw [htoken]
  refine (Turns.pure first.id).bind (hprev.bind ?_)
  refine Turns.token_bind (mem_of_split h) fun token hpiece _ => ?_
  rw [show token.kind = keyword.kind from congrArg Piece.kind hpiece, if_pos hkeyword]
  exact hcode.bind (collapseBetween_turns_of_split h hgap)

theorem fixNameBefore_turns (hwithin : site.Within Entry.isSpace view.entries pre post)
    (hkeyword : isKeyword site.head.kind = true) {name first : Entry}
    (hnext : site.next = some name) (hfirst : site.gap.head?.or site.next = some first)
    {finding : Finding} (htoken : finding.token = some first.id) :
    (fixNameBefore finding).Turns view ()
      ⟨pre ++ site.head :: ([spaceBefore view.size name] ++ post), view.size + 1⟩ := by
  have hhead := (head?_gap_append hwithin).trans hfirst
  obtain ⟨rest, rfl, -⟩ := hwithin.split_next hnext
  have hturns := fixNameBefore_turns_of_split hwithin.split hkeyword hwithin.gap
    (hwithin.next name hnext) (htoken.trans (congrArg (Option.map Entry.id) hhead).symm)
  rw [List.append_assoc] at hturns
  exact hturns

/-- **The rule on the space before a name** is the gap rule. -/
theorem nameBefore_implements : nameBeforeRule.Implements nameBeforeGap where
  name_eq := rfl
  anchored := by
    intro site pre post xs _ hsettled
    obtain ⟨-, name, hname, -⟩ :=
      wantsSpaceBeforeName_iff.1 (GapRule.applies_of_not_settled hsettled)
    show (site.gap.head?.or site.next).isSome = true
    rw [Option.mem_def.1 hname]
    simp
  check_reads := checkNameBefore_reads
  fix_turns := by
    refine ⟨fixNameBefore, rfl, ?_⟩
    intro view site pre post finding hwithin hfinding
    obtain ⟨hsettled, first, hfirst, rfl⟩ := GapRule.not_settled_of_finding hfinding
    obtain ⟨hkeyword, name, hname, -⟩ :=
      wantsSpaceBeforeName_iff.1 (GapRule.applies_of_not_settled hsettled)
    refine ⟨[spaceBefore view.size name], view.size + 1, ?_, List.forall_mem_singleton.2 rfl,
      fixNameBefore_turns hwithin hkeyword hname hfirst rfl⟩
    exact (GapRule.single_regap hsettled).symm

/-! ## After the name -/

/-- Decides whether the gap stands between the name of a header and the next item. -/
def wantsSpaceAfterName (site : Site Piece) : Bool :=
  site.head.kind == .identifier && (site.before.any fun piece => isKeyword piece.kind) &&
    site.next.isSome

/-- The rule on the space after the name. -/
def nameAfterGap : GapRule :=
  .single nameAfter nameAfterMessage wantsSpaceAfterName fun site => some site.head

theorem wantsSpaceAfterName_iff :
    wantsSpaceAfterName site.pieces = true ↔
      (site.head.kind = .identifier ∧ ∃ keyword ∈ site.before, isKeyword keyword.kind = true) ∧
        ∃ item, site.next = some item := by
  simp [wantsSpaceAfterName, Site.pieces, Site.map, Option.any_eq_true, Entry.kind,
    Option.isSome_iff_exists]

theorem checkNameAfterAt_reads (hwithin : site.Within Entry.isSpace view.entries pre post)
    {keyword : Entry} (hbefore : site.before = some keyword)
    (hkeyword : isKeyword keyword.kind = true) (hname : site.head.kind = .identifier) :
    (checkNameAfterAt (keyword.id, site.head.id)).Reads view (nameAfterGap.finding site) := by
  unfold checkNameAfterAt
  refine (nextHead_reads hwithin).bind ?_
  cases hnext : site.next with
  | none =>
      have hsettled : nameAfterGap.Settled site.pieces := by
        refine GapRule.single_settled_iff.2 fun happlies => ?_
        obtain ⟨-, item, hitem⟩ := wantsSpaceAfterName_iff.1 happlies
        rw [hnext] at hitem
        cases hitem
      rw [GapRule.finding_eq_none_of_settled hsettled]
      exact Turns.pure none
  | some item =>
      have hsettled : nameAfterGap.Settled site.pieces ↔ site.gap.map Entry.piece = oneSpace := by
        refine GapRule.single_settled_iff.trans (forall_prop_of_true ?_)
        exact wantsSpaceAfterName_iff.2 ⟨⟨hname, keyword, hbefore, hkeyword⟩, item, hnext⟩
      refine (singleSpaced_reads hwithin hnext).bind ?_
      by_cases hgap : site.gap.map Entry.piece = oneSpace
      · rw [if_pos (decide_eq_true hgap), GapRule.finding_eq_none_of_settled (hsettled.2 hgap)]
        exact Turns.pure none
      · rw [if_neg (by simpa using hgap),
          GapRule.finding_of_not_settled (fun h => hgap (hsettled.1 h)) rfl]
        exact (findingAt_reads (mem_of_split hwithin.split) _ _ _).bind (Turns.pure _)

/-- The check on the space after names goes through the gaps of the names in headers. -/
theorem checkNameAfter_reads (view : View) :
    checkNameAfter.Reads view (view.sites.filterMap nameAfterGap.finding) := by
  unfold checkNameAfter
  refine (headers_reads_names view).bind (collect_reads ?_ ?_)
  · intro site hsite header hheader
    obtain ⟨pre, post, hwithin⟩ := View.exists_within hsite
    obtain ⟨keyword, hbefore, hlink⟩ := Option.bind_eq_some_iff.1 hheader
    obtain ⟨⟨hkeyword, hname⟩, rfl⟩ := headerOf_eq_some_iff.1 hlink
    exact checkNameAfterAt_reads hwithin hbefore hkeyword hname
  · intro site _ hnone
    refine GapRule.finding_eq_none_of_settled (GapRule.single_settled_iff.2 fun happlies => ?_)
    obtain ⟨⟨hname, keyword, hbefore, hkeyword⟩, -⟩ := wantsSpaceAfterName_iff.1 happlies
    rw [Option.mem_def.1 hbefore, Option.bind_some,
      headerOf_eq_some_iff.2 ⟨⟨hkeyword, hname⟩, rfl⟩] at hnone
    cases hnone

theorem fixNameAfter_turns (hwithin : site.Within Entry.isSpace view.entries pre post)
    {item : Entry} (hnext : site.next = some item) {finding : Finding}
    (htoken : finding.token = some site.head.id) :
    (fixNameAfter finding).Turns view ()
      ⟨pre ++ site.head :: ([spaceBefore view.size item] ++ post), view.size + 1⟩ := by
  have hcode := nextHead_reads hwithin
  rw [hnext] at hcode
  unfold fixNameAfter anchor
  rw [htoken]
  exact (Turns.pure site.head.id).bind (hcode.bind (collapseBetween_turns hwithin hnext))

/-- **The rule on the space after a name** is the gap rule. -/
theorem nameAfter_implements : nameAfterRule.Implements nameAfterGap where
  name_eq := rfl
  anchored := fun _ _ _ _ _ _ => rfl
  check_reads := checkNameAfter_reads
  fix_turns := by
    refine ⟨fixNameAfter, rfl, ?_⟩
    intro view site pre post finding hwithin hfinding
    obtain ⟨hsettled, _, ⟨⟩, rfl⟩ := GapRule.not_settled_of_finding hfinding
    obtain ⟨-, item, hnext⟩ :=
      wantsSpaceAfterName_iff.1 (GapRule.applies_of_not_settled hsettled)
    refine ⟨[spaceBefore view.size item], view.size + 1, ?_, List.forall_mem_singleton.2 rfl,
      fixNameAfter_turns hwithin hnext rfl⟩
    exact (GapRule.single_regap hsettled).symm

end ManifestLint.ClassHeader
