import ManifestLint.Proofs.Lint.FixedText
import ManifestLint.Proofs.Lint.Overlap

set_option autoImplicit false

/-! # One repair, and all of them

A bundled repair of what its rule has found replaces one gap and leaves the others alone. The gap
is then one that every bundled rule is content with (`settled_regap`), so that the finding is gone,
no other finding of any rule is touched, and none has come (`repair_only_finding`).

Therefore the order of the repairs is of no importance. Whatever has been repaired already, a
finding that is left stands where it stood, and when all of them have been repaired each gap is
what the rule makes of it (`forM_fix_turns`, `repairs_in_any_order`). -/

namespace ManifestLint

open Edit OpeningBrace ClassHeader

/-! ## Gaps that have been repaired -/

section Settled

variable {spec other : GapRule} {site : Site Piece}

/-- What is made of a gap after a brace is left alone. -/
theorem blockGap_blockGap (next : Option Piece) (gap : List Piece) :
    blockGap next (blockGap next gap) = blockGap next gap := by
  cases gap with
  | nil =>
      by_cases hnext : (next.any fun piece => !afterExempt piece.kind) = true
      · rw [blockGap, if_pos hnext]
        rfl
      · rw [blockGap, if_neg hnext, blockGap, if_neg hnext]
  | cons first rest =>
      cases hkind : first.kind with
      | newline => simp only [blockGap, hkind, List.dropWhile_idempotent]
      | _ =>
          simp only [blockGap, hkind]
          rfl

/-- Away from opening braces every rule is content with one space. -/
theorem settled_oneSpace (hother : other ∈ bundledGapRules) (hhead : site.head.kind ≠ .leftBrace) :
    other.Settled (site.withGap oneSpace) := by
  rcases mem_bundledGapRules.1 hother with rfl | rfl | rfl | rfl
  · exact GapRule.single_settled_iff.2 fun _ => rfl
  · exact if_neg hhead
  · exact GapRule.single_settled_iff.2 fun _ => rfl
  · exact GapRule.single_settled_iff.2 fun _ => rfl

/-- After an opening brace every rule is content with what the rule on such gaps makes of them. -/
theorem settled_blockGap (hother : other ∈ bundledGapRules) (hhead : site.head.kind = .leftBrace) :
    other.Settled (site.withGap (blockGap site.next site.gap)) := by
  obtain ⟨hbefore, hnameBefore, hnameAfter⟩ := not_wants_of_leftBrace hhead
  have habsurd : ∀ {wants : Bool}, wants = false → wants = true →
      blockGap site.next site.gap = oneSpace := by
    rintro wants rfl ⟨⟩
  rcases mem_bundledGapRules.1 hother with rfl | rfl | rfl | rfl
  · exact GapRule.single_settled_iff.2 (habsurd hbefore)
  · exact (if_pos hhead).trans (blockGap_blockGap site.next site.gap)
  · exact GapRule.single_settled_iff.2 (habsurd hnameBefore)
  · exact GapRule.single_settled_iff.2 (habsurd hnameAfter)

/-- **A gap that one rule has repaired** is one that every rule is content with. -/
theorem settled_regap (hspec : spec ∈ bundledGapRules) (hother : other ∈ bundledGapRules)
    (h : ¬spec.Settled site) : other.Settled (site.withGap (spec.regap site)) := by
  by_cases hhead : site.head.kind = .leftBrace
  · -- no rule but the one on such gaps has a say here
    obtain ⟨hbefore, hnameBefore, hnameAfter⟩ := not_wants_of_leftBrace hhead
    rcases cases_of_not_settled hspec h with ⟨rfl, hwants⟩ | ⟨rfl, -⟩ | ⟨rfl, hwants⟩ |
      ⟨rfl, hwants⟩
    · simp [hbefore] at hwants
    · rw [show afterGap.regap site = blockGap site.next site.gap from if_pos hhead]
      exact settled_blockGap hother hhead
    · simp [hnameBefore] at hwants
    · simp [hnameAfter] at hwants
  · have hone : spec.regap site = oneSpace := by
      rcases cases_of_not_settled hspec h with ⟨rfl, -⟩ | ⟨rfl, hkind⟩ | ⟨rfl, -⟩ | ⟨rfl, -⟩
      · exact GapRule.single_regap h
      · exact absurd hkind hhead
      · exact GapRule.single_regap h
      · exact GapRule.single_regap h
    rw [hone]
    exact settled_oneSpace hother hhead

end Settled

/-! ## One repair -/

section Repair

variable {rule : Rule} {spec other : GapRule} {fix : Finding → Edit Unit} {view : View}
  {before after : List (Site Entry)} {site : Site Entry} {finding : Finding}

/-- The repair of a finding replaces the gap it was found at, and changes no other site. -/
theorem Rule.Implements.repair_turns (hrule : rule.Implements spec) (hfix : rule.fix = some fix)
    (hsites : view.sites = before ++ site :: after) (hfinding : spec.finding site = some finding) :
    ∃ view' gap, (fix finding).Turns view () view' ∧
      gap.map Entry.piece = spec.regap site.pieces ∧
      view'.layout.lead = view.layout.lead ∧
      view'.sites = before ++ site.withGap gap :: after := by
  obtain ⟨pre, post, hwithin, hregap⟩ := Layout.exists_within_append hsites
  obtain ⟨fix', hfix', hfixes⟩ := hrule.fix_turns
  obtain rfl : fix = fix' := Option.some.inj (hfix.symm.trans hfix')
  obtain ⟨gap, size, hgap, hspaces, hturns⟩ := hfixes view site pre post finding hwithin hfinding
  obtain ⟨hlead, hsites'⟩ := hregap gap hspaces
  exact ⟨_, gap, hturns, hgap, hlead, hsites'⟩

/-- At a gap that has been repaired no rule finds anything. -/
theorem finding_withGap (hspec : spec ∈ bundledGapRules) (hother : other ∈ bundledGapRules)
    (hfinding : spec.finding site = some finding) {gap : List Entry}
    (hgap : gap.map Entry.piece = spec.regap site.pieces) :
    other.finding (site.withGap gap) = none := by
  have hunsettled := (GapRule.not_settled_of_finding hfinding).1
  have hsettled := settled_regap hspec hother hunsettled
  rw [← hgap] at hsettled
  exact GapRule.finding_eq_none_of_settled hsettled

/-- What the rules find after a repair: what they found at the other gaps. -/
theorem filterMap_finding_withGap (hspec : spec ∈ bundledGapRules)
    (hother : other ∈ bundledGapRules) (hfinding : spec.finding site = some finding)
    {gap : List Entry} (hgap : gap.map Entry.piece = spec.regap site.pieces) :
    (before ++ site.withGap gap :: after).filterMap other.finding =
      before.filterMap other.finding ++ after.filterMap other.finding := by
  rw [List.filterMap_append, List.filterMap_cons_none (finding_withGap hspec hother hfinding hgap)]

end Repair

/-- The rule finds this in the stream. -/
def Rule.Reports (rule : Rule) (draft : Draft) (findings : List Finding) : Prop :=
  ∃ checked, rule.check.run draft = .ok findings checked

theorem Rule.Implements.reports {rule : Rule} {spec : GapRule} (hrule : rule.Implements spec)
    {draft : Draft} {view : View} (hdraft : draft.Shows view) :
    rule.Reports draft (view.sites.filterMap spec.finding) := by
  obtain ⟨checked, hrun, -⟩ := hrule.check_reads view draft hdraft
  exact ⟨checked, hrun⟩

/-- The place of a value among those that a function has for the elements of a list. -/
theorem exists_of_filterMap_eq {α β : Type} {f : α → Option β} {xs : List α} {front rest : List β}
    {b : β} (h : xs.filterMap f = front ++ b :: rest) :
    ∃ before a after, xs = before ++ a :: after ∧ f a = some b ∧
      before.filterMap f = front ∧ after.filterMap f = rest := by
  obtain ⟨before, others, rfl, hbefore, hothers⟩ := List.filterMap_eq_append_iff.1 h
  obtain ⟨skipped, a, after, rfl, hskipped, ha, hafter⟩ := List.filterMap_eq_cons_iff.1 hothers
  refine ⟨before ++ skipped, a, after, by simp, ha, ?_, hafter⟩
  rw [List.filterMap_append, List.filterMap_eq_nil_iff.2 hskipped, List.append_nil, hbefore]

/-- **A repair removes its own finding and nothing else.** In a stream that owns its tokens the
repair of any finding of a bundled rule succeeds; the rule then finds what it found before, without
that finding, at the same tokens and in the same order, and what another bundled rule finds is part
of what it found before. -/
theorem repair_only_finding {rule : Rule} (hrule : rule ∈ Registry.bundled.rules) {draft : Draft}
    (ho : draft.Owned) :
    ∃ fix findings checked, rule.fix = some fix ∧ rule.check.run draft = .ok findings checked ∧
      ∀ front finding rest, findings = front ++ finding :: rest →
        ∃ repaired, (fix finding).run checked = .ok () repaired ∧
          rule.Reports repaired (front ++ rest) ∧
          ∀ other ∈ Registry.bundled.rules, ∃ former later,
            other.Reports draft former ∧ other.Reports repaired later ∧ later.Sublist former := by
  obtain ⟨spec, hspec, himplements⟩ := exists_gapRule hrule
  obtain ⟨fix, hfix, -⟩ := himplements.fix_turns
  have hshows := Draft.shows_of_owned ho
  obtain ⟨checked, hcheck, hchecked⟩ := himplements.check_reads _ _ hshows
  refine ⟨fix, _, checked, hfix, hcheck, fun front finding rest hfindings => ?_⟩
  obtain ⟨before, site, after, hsites, hfinding, rfl, rfl⟩ := exists_of_filterMap_eq hfindings
  obtain ⟨view', gap, hturns, hgap, -, hsites'⟩ := himplements.repair_turns hfix hsites hfinding
  obtain ⟨repaired, hrun, hrepaired⟩ := hturns checked hchecked
  have hreports : ∀ {other : Rule} {spec' : GapRule}, spec' ∈ bundledGapRules →
      other.Implements spec' → other.Reports repaired
        (before.filterMap spec'.finding ++ after.filterMap spec'.finding) := by
    intro other spec' hspec' hother
    rw [← filterMap_finding_withGap hspec hspec' hfinding hgap, ← hsites']
    exact hother.reports hrepaired
  refine ⟨repaired, hrun, hreports hspec himplements, fun other hother => ?_⟩
  obtain ⟨spec', hspec', himplements'⟩ := exists_gapRule hother
  refine ⟨_, _, himplements'.reports hshows, hreports hspec' himplements', ?_⟩
  rw [hsites, List.filterMap_append]
  exact (List.Sublist.refl _).append (((List.sublist_cons_self site after).filterMap _))

/-- A stream that no source has: all four rules find something, two of them at the gap between the
name and the brace, and an indentation stands directly after the brace. -/
def crowdedHeader : Draft :=
  .ofLexemes "made" [⟨.classWord, "class", ⟨1, 1⟩⟩, ⟨.newline, "\n", ⟨1, 6⟩⟩,
    ⟨.identifier, "foo", ⟨1, 7⟩⟩, ⟨.leftBrace, "\x7b", ⟨1, 10⟩⟩, ⟨.indent, "  ", ⟨1, 11⟩⟩,
    ⟨.rightBrace, "\x7d", ⟨1, 13⟩⟩]

/-- The repair after the name takes the finding of the rule on braces away with its own. -/
theorem repair_only_finding_crowded :
    nameAfterRule ∈ Registry.bundled.rules ∧ crowdedHeader.Owned ∧
    ∃ fix finding checked repaired, nameAfterRule.fix = some fix ∧
      nameAfterRule.check.run crowdedHeader = .ok [finding] checked ∧
      (fix finding).run checked = .ok () repaired ∧ nameAfterRule.Reports repaired [] ∧
      ∀ other ∈ Registry.bundled.rules, ∃ former later,
        other.Reports crowdedHeader former ∧ other.Reports repaired later ∧
          later.Sublist former := by
  have hrule : nameAfterRule ∈ Registry.bundled.rules := by simp [Registry.bundled]
  have ho : crowdedHeader.Owned := Draft.owned_ofLexemes _ _
  obtain ⟨fix, findings, checked, hfix, hcheck, hrepair⟩ := repair_only_finding hrule ho
  have hfound : ∃ finding checked, nameAfterRule.check.run crowdedHeader = .ok [finding] checked :=
    ⟨⟨nameAfter, .error, nameAfterMessage, ⟨1, 7⟩, some 2⟩, _, rfl⟩
  obtain ⟨finding, checked', hfound⟩ := hfound
  obtain ⟨rfl, rfl⟩ : findings = [finding] ∧ checked = checked' := by
    rw [hfound] at hcheck
    cases hcheck
    exact ⟨rfl, rfl⟩
  obtain ⟨repaired, hrun, hown, hothers⟩ := hrepair [] finding [] rfl
  exact ⟨hrule, ho, fix, finding, checked, repaired, hfix, hcheck, hrun, hown, hothers⟩

/-! ## All repairs of a rule -/

theorem View.pieceLayout_lead (view : View) :
    view.pieceLayout.lead = view.layout.lead.map Entry.piece := rfl

theorem Layout.respace_eq {α : Type} (f : Site α → List α) (layout : Layout α) :
    layout.respace f = ⟨layout.lead, layout.sites.map fun site => ⟨site.head, f site⟩⟩ := rfl

section RepairAll

variable {rule : Rule} {spec : GapRule} {fix : Finding → Edit Unit}

/-- A repair takes nothing away from what the rule makes of the layout. -/
theorem respace_pieceLayout_withGap (hspec : spec ∈ bundledGapRules) {view view' : View}
    {before after : List (Site Entry)} {site : Site Entry} {gap : List Entry}
    (hsites : view.sites = before ++ site :: after) (hunsettled : ¬spec.Settled site.pieces)
    (hgap : gap.map Entry.piece = spec.regap site.pieces)
    (hlead : view'.layout.lead = view.layout.lead)
    (hsites' : view'.sites = before ++ site.withGap gap :: after) :
    view'.pieceLayout.respace spec.regap = view.pieceLayout.respace spec.regap := by
  have hregap : spec.regap (site.withGap gap).pieces = spec.regap site.pieces := by
    have hsettled := settled_regap hspec hspec hunsettled
    rw [← hgap] at hsettled
    exact hsettled.trans hgap
  rw [Layout.respace_eq, Layout.respace_eq, View.sites_pieceLayout, View.sites_pieceLayout, hsites,
    hsites', View.pieceLayout_lead, View.pieceLayout_lead, hlead]
  simp only [List.map_append, List.map_cons, hregap]
  rfl

/-- **All repairs of a rule**, in any order, respace the layout. -/
theorem Rule.Implements.forM_fix_turns (hrule : rule.Implements spec)
    (hspec : spec ∈ bundledGapRules) (hfix : rule.fix = some fix) {findings : List Finding}
    {view : View} (h : findings.Perm (view.sites.filterMap spec.finding)) :
    ∃ view', (findings.forM fix).Turns view () view' ∧
      view'.pieceLayout = view.pieceLayout.respace spec.regap := by
  induction findings generalizing view with
  | nil =>
      -- nothing is left to find, so that the layout is as the rule wants it
      have hsettled := (Linter.findings_eq_nil_iff hrule view).1 h.nil_eq.symm
      refine ⟨view, Turns.pure (), ?_⟩
      rw [Layout.respace_congr (g := Site.gap) hsettled, Layout.respace_gap]
  | cons finding rest ih =>
      obtain ⟨front, others, hfindings⟩ :=
        List.append_of_mem (h.mem_iff.1 List.mem_cons_self)
      obtain ⟨before, site, after, hsites, hfinding, rfl, rfl⟩ := exists_of_filterMap_eq hfindings
      obtain ⟨view₁, gap, hturns, hgap, hlead, hsites₁⟩ :=
        hrule.repair_turns hfix hsites hfinding
      -- the findings that are left are those of the new view
      have hrest : rest.Perm (view₁.sites.filterMap spec.finding) := by
        rw [hsites₁, filterMap_finding_withGap hspec hspec hfinding hgap]
        rw [hfindings] at h
        exact (h.trans List.perm_middle).cons_inv
      obtain ⟨view', hturns', hlayout⟩ := ih hrest
      refine ⟨view', ?_, ?_⟩
      · unfold List.forM
        exact hturns.bind hturns'
      · have hunsettled := (GapRule.not_settled_of_finding hfinding).1
        rw [hlayout, respace_pieceLayout_withGap hspec hsites hunsettled hgap hlead hsites₁]

end RepairAll

/-- **The order of repairs does not matter.** In a stream that owns its tokens the findings of a
bundled rule can be repaired in any order. No repair fails, and any two orders leave streams with
the same text, whose tokens have the same kinds and values. -/
theorem repairs_in_any_order {rule : Rule} (hrule : rule ∈ Registry.bundled.rules)
    {draft : Draft} (ho : draft.Owned) :
    ∃ fix findings checked, rule.fix = some fix ∧ rule.check.run draft = .ok findings checked ∧
      ∀ first second : List Finding, first.Perm findings → second.Perm findings →
        ∃ one two, (first.forM fix).run checked = .ok () one ∧
          (second.forM fix).run checked = .ok () two ∧
          one.render = two.render ∧ one.pieces = two.pieces := by
  obtain ⟨spec, hspec, himplements⟩ := exists_gapRule hrule
  obtain ⟨fix, hfix, -⟩ := himplements.fix_turns
  obtain ⟨checked, hcheck, hchecked⟩ :=
    himplements.check_reads _ _ (Draft.shows_of_owned ho)
  refine ⟨fix, _, checked, hfix, hcheck, fun first second hfirst hsecond => ?_⟩
  obtain ⟨view₁, hturns₁, hlayout₁⟩ := himplements.forM_fix_turns hspec hfix hfirst
  obtain ⟨view₂, hturns₂, hlayout₂⟩ := himplements.forM_fix_turns hspec hfix hsecond
  obtain ⟨one, hone, hshows₁⟩ := hturns₁ checked hchecked
  obtain ⟨two, htwo, hshows₂⟩ := hturns₂ checked hchecked
  have hpieces : one.pieces = two.pieces := by
    rw [Draft.pieces_of_shows hshows₁, Draft.pieces_of_shows hshows₂, hlayout₁, hlayout₂]
  refine ⟨one, two, hone, htwo, ?_, hpieces⟩
  rw [Draft.render_eq, Draft.render_eq, hpieces]

/-- Two blocks, one opened in the other, with too much space after each of the braces. -/
def nestedBlocks : Draft :=
  .ofLexemes "made" [⟨.leftBrace, "\x7b", ⟨1, 1⟩⟩, ⟨.whitespace, "  ", ⟨1, 2⟩⟩,
    ⟨.leftBrace, "\x7b", ⟨1, 4⟩⟩, ⟨.newline, "\n", ⟨1, 5⟩⟩, ⟨.newline, "\n", ⟨2, 1⟩⟩,
    ⟨.newline, "\n", ⟨3, 1⟩⟩, ⟨.rightBrace, "\x7d", ⟨4, 1⟩⟩]

theorem repairs_in_any_order_nested :
    afterRule ∈ Registry.bundled.rules ∧ nestedBlocks.Owned ∧
    ∃ fix outer inner checked one two, afterRule.fix = some fix ∧
      afterRule.check.run nestedBlocks = .ok [outer, inner] checked ∧
      ([outer, inner].forM fix).run checked = .ok () one ∧
      ([inner, outer].forM fix).run checked = .ok () two ∧
      one.render = two.render ∧ one.pieces = two.pieces := by
  have hrule : afterRule ∈ Registry.bundled.rules := by simp [Registry.bundled]
  have ho : nestedBlocks.Owned := Draft.owned_ofLexemes _ _
  obtain ⟨fix, findings, checked, hfix, hcheck, horders⟩ := repairs_in_any_order hrule ho
  have hfound : ∃ outer inner checked,
      afterRule.check.run nestedBlocks = .ok [outer, inner] checked :=
    ⟨⟨afterName, .error, afterMessage, ⟨1, 2⟩, some 1⟩,
      ⟨afterName, .error, afterMessage, ⟨2, 1⟩, some 4⟩, _, rfl⟩
  obtain ⟨outer, inner, checked', hfound⟩ := hfound
  obtain ⟨rfl, rfl⟩ : findings = [outer, inner] ∧ checked = checked' := by
    rw [hfound] at hcheck
    cases hcheck
    exact ⟨rfl, rfl⟩
  obtain ⟨one, two, hone, htwo, hrender, hpieces⟩ :=
    horders [outer, inner] [inner, outer] (.refl _) (.swap _ _ _)
  exact ⟨hrule, ho, fix, outer, inner, checked, one, two, hfix, hcheck, hone, htwo, hrender,
    hpieces⟩

end ManifestLint
