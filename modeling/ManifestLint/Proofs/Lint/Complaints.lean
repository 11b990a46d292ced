import ManifestLint.Proofs.Lint.FixedText
import ManifestLint.Proofs.Lint.Overlap

set_option autoImplicit false

/-! # What is reported with repairs and without

A *complaint* is a gap that a selected rule is not content with. Without repairs all complaints
about the gaps of a source are reported. With repairs a rule sees what the rules before it have
left, and there it finds the same, unless one of them has had something to do at the gap, after
which no rule has anything left to find. So what is reported with repairs are the complaints that no
earlier rule has answered, each with the finding that it has without (`lintSource_complaints`). The
tokens that repairs put in or change are never reported. -/

namespace ManifestLint

open OpeningBrace ClassHeader

/-! ## Complaints -/

/-- A gap that a rule is not content with, the rules that were selected before it, and what it
reports. -/
structure Complaint where
  earlier : List GapRule
  rule : GapRule
  site : Site Entry
  finding : Finding

/-- The complaints of a rule about gaps. -/
def complaintsOf (sites : List (Site Entry)) (earlier : List GapRule) (rule : GapRule) :
    List Complaint :=
  sites.filterMap fun site => (rule.finding site).map fun finding => ⟨earlier, rule, site, finding⟩

/-- The complaints of one rule after another about gaps as they are. -/
def complaintsFrom (sites : List (Site Entry)) (earlier : List GapRule) :
    List GapRule → List Complaint
  | [] => []
  | rule :: rest => complaintsOf sites earlier rule ++ complaintsFrom sites (earlier ++ [rule]) rest

namespace Complaint

/-- Decides whether an earlier rule was not content with the gap either. -/
def isAnswered (complaint : Complaint) : Bool :=
  complaint.earlier.any fun rule => !decide (rule.Settled complaint.site.pieces)

/-- The complaint as it is reported. -/
def problem (path : String) (outcome : Outcome) (complaint : Complaint) : Problem :=
  ⟨complaint.finding, path, outcome, ""⟩

theorem isAnswered_iff {complaint : Complaint} :
    complaint.isAnswered = true ↔
      ∃ rule ∈ complaint.earlier, ¬rule.Settled complaint.site.pieces := by
  simp [isAnswered]

end Complaint

/-- **Which complaints are answered**: those of a rule that was selected before, and those about a
gap between the name of a header and an opening brace if one of the two rules on it comes after the
other. -/
theorem Complaint.isAnswered_iff_names {complaint : Complaint}
    (hrule : complaint.rule ∈ bundledGapRules)
    (hearlier : ∀ rule ∈ complaint.earlier, rule ∈ bundledGapRules)
    (hfinding : complaint.rule.finding complaint.site = some complaint.finding) :
    complaint.isAnswered = true ↔
      complaint.finding.check ∈ complaint.earlier.map GapRule.name ∨
      complaint.site.pieces.NameBeforeBrace ∧
        (complaint.finding.check = beforeName ∧
            nameAfter ∈ complaint.earlier.map GapRule.name ∨
          complaint.finding.check = nameAfter ∧
            beforeName ∈ complaint.earlier.map GapRule.name) := by
  obtain ⟨hunsettled, entry, -, heq⟩ := GapRule.not_settled_of_finding hfinding
  have hcheck : complaint.finding.check = complaint.rule.name := by rw [heq]
  rw [hcheck, isAnswered_iff]
  constructor
  · -- the answering rule is the same one, or the two are those of a name before a brace
    rintro ⟨rule, hmem, hrule'⟩
    rcases names_of_not_settled hrule (hearlier rule hmem) hunsettled hrule' with
      hsame | ⟨hbrace, ⟨hone, htwo⟩ | ⟨hone, htwo⟩⟩
    · exact .inl (List.mem_map.2 ⟨rule, hmem, by rw [hsame]⟩)
    · exact .inr ⟨hbrace, .inl ⟨by rw [hone]; rfl, List.mem_map.2 ⟨rule, hmem, by rw [htwo]; rfl⟩⟩⟩
    · exact .inr ⟨hbrace, .inr ⟨by rw [hone]; rfl, List.mem_map.2 ⟨rule, hmem, by rw [htwo]; rfl⟩⟩⟩
  · -- a rule of the given name that was selected before is not content either
    have hanswer : ∀ rule ∈ bundledGapRules, rule.name ∈ complaint.earlier.map GapRule.name →
        ¬rule.Settled complaint.site.pieces →
        ∃ rule ∈ complaint.earlier, ¬rule.Settled complaint.site.pieces := by
      intro rule hbundled hname hrule'
      obtain ⟨other, hmem, hsame⟩ := List.mem_map.1 hname
      rw [eq_of_name_eq hbundled (hearlier other hmem) hsame.symm] at hrule'
      exact ⟨other, hmem, hrule'⟩
    rintro (hname | ⟨hbrace, ⟨hname, hother⟩ | ⟨hname, hother⟩⟩)
    · exact hanswer _ hrule hname hunsettled
    · have hsame : complaint.rule = beforeGap :=
        eq_of_name_eq hrule (by simp [bundledGapRules]) hname
      rw [hsame, settled_iff_of_nameBeforeBrace hbrace] at hunsettled
      exact hanswer nameAfterGap (by simp [bundledGapRules]) hother hunsettled
    · have hsame : complaint.rule = nameAfterGap :=
        eq_of_name_eq hrule (by simp [bundledGapRules]) hname
      rw [hsame, ← settled_iff_of_nameBeforeBrace hbrace] at hunsettled
      exact hanswer beforeGap (by simp [bundledGapRules]) hother hunsettled

theorem mem_complaintsFrom {sites : List (Site Entry)} {earlier specs : List GapRule}
    {complaint : Complaint} (h : complaint ∈ complaintsFrom sites earlier specs) :
    complaint.site ∈ sites ∧ complaint.rule ∈ specs ∧
      complaint.rule.finding complaint.site = some complaint.finding ∧
      ∀ rule ∈ complaint.earlier, rule ∈ earlier ++ specs := by
  induction specs generalizing earlier with
  | nil => cases h
  | cons spec rest ih =>
      rcases List.mem_append.1 h with h | h
      · obtain ⟨site, hsite, hfinding⟩ := List.mem_filterMap.1 h
        obtain ⟨finding, hsome, rfl⟩ := Option.map_eq_some_iff.1 hfinding
        exact ⟨hsite, List.mem_cons_self, hsome, fun rule hrule => List.mem_append_left _ hrule⟩
      · obtain ⟨hsite, hrule, hfinding, hearlier⟩ := ih h
        refine ⟨hsite, List.mem_cons_of_mem _ hrule, hfinding, fun rule hmem => ?_⟩
        simpa using hearlier rule hmem

/-- Without repairs every complaint is reported. -/
theorem map_problem_complaintsFrom (sites : List (Site Entry)) (earlier specs : List GapRule)
    (path : String) (outcome : Outcome) :
    (complaintsFrom sites earlier specs).map (Complaint.problem path outcome) =
      specs.flatMap fun spec =>
        (sites.filterMap spec.finding).map fun finding => ⟨finding, path, outcome, ""⟩ := by
  induction specs generalizing earlier with
  | nil => rfl
  | cons spec rest ih =>
      rw [complaintsFrom, List.map_append, ih, List.flatMap_cons, complaintsOf]
      congr 1
      rw [List.map_filterMap, List.map_filterMap]
      simp only [Option.map_map]
      rfl

/-! ## Places -/

theorem Site.Within.mem {site : Site Entry} {xs pre post : List Entry}
    (h : site.Within Entry.isSpace xs pre post) {entry : Entry}
    (hentry : entry = site.head ∨ entry ∈ site.gap ∨ entry ∈ site.next) : entry ∈ xs := by
  rcases hentry with rfl | hgap | hnext
  · rw [h.split]
    simp
  · rw [h.split]
    simp [hgap]
  · obtain ⟨rest, -, hsplit⟩ := h.split_next hnext
    rw [hsplit]
    simp

/-- A rule reports a gap at the head before it, in it, or at the head after it. -/
theorem anchor_mem {spec : GapRule} (hspec : spec ∈ bundledGapRules) {site : Site Entry}
    {entry : Entry} (h : spec.anchor site = some entry) :
    entry = site.head ∨ entry ∈ site.gap ∨ entry ∈ site.next := by
  obtain ⟨before, head, gap, next⟩ := site
  rcases mem_bundledGapRules.1 hspec with rfl | rfl | rfl | rfl
  · exact .inr (.inr h)
  · change afterAnchor _ = _ at h
    unfold afterAnchor at h
    split at h
    · exact .inr (.inr h)
    · rename_i first rest hgap
      dsimp only at hgap
      subst hgap
      split at h
      · exact .inr (.inl (List.mem_cons_of_mem _ (List.mem_of_mem_head? h)))
      · cases h
        exact .inr (.inl List.mem_cons_self)
  · change gap.head?.or next = some entry at h
    rcases Option.or_eq_some_iff.1 h with hgap | ⟨-, hnext⟩
    · exact .inr (.inl (List.mem_of_mem_head? hgap))
    · exact .inr (.inr hnext)
  · exact .inl (Option.some.inj h).symm

/-- The sites of lexemes: the gap after each of them that is no spacing. -/
def Lexeme.sites (lexemes : List Lexeme) : List (Site Entry) :=
  (Layout.ofList Entry.isSpace (entriesFrom 0 lexemes)).sites

theorem map_pieces_sites (lexemes : List Lexeme) :
    (Lexeme.sites lexemes).map Site.pieces =
      (Layout.ofList Piece.isSpace (lexemes.map Lexeme.piece)).sites := by
  rw [← Lexeme.map_piece_entriesFrom 0, Layout.ofList_map, Layout.sites_map]
  rfl

theorem pieces_mem_sites {lexemes : List Lexeme} {site : Site Entry}
    (h : site ∈ Lexeme.sites lexemes) :
    site.pieces ∈ (Layout.ofList Piece.isSpace (lexemes.map Lexeme.piece)).sites := by
  rw [← map_pieces_sites]
  exact List.mem_map_of_mem h

/-- A complaint about lexemes names the position of one of them. -/
theorem exists_position {lexemes : List Lexeme} {specs : List GapRule}
    (hspecs : ∀ spec ∈ specs, spec ∈ bundledGapRules) {complaint : Complaint}
    (h : complaint ∈ complaintsFrom (Lexeme.sites lexemes) [] specs) :
    ∃ lexeme ∈ lexemes, complaint.finding.position = lexeme.position := by
  obtain ⟨hsite, hrule, hfinding, -⟩ := mem_complaintsFrom h
  obtain ⟨-, entry, hanchor, hfinding'⟩ := GapRule.not_settled_of_finding hfinding
  obtain ⟨pre, post, hwithin⟩ := Layout.exists_within hsite
  have hmem := hwithin.mem (anchor_mem (hspecs _ hrule) hanchor)
  have hposition : entry.position ∈ lexemes.map Lexeme.position := by
    rw [← Lexeme.map_position_entriesFrom 0]
    exact List.mem_map_of_mem hmem
  obtain ⟨lexeme, hlexeme, hsame⟩ := List.mem_map.1 hposition
  refine ⟨lexeme, hlexeme, ?_⟩
  rw [hfinding', hsame]

/-! ## Repairs -/

namespace Site.Regapped

variable {earlier : List GapRule} {spec : GapRule} {site site' site'' : Site Entry}

theorem refl (site : Site Entry) : Site.Regapped [] site site := ⟨rfl, rfl, fun _ => rfl⟩

theorem pieces_site (h : Site.Regapped earlier site site') :
    site'.pieces = site.pieces.withGap (regapAll earlier site.pieces) := by
  rw [h.withGap_eq, ← h.pieces_eq]
  rfl

/-- A site that all rules were content with is the same after them. -/
theorem eq_of_settled (h : Site.Regapped earlier site site')
    (hsettled : ∀ rule ∈ earlier, rule.Settled site.pieces) : site' = site := by
  rw [h.withGap_eq, h.gap_eq hsettled]
  rfl

/-- One more rule after some others. -/
theorem concat (h : Site.Regapped earlier site site') (h' : Site.Regapped [spec] site' site'') :
    Site.Regapped (earlier ++ [spec]) site site'' where
  withGap_eq := by
    rw [h'.withGap_eq, h.withGap_eq]
    rfl
  pieces_eq := by
    rw [regapAll_concat, ← h.pieces_site]
    exact h'.pieces_eq
  gap_eq := by
    intro hsettled
    rw [List.forall_mem_append, List.forall_mem_singleton] at hsettled
    have hsame := h.eq_of_settled hsettled.1
    rw [← hsame] at hsettled ⊢
    exact h'.gap_eq (List.forall_mem_singleton.2 hsettled.2)

/-- **What a rule finds at a gap after others** is what it finds there at first, and nothing if one
of those has had something to do there. -/
theorem finding_eq (h : Site.Regapped earlier site site')
    (hearlier : ∀ rule ∈ earlier, rule ∈ bundledGapRules) (hspec : spec ∈ bundledGapRules)
    (hsite : site.pieces.AfterCode) :
    spec.finding site' =
      if ∃ rule ∈ earlier, ¬rule.Settled site.pieces then none else spec.finding site := by
  split
  · rename_i hanswered
    apply GapRule.finding_eq_none_of_settled
    rw [h.pieces_site]
    exact settled_regapAll hearlier hspec hsite hanswered
  · rename_i hno
    rw [h.eq_of_settled]
    intro rule hrule
    by_contra hunsettled
    exact hno ⟨rule, hrule, hunsettled⟩

end Site.Regapped

theorem forall₂_concat {earlier : List GapRule} {spec : GapRule}
    {sites sites' sites'' : List (Site Entry)}
    (h : List.Forall₂ (Site.Regapped earlier) sites sites')
    (h' : List.Forall₂ (Site.Regapped [spec]) sites' sites'') :
    List.Forall₂ (Site.Regapped (earlier ++ [spec])) sites sites'' := by
  induction h generalizing sites'' with
  | nil =>
      cases h'
      exact .nil
  | cons hfirst _ ih =>
      cases h' with
      | cons hfirst' hrest' => exact .cons (hfirst.concat hfirst') (ih hrest')

/-- The findings of a rule after others are its complaints that none of those has answered. -/
theorem filterMap_finding_regapped {earlier : List GapRule} {spec : GapRule}
    {sites sites' : List (Site Entry)} (h : List.Forall₂ (Site.Regapped earlier) sites sites')
    (hearlier : ∀ rule ∈ earlier, rule ∈ bundledGapRules) (hspec : spec ∈ bundledGapRules)
    (hsites : ∀ site ∈ sites, site.pieces.AfterCode) :
    sites'.filterMap spec.finding =
      ((complaintsOf sites earlier spec).filter fun complaint => !complaint.isAnswered).map
        Complaint.finding := by
  unfold complaintsOf
  induction h with
  | nil => rfl
  | @cons site site' sites sites' hfirst _ ih =>
      rw [List.forall_mem_cons] at hsites
      rw [filterMap_cons_eq, filterMap_cons_eq, ih hsites.2,
        hfirst.finding_eq hearlier hspec hsites.1, List.filter_append, List.map_append]
      congr 1
      -- one site: it makes a complaint if the rule finds something there before any repair
      cases hfinding : spec.finding site with
      | none => simp
      | some finding =>
          by_cases hanswered : ∃ rule ∈ earlier, ¬rule.Settled site.pieces
          · have htrue : Complaint.isAnswered ⟨earlier, spec, site, finding⟩ = true :=
              Complaint.isAnswered_iff.2 hanswered
            rw [if_pos hanswered]
            simp [htrue]
          · have hfalse : Complaint.isAnswered ⟨earlier, spec, site, finding⟩ = false := by
              rw [← Bool.not_eq_true, Complaint.isAnswered_iff]
              exact hanswered
            rw [if_neg hanswered]
            simp [hfalse]

namespace Linter

open Edit

variable {linter : Linter}

/-- **With repairs** the complaints are reported that no earlier rule has answered. The rules
`earlier` have been run over the sites before. -/
theorem runRules_answered (hfix : linter.fix = true) {rules : List Rule} {specs : List GapRule}
    (hrules : List.Forall₂ Rule.Implements rules specs)
    (hspecs : ∀ spec ∈ specs, spec ∈ bundledGapRules) {earlier : List GapRule}
    (hearlier : ∀ spec ∈ earlier, spec ∈ bundledGapRules) {sites : List (Site Entry)}
    (hsites : ∀ site ∈ sites, site.pieces.AfterCode) {view : View}
    (hview : List.Forall₂ (Site.Regapped earlier) sites view.sites) (path : String) :
    ∃ view' transcript, (linter.runRules path rules).Turns view transcript view' ∧
      transcript.problems =
        ((complaintsFrom sites earlier specs).filter fun complaint => !complaint.isAnswered).map
          (Complaint.problem path .fixed) := by
  induction hrules generalizing earlier view with
  | nil => exact ⟨view, .empty, Turns.pure _, rfl⟩
  | @cons rule spec rules specs hrule _ ih =>
      rw [List.forall_mem_cons] at hspecs
      -- the view after this rule is one that `earlier ++ [spec]` have been run over
      obtain ⟨view₁, transcript₁, hturns₁, hregapped, -, hproblems₁⟩ :=
        runRule_turns hfix hrule view
      have hearlier' : ∀ spec' ∈ earlier ++ [spec], spec' ∈ bundledGapRules := by
        rw [List.forall_mem_append, List.forall_mem_singleton]
        exact ⟨hearlier, hspecs.1⟩
      obtain ⟨view₂, transcript₂, hturns₂, hproblems₂⟩ :=
        ih hspecs.2 hearlier' (forall₂_concat hview hregapped)
      refine ⟨view₂, transcript₁.append transcript₂, ?_, ?_⟩
      · unfold runRules
        exact hturns₁.bind (hturns₂.bind (Turns.pure _))
      · have hfound := filterMap_finding_regapped hview hearlier hspecs.1 hsites
        rw [complaintsFrom, List.filter_append, List.map_append, ← hproblems₂]
        show transcript₁.problems ++ transcript₂.problems = _
        rw [hproblems₁, hfound, List.map_map]
        rfl

variable {source : String} {lexemes : List Lexeme}

/-- The gaps of lexemes begin on the lines of their heads. -/
theorem afterCode_of_mem_sites (hlexes : (Lexing.ofSource source).toExcept = .ok lexemes) :
    ∀ site ∈ Lexeme.sites lexemes, site.pieces.AfterCode := by
  intro site hsite
  exact afterCode_of_lexes (Lexing.lexes_of_toExcept hlexes).1 _ (pieces_mem_sites hsite)

theorem sites_ofLexemes (path : String) (lexemes : List Lexeme) (size : Nat) :
    View.sites ⟨(Draft.ofLexemes path lexemes).entries, size⟩ = Lexeme.sites lexemes := by
  unfold View.sites View.layout
  rw [Draft.entries_ofLexemes]
  rfl

/-- Without repairs all complaints about the gaps of a source are reported, as errors. -/
theorem lintSource_checked (hfix : linter.fix = false) {specs : List GapRule}
    (hrules : List.Forall₂ Rule.Implements linter.rules specs)
    (hlexes : (Lexing.ofSource source).toExcept = .ok lexemes) (path : String) :
    ∃ linted, linter.lintSource source path = .ok linted ∧
      linted.report.problems =
        (complaintsFrom (Lexeme.sites lexemes) [] specs).map (Complaint.problem path .error) := by
  obtain ⟨transcript, hreads, hproblems⟩ := runRules_reads hfix hrules path
    ⟨(Draft.ofLexemes path lexemes).entries, (Draft.ofLexemes path lexemes).pool.size⟩
  obtain ⟨linted, -, hlint, -, -, hlinted⟩ := lintSource_of_turns hlexes path hreads
  refine ⟨linted, hlint, ?_⟩
  rw [hlinted, hproblems, sites_ofLexemes, map_problem_complaintsFrom]

/-- With repairs those are reported that no earlier rule has answered, as repaired. -/
theorem lintSource_fixed (hfix : linter.fix = true) {specs : List GapRule}
    (hrules : List.Forall₂ Rule.Implements linter.rules specs)
    (hspecs : ∀ spec ∈ specs, spec ∈ bundledGapRules)
    (hlexes : (Lexing.ofSource source).toExcept = .ok lexemes) (path : String) :
    ∃ linted, linter.lintSource source path = .ok linted ∧
      linted.report.problems =
        ((complaintsFrom (Lexeme.sites lexemes) [] specs).filter fun complaint =>
          !complaint.isAnswered).map (Complaint.problem path .fixed) := by
  have hsites := sites_ofLexemes path lexemes (Draft.ofLexemes path lexemes).pool.size
  have hview : List.Forall₂ (Site.Regapped []) (Lexeme.sites lexemes)
      (View.sites ⟨(Draft.ofLexemes path lexemes).entries,
        (Draft.ofLexemes path lexemes).pool.size⟩) := by
    rw [hsites, List.forall₂_same]
    exact fun site _ => .refl site
  obtain ⟨view, transcript, hturns, hproblems⟩ := runRules_answered hfix hrules hspecs
    (by simp) (afterCode_of_mem_sites hlexes) hview path
  obtain ⟨linted, -, hlint, -, -, hlinted⟩ := lintSource_of_turns hlexes path hturns
  exact ⟨linted, hlint, hlinted.trans hproblems⟩

end Linter

/-- What a problem says of the text, whatever became of it. -/
def Problem.saying (problem : Problem) : String × String × Position :=
  (problem.finding.check, problem.finding.message, problem.finding.position)

/-- **With repairs nothing is reported that is not reported without.** For every source and every
list of bundled rules, what is said with repairs is said without, in the same order. If the source
cannot be lexed the error is all that is said either way. If it can, every report names the position
of one of its lexemes; and what is left out are the complaints of a rule that was selected before,
and those about a gap between the name of a header and an opening brace that the other one of the
two rules on that gap has repaired before. -/
theorem lintSource_complaints {rules : List Rule}
    (hrules : ∀ rule ∈ rules, rule ∈ Registry.bundled.rules) (source path : String) :
    ∃ checked fixed,
      (Linter.mk false rules).lintSource source path = .ok checked ∧
      (Linter.mk true rules).lintSource source path = .ok fixed ∧
      (fixed.report.problems.map Problem.saying).Sublist
        (checked.report.problems.map Problem.saying) ∧
      (∀ e, (Lexing.ofSource source).error = some e →
        fixed.report.problems = checked.report.problems ∧
          ∀ problem ∈ checked.report.problems, problem.finding.position = e.position) ∧
      ∀ lexemes, (Lexing.ofSource source).toExcept = .ok lexemes →
        (∀ problem ∈ checked.report.problems ++ fixed.report.problems, ∃ lexeme ∈ lexemes,
          problem.finding.position = lexeme.position) ∧
        ∃ specs, List.Forall₂ Rule.Implements rules specs ∧
          checked.report.problems =
            (complaintsFrom (Lexeme.sites lexemes) [] specs).map (Complaint.problem path .error) ∧
          fixed.report.problems =
            ((complaintsFrom (Lexeme.sites lexemes) [] specs).filter fun complaint =>
              !complaint.isAnswered).map (Complaint.problem path .fixed) ∧
          ∀ complaint ∈ complaintsFrom (Lexeme.sites lexemes) [] specs,
            complaint.isAnswered = true ↔
              complaint.finding.check ∈ complaint.earlier.map GapRule.name ∨
              complaint.site.pieces.NameBeforeBrace ∧
                (complaint.finding.check = beforeName ∧
                    nameAfter ∈ complaint.earlier.map GapRule.name ∨
                  complaint.finding.check = nameAfter ∧
                    beforeName ∈ complaint.earlier.map GapRule.name) := by
  cases herror : (Lexing.ofSource source).error with
  | some e =>
      have hnot : ∀ lexemes, (Lexing.ofSource source).toExcept ≠ .ok lexemes := by
        intro lexemes hlexes
        rw [Lexing.toExcept, herror] at hlexes
        cases hlexes
      refine ⟨_, _, Linter.lintSource_of_error herror path, Linter.lintSource_of_error herror path,
        .refl _, ?_, fun lexemes hlexes => absurd hlexes (hnot lexemes)⟩
      rintro e' ⟨⟩
      exact ⟨rfl, List.forall_mem_singleton.2 rfl⟩
  | none =>
      obtain ⟨specs, himplements, hspecs⟩ := exists_gapRules hrules
      have hlexes := Lexing.toExcept_of_error herror
      obtain ⟨checked, hcheck, hchecked⟩ := Linter.lintSource_checked
        (show (Linter.mk false rules).fix = false from rfl) himplements hlexes path
      obtain ⟨fixed, hfix, hfixed⟩ := Linter.lintSource_fixed
        (show (Linter.mk true rules).fix = true from rfl) himplements hspecs hlexes path
      refine ⟨checked, fixed, hcheck, hfix, ?_, by simp, ?_⟩
      · -- the outcome is no part of what is said
        have hsaying : ∀ outcome, Problem.saying ∘ Complaint.problem path outcome =
            Problem.saying ∘ Complaint.problem path .error := fun outcome => rfl
        rw [hchecked, hfixed, List.map_map, List.map_map, hsaying .fixed]
        exact List.filter_sublist.map _
      · intro lexemes' hlexes'
        obtain rfl := Except.ok.inj (hlexes.symm.trans hlexes')
        refine ⟨?_, specs, himplements, hchecked, hfixed, ?_⟩
        · intro problem hproblem
          rw [hchecked, hfixed] at hproblem
          rcases List.mem_append.1 hproblem with hproblem | hproblem
          · obtain ⟨complaint, hmem, rfl⟩ := List.mem_map.1 hproblem
            exact exists_position hspecs hmem
          · obtain ⟨complaint, hmem, rfl⟩ := List.mem_map.1 hproblem
            exact exists_position hspecs (List.mem_filter.1 hmem).1
        · intro complaint hmem
          obtain ⟨-, hrule, hfinding, hearlier⟩ := mem_complaintsFrom hmem
          exact Complaint.isAnswered_iff_names (hspecs _ hrule)
            (fun rule hrule' => hspecs rule (hearlier rule hrule')) hfinding

/-- What is said of a class header whose name stands two spaces behind its keyword and directly
before its brace: three things without repairs, and two with repairs, as the gap before the brace is
then reported once only. -/
theorem lintSource_complaints_header :
    ∃ checked fixed,
      (Linter.mk false Registry.bundled.rules).lintSource "class  a\x7b\x7d" "init.pp" =
        .ok checked ∧
      (Linter.mk true Registry.bundled.rules).lintSource "class  a\x7b\x7d" "init.pp" =
        .ok fixed ∧
      (fixed.report.problems.map Problem.saying).Sublist
        (checked.report.problems.map Problem.saying) ∧
      checked.report.problems.length = 3 ∧ fixed.report.problems.length = 2 := by
  obtain ⟨checked, fixed, hcheck, hfix, hsublist, -⟩ :=
    lintSource_complaints (fun _ hrule => hrule) "class  a\x7b\x7d" "init.pp"
  have hthree : (((Linter.mk false Registry.bundled.rules).lintSource "class  a\x7b\x7d"
      "init.pp").toOption.map fun linted => linted.report.problems.length) = some 3 := by
    decide +kernel
  have htwo : (((Linter.mk true Registry.bundled.rules).lintSource "class  a\x7b\x7d"
      "init.pp").toOption.map fun linted => linted.report.problems.length) = some 2 := by
    decide +kernel
  rw [hcheck] at hthree
  rw [hfix] at htwo
  exact ⟨checked, fixed, hcheck, hfix, hsublist, Option.some.inj hthree, Option.some.inj htwo⟩

end ManifestLint
