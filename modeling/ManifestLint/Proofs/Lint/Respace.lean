import ManifestLint.Lint.Linter
import ManifestLint.Proofs.Rule.ClassHeader
import ManifestLint.Proofs.Rule.OpeningBrace

set_option autoImplicit false

/-! # What a run does to a layout

A run of rules that implement gap rules goes gap by gap. Checking a rule lists the gaps that are
not as they should be; repairing one of them changes that gap only, so that the findings after it
are still about what they were found at. So a rule that repairs all its findings respaces the
layout (`runRule_turns`), and a run of several rules respaces it by one rule after another
(`runRules_turns`). No repair is refused and none comes too late.

A run reports nothing exactly when every gap is as its rules want it, and then it changes nothing
(`runRules_silent_iff`). -/

namespace ManifestLint

open Edit

/-! ## The bundled rules -/

/-- The gap rules of the bundled rules. -/
def bundledGapRules : List GapRule :=
  [OpeningBrace.beforeGap, OpeningBrace.afterGap, ClassHeader.nameBeforeGap,
    ClassHeader.nameAfterGap]

theorem mem_bundledGapRules {spec : GapRule} :
    spec ∈ bundledGapRules ↔ spec = OpeningBrace.beforeGap ∨ spec = OpeningBrace.afterGap ∨
      spec = ClassHeader.nameBeforeGap ∨ spec = ClassHeader.nameAfterGap := by
  simp only [bundledGapRules, List.mem_cons, List.not_mem_nil, or_false]

theorem bundled_implements :
    List.Forall₂ Rule.Implements Registry.bundled.rules bundledGapRules :=
  .cons OpeningBrace.before_implements <| .cons OpeningBrace.after_implements <|
    .cons ClassHeader.nameBefore_implements <| .cons ClassHeader.nameAfter_implements .nil

theorem exists_gapRule {rule : Rule} (h : rule ∈ Registry.bundled.rules) :
    ∃ spec ∈ bundledGapRules, rule.Implements spec := by
  obtain ⟨i, hi, rfl⟩ := List.mem_iff_getElem.1 h
  have hi' : i < bundledGapRules.length := bundled_implements.length_eq ▸ hi
  exact ⟨_, List.get_mem _ ⟨i, hi'⟩, bundled_implements.get hi hi'⟩

theorem exists_gapRules {rules : List Rule} (h : ∀ rule ∈ rules, rule ∈ Registry.bundled.rules) :
    ∃ specs, List.Forall₂ Rule.Implements rules specs ∧ ∀ spec ∈ specs, spec ∈ bundledGapRules := by
  induction rules with
  | nil => exact ⟨[], .nil, by simp⟩
  | cons rule rest ih =>
      rw [List.forall_mem_cons] at h
      obtain ⟨spec, hspec, himplements⟩ := exists_gapRule h.1
      obtain ⟨specs, hrest, hspecs⟩ := ih h.2
      exact ⟨spec :: specs, .cons himplements hrest, List.forall_mem_cons.2 ⟨hspec, hspecs⟩⟩

/-- The gap that is left when one rule after another has had its way with a site. -/
def regapAll (specs : List GapRule) (site : Site Piece) : List Piece :=
  specs.foldl (fun gap spec => spec.regap (site.withGap gap)) site.gap

/-! ## Sites with their new gaps -/

/-- A site and what rules have made of it one after another: its gap alone is another one, and if
all of them were content with the gap, not even that. -/
structure Site.Regapped (specs : List GapRule) (site site' : Site Entry) : Prop where
  withGap_eq : site' = site.withGap site'.gap
  pieces_eq : site'.gap.map Entry.piece = regapAll specs site.pieces
  gap_eq : (∀ spec ∈ specs, spec.Settled site.pieces) → site'.gap = site.gap

section Regapped

variable {specs : List GapRule} {before : Option Entry}
  {stretches stretches' : List (Stretch Entry)}

theorem head?_of_regapped
    (h : List.Forall₂ (Site.Regapped specs) (sitesFrom before stretches)
      (sitesFrom before stretches')) :
    stretches'.head?.map Stretch.head = stretches.head?.map Stretch.head := by
  cases stretches with
  | nil =>
      cases stretches' with
      | nil => rfl
      | cons stretch' rest' => cases h
  | cons stretch rest =>
      cases stretches' with
      | nil => cases h
      | cons stretch' rest' =>
          cases h with
          | cons hfirst _ => exact congrArg (fun site => some site.head) hfirst.withGap_eq

/-- To regap every site is to respace the pieces. -/
theorem map_piece_of_regapped
    (h : List.Forall₂ (Site.Regapped specs) (sitesFrom before stretches)
      (sitesFrom before stretches')) :
    stretches'.map (Stretch.map Entry.piece) =
      respaceFrom (regapAll specs) (before.map Entry.piece)
        (stretches.map (Stretch.map Entry.piece)) := by
  rw [respaceFrom, sitesFrom_map, List.map_map]
  conv_lhs => rw [← respaceFrom_gap before stretches', respaceFrom, List.map_map]
  rw [← List.forall₂_eq_eq_eq, List.forall₂_map_left_iff, List.forall₂_map_right_iff]
  refine h.flip.imp fun site' site hsite => ?_
  have hhead : site'.head = site.head := (congrArg Site.head hsite.withGap_eq).trans rfl
  exact congrArg₂ Stretch.mk (congrArg Entry.piece hhead) hsite.pieces_eq

end Regapped

namespace View

/-- The pieces of a view as stretches. -/
def pieceLayout (view : View) : Layout Piece := view.layout.map Entry.piece

theorem pieceLayout_eq (view : View) :
    view.pieceLayout = .ofList Piece.isSpace (view.entries.map Entry.piece) :=
  (Layout.ofList_map Piece.isSpace Entry.piece view.entries).symm

theorem sites_pieceLayout (view : View) :
    view.pieceLayout.sites = view.sites.map Site.pieces :=
  Layout.sites_map Entry.piece view.layout

end View

namespace Linter

variable {linter : Linter} {rule : Rule} {spec : GapRule} {path : String}

/-! ## One rule -/

/-- What is reported and logged when every finding is repaired. -/
def repaired (rule : Rule) (path : String) (findings : List Finding) : Transcript :=
  ⟨findings.map fun finding => ⟨finding, path, .fixed, ""⟩,
    findings.map fun finding => entryAt .info path finding s!"fixed {rule.name}"⟩

theorem resolve_turns (hfix : linter.fix = true) {fix : Finding → Edit Unit}
    (hrule : rule.fix = some fix) {finding : Finding} {view view' : View}
    (h : (fix finding).Turns view () view') :
    (linter.resolve rule path finding).Turns view (repaired rule path [finding]) view' := by
  intro draft hdraft
  obtain ⟨after, hrun, hafter⟩ := h draft hdraft
  refine ⟨after, ?_, hafter⟩
  simp only [resolve, hfix, hrule]
  show (repair rule fix path finding).run draft = _
  simp only [repair, Edit.run_tryCatch, Edit.run_bind, hrun]
  rfl

/-- The findings of a rule are repaired one after another, each at the gap it was found at. The
stretches `done` before those that are left have been gone through. -/
theorem resolveAll_turns (hfix : linter.fix = true) (hrule : rule.Implements spec)
    {stretches : List (Stretch Entry)} (hproper : ∀ s ∈ stretches, s.Proper Entry.isSpace)
    {done : List Entry} {before : Option Entry}
    (hbefore : (done.reverse.find? fun e => !e.isSpace) = before) (size : Nat) :
    ∃ stretches' size', (∀ s ∈ stretches', s.Proper Entry.isSpace) ∧
      List.Forall₂ (Site.Regapped [spec]) (sitesFrom before stretches)
        (sitesFrom before stretches') ∧
      (linter.resolveAll rule path ((sitesFrom before stretches).filterMap spec.finding)).Turns
        ⟨done ++ Stretch.listOf stretches, size⟩
        (repaired rule path ((sitesFrom before stretches).filterMap spec.finding))
        ⟨done ++ Stretch.listOf stretches', size'⟩ := by
  induction stretches generalizing done before size with
  | nil => exact ⟨[], size, by simp, .nil, Turns.pure _⟩
  | cons stretch rest ih =>
      have hwithin := within_first hbefore hproper
      rw [List.forall_mem_cons] at hproper
      simp only [sitesFrom]
      cases hfinding : spec.finding ⟨before, stretch.head, stretch.gap,
        rest.head?.map Stretch.head⟩ with
      | none =>
          -- this gap stays, and the run goes on behind it
          have hsettled := (hrule.finding_eq_none_iff hwithin).1 hfinding
          obtain ⟨rest', size', hproper', hrest, hturns⟩ := ih hproper.2
            (find?_reverse_stretch hproper.1.head hproper.1.gap done) size
          refine ⟨stretch :: rest', size', List.forall_mem_cons.2 ⟨hproper.1, hproper'⟩,
            .cons ⟨?_, hsettled.symm, fun _ => rfl⟩ hrest, ?_⟩
          · rw [head?_of_regapped hrest]
            rfl
          · rw [List.filterMap_cons_none hfinding]
            simpa using hturns
      | some finding =>
          -- the repair changes this gap only, so that what was found behind it still holds
          obtain ⟨fix, hsome, hfixes⟩ := hrule.fix_turns
          obtain ⟨gap, size₁, hgap, hspaces, hturn⟩ := hfixes
            ⟨done ++ Stretch.listOf (stretch :: rest), size⟩ _ _ _ _ hwithin hfinding
          obtain ⟨rest', size', hproper', hrest, hturns⟩ := ih hproper.2
            (find?_reverse_stretch hproper.1.head hspaces done) size₁
          have hunsettled := (GapRule.not_settled_of_finding hfinding).1
          refine ⟨⟨stretch.head, gap⟩ :: rest', size', ?_,
            .cons ⟨?_, hgap, fun hsettled => ?_⟩ hrest, ?_⟩
          · exact List.forall_mem_cons.2 ⟨⟨hproper.1.head, hspaces⟩, hproper'⟩
          · rw [head?_of_regapped hrest]
            rfl
          · exact absurd (hsettled spec List.mem_cons_self) hunsettled
          · rw [List.filterMap_cons_some hfinding]
            unfold resolveAll
            refine (resolve_turns hfix hsome hturn).bind ?_
            have hsplit : ∀ others : List (Stretch Entry),
                done ++ stretch.head :: (gap ++ Stretch.listOf others) =
                  (done ++ stretch.head :: gap) ++ Stretch.listOf others := by
              intro others
              simp
            rw [Stretch.listOf_cons, hsplit, hsplit]
            exact hturns.bind (Turns.pure _)

/-- The log entry of a rule that has been checked. -/
def checkedEntry (rule : Rule) (path : String) (count : Nat) : LogEntry :=
  ⟨.debug, loggerName, s!"{rule.name}: {count} findings in {path}"⟩

/-- A rule is run by checking it and resolving what it finds. -/
theorem runRule_turns_of_check {view view' : View} {findings : List Finding}
    {transcript : Transcript} (hcheck : rule.check.Reads view findings)
    (hresolve : (linter.resolveAll rule path findings).Turns view transcript view') :
    (linter.runRule path rule).Turns view
      (Transcript.append ⟨[], [checkedEntry rule path findings.length]⟩ transcript) view' := by
  unfold runRule
  exact hcheck.bind (hresolve.bind (Turns.pure _))

/-- **A rule that repairs its findings** regaps the sites and so respaces the layout, and every
finding is reported as repaired. -/
theorem runRule_turns (hfix : linter.fix = true) (hrule : rule.Implements spec) (view : View) :
    ∃ view' transcript, (linter.runRule path rule).Turns view transcript view' ∧
      List.Forall₂ (Site.Regapped [spec]) view.sites view'.sites ∧
      view'.pieceLayout = view.pieceLayout.respace spec.regap ∧
      transcript.problems =
        (view.sites.filterMap spec.finding).map fun finding => ⟨finding, path, .fixed, ""⟩ := by
  have hproper := Layout.proper_ofList Entry.isSpace view.entries
  have hlead := (find?_spaces hproper.lead).2
  obtain ⟨stretches', size', hproper', hregapped, hturns⟩ :=
    resolveAll_turns hfix hrule hproper.stretches hlead view.size
  have hentries : (View.mk (view.layout.lead ++ Stretch.listOf view.layout.stretches) view.size) =
      view := by
    show View.mk (view.layout.toList) view.size = view
    rw [View.layout, Layout.toList_ofList]
  have hlayout : View.layout ⟨view.layout.lead ++ Stretch.listOf stretches', size'⟩ =
      ⟨view.layout.lead, stretches'⟩ :=
    have hnew : (Layout.mk view.layout.lead stretches').Proper Entry.isSpace :=
      ⟨hproper.lead, hproper'⟩
    Layout.ofList_toList hnew
  change Turns _ (View.mk (view.layout.lead ++ Stretch.listOf view.layout.stretches) view.size) _ _
    at hturns
  rw [hentries] at hturns
  refine ⟨⟨view.layout.lead ++ Stretch.listOf stretches', size'⟩, _,
    runRule_turns_of_check (hrule.check_reads view) hturns, ?_, ?_, rfl⟩
  · unfold View.sites
    rw [hlayout]
    exact hregapped
  · rw [View.pieceLayout, hlayout, Layout.map, map_piece_of_regapped hregapped]
    rfl

/-! ## Several rules -/

theorem foldl_respace (specs : List GapRule) (layout : Layout Piece) :
    specs.foldl (fun layout spec => layout.respace spec.regap) layout =
      layout.respace (regapAll specs) := by
  -- generalized from the gaps as they are to gaps that other rules have changed already
  have hfold : ∀ f : Site Piece → List Piece,
      specs.foldl (fun layout spec => layout.respace spec.regap) (layout.respace f) =
        layout.respace fun site =>
          specs.foldl (fun gap spec => spec.regap (site.withGap gap)) (f site) := by
    induction specs with
    | nil => intro f; rfl
    | cons spec rest ih =>
        intro f
        rw [List.foldl_cons, Layout.respace_respace, ih]
        rfl
  have hgap := hfold Site.gap
  rw [Layout.respace_gap] at hgap
  exact hgap

/-- **A run that repairs** respaces the layout by one rule after another, and every problem that
it reports is repaired, with nothing to say about it. -/
theorem runRules_turns (hfix : linter.fix = true) {rules : List Rule} {specs : List GapRule}
    (hrules : List.Forall₂ Rule.Implements rules specs) (path : String) (view : View) :
    ∃ view' transcript, (linter.runRules path rules).Turns view transcript view' ∧
      view'.pieceLayout = view.pieceLayout.respace (regapAll specs) ∧
      ∀ problem ∈ transcript.problems, problem.outcome = .fixed ∧ problem.reason = "" := by
  rw [← foldl_respace]
  induction hrules generalizing view with
  | nil => exact ⟨view, .empty, Turns.pure _, rfl, by simp [Transcript.empty]⟩
  | cons hrule _ ih =>
      obtain ⟨view₁, transcript₁, hturns₁, -, hlayout₁, hproblems₁⟩ :=
        runRule_turns hfix hrule view
      obtain ⟨view₂, transcript₂, hturns₂, hlayout₂, hproblems₂⟩ := ih view₁
      refine ⟨view₂, transcript₁.append transcript₂, ?_, ?_, ?_⟩
      · unfold runRules
        exact hturns₁.bind (hturns₂.bind (Turns.pure _))
      · rw [hlayout₂, hlayout₁, List.foldl_cons]
      · intro problem hmem
        rcases List.mem_append.1 hmem with hmem | hmem
        · rw [hproblems₁] at hmem
          obtain ⟨finding, -, rfl⟩ := List.mem_map.1 hmem
          exact ⟨rfl, rfl⟩
        · exact hproblems₂ problem hmem

/-! ## Runs with nothing to report -/

/-- A rule has findings unless every gap is as it wants it. -/
theorem findings_eq_nil_iff (hrule : rule.Implements spec) (view : View) :
    view.sites.filterMap spec.finding = [] ↔
      ∀ site ∈ view.pieceLayout.sites, spec.Settled site := by
  rw [List.filterMap_eq_nil_iff, View.sites_pieceLayout, List.forall_mem_map]
  refine forall₂_congr fun site hmem => ?_
  obtain ⟨pre, post, hwithin⟩ := View.exists_within hmem
  exact hrule.finding_eq_none_iff hwithin

/-- Without repairs the findings are reported as they are. -/
theorem resolveAll_reads (hfix : linter.fix = false) (view : View) (findings : List Finding) :
    (linter.resolveAll rule path findings).Reads view
      ⟨findings.map fun finding => ⟨finding, path, .ofSeverity finding.severity, ""⟩, []⟩ := by
  induction findings with
  | nil => exact Turns.pure _
  | cons finding rest ih =>
      have hfirst : linter.resolve rule path finding =
          pure ⟨[⟨finding, path, .ofSeverity finding.severity, ""⟩], []⟩ := by
        unfold resolve
        rw [hfix]
      unfold resolveAll
      rw [hfirst]
      exact (Turns.pure _).bind (ih.bind (Turns.pure _))

/-- The findings of a gap rule are errors. -/
theorem map_ofSeverity_finding (sites : List (Site Entry)) (spec : GapRule) (path : String) :
    ((sites.filterMap spec.finding).map fun finding =>
        Problem.mk finding path (.ofSeverity finding.severity) "") =
      (sites.filterMap spec.finding).map fun finding => ⟨finding, path, .error, ""⟩ := by
  apply List.map_congr_left
  intro finding hmem
  obtain ⟨site, -, hfinding⟩ := List.mem_filterMap.1 hmem
  obtain ⟨-, entry, -, rfl⟩ := GapRule.not_settled_of_finding hfinding
  rfl

/-- **A run without repairs** only reads, and reports what every rule finds in the stream as it
is. -/
theorem runRules_reads (hfix : linter.fix = false) {rules : List Rule} {specs : List GapRule}
    (hrules : List.Forall₂ Rule.Implements rules specs) (path : String) (view : View) :
    ∃ transcript, (linter.runRules path rules).Reads view transcript ∧
      transcript.problems = specs.flatMap fun spec =>
        (view.sites.filterMap spec.finding).map fun finding => ⟨finding, path, .error, ""⟩ := by
  induction hrules with
  | nil => exact ⟨.empty, Turns.pure _, rfl⟩
  | @cons rule spec rules specs hrule _ ih =>
      obtain ⟨transcript, hrest, hproblems⟩ := ih
      have hfirst : (linter.runRule path rule).Reads view _ :=
        runRule_turns_of_check (hrule.check_reads view) (resolveAll_reads hfix view _)
      refine ⟨_, hfirst.bind (hrest.bind (Turns.pure _)), ?_⟩
      rw [List.flatMap_cons, ← map_ofSeverity_finding, ← hproblems]
      rfl

/-- A rule reports nothing exactly when every gap is as it wants it, and then it changes nothing,
whether it is to repair or not. -/
theorem runRule_silent_iff (hrule : rule.Implements spec) (view : View) :
    ∃ view' transcript, (linter.runRule path rule).Turns view transcript view' ∧
      (transcript.problems = [] ↔ ∀ site ∈ view.pieceLayout.sites, spec.Settled site) ∧
      (transcript.problems = [] → view' = view) := by
  rw [← findings_eq_nil_iff hrule]
  cases hfix : linter.fix with
  | false =>
      refine ⟨view, _, runRule_turns_of_check (hrule.check_reads view)
        (resolveAll_reads hfix view _), ?_, fun _ => rfl⟩
      exact List.map_eq_nil_iff
  | true =>
      by_cases hfindings : view.sites.filterMap spec.finding = []
      · have hcheck := hrule.check_reads view
        rw [hfindings] at hcheck
        have hnothing : (linter.resolveAll rule path []).Reads view .empty := Turns.pure _
        exact ⟨view, _, runRule_turns_of_check hcheck hnothing, iff_of_true rfl hfindings,
          fun _ => rfl⟩
      · obtain ⟨view', transcript, hturns, -, -, hproblems⟩ :=
          runRule_turns hfix hrule view
        -- every finding is a problem, repaired or not
        have hsome : transcript.problems ≠ [] := by
          rw [hproblems]
          exact fun hnil => hfindings (List.map_eq_nil_iff.1 hnil)
        exact ⟨view', transcript, hturns, iff_of_false hsome hfindings,
          fun hnil => absurd hnil hsome⟩

/-- A run reports nothing exactly when every gap is as its rules want it, and then it changes
nothing. -/
theorem runRules_silent_iff {rules : List Rule} {specs : List GapRule}
    (hrules : List.Forall₂ Rule.Implements rules specs) (path : String) (view : View) :
    ∃ view' transcript, (linter.runRules path rules).Turns view transcript view' ∧
      (transcript.problems = [] ↔
        ∀ spec ∈ specs, ∀ site ∈ view.pieceLayout.sites, spec.Settled site) ∧
      (transcript.problems = [] → view' = view) := by
  induction hrules generalizing view with
  | nil => exact ⟨view, .empty, Turns.pure _, by simp [Transcript.empty], fun _ => rfl⟩
  | cons hrule _ ih =>
      obtain ⟨view₁, transcript₁, hturns₁, hiff₁, hsame₁⟩ := runRule_silent_iff hrule view
      obtain ⟨view₂, transcript₂, hturns₂, hiff₂, hsame₂⟩ := ih view₁
      refine ⟨view₂, transcript₁.append transcript₂, ?_, ?_, ?_⟩
      · unfold runRules
        exact hturns₁.bind (hturns₂.bind (Turns.pure _))
      · rw [List.forall_mem_cons, ← hiff₁, Transcript.append, List.append_eq_nil_iff]
        refine and_congr_right fun hnil => ?_
        rw [hiff₂, hsame₁ hnil]
      · intro hnil
        obtain ⟨hnil₁, hnil₂⟩ := List.append_eq_nil_iff.1 hnil
        rw [hsame₂ hnil₂, hsame₁ hnil₁]

end Linter

end ManifestLint
