import ManifestLint.Proofs.Lint.SourceKept

set_option autoImplicit false

/-! # One run is enough

A repairing run of bundled rules brings the stream of a source to a state in which none of its
rules finds anything. A repair of one rule spoils no gap for another one: what the rules make of a
gap, one after another, is what their selection makes of it, and that is as each of them wants it
(`settled_respaced`). Nor does a repair take away the token that a later finding is anchored at, so
that every finding is repaired (`run_converges`). -/

namespace ManifestLint

open Edit

/-- The findings of several rules, one after another, with nothing repaired in between. -/
def Rule.checkAll : List Rule → Edit (List Finding)
  | [] => return []
  | rule :: rest => do
    let findings ← rule.check
    return findings ++ (← checkAll rest)

/-- Where every gap is as the rules want it, none of them finds anything. -/
theorem Rule.checkAll_reads_nil {rules : List Rule} {specs : List GapRule}
    (hrules : List.Forall₂ Rule.Implements rules specs) {view : View}
    (hsettled : ∀ spec ∈ specs, ∀ site ∈ view.pieceLayout.sites, spec.Settled site) :
    (checkAll rules).Reads view [] := by
  induction hrules with
  | nil => exact Turns.pure []
  | cons hrule _ ih =>
      rw [List.forall_mem_cons] at hsettled
      have hfirst := hrule.check_reads view
      rw [(Linter.findings_eq_nil_iff hrule view).2 hsettled.1] at hfirst
      unfold checkAll
      exact hfirst.bind ((ih hsettled.2).bind (Turns.pure _))

namespace Linter

variable {linter : Linter}

/-- When the gaps of pieces that lex have been changed by one rule after another, all of them are
as each of these rules wants them. -/
theorem settled_respaced {specs : List GapRule} (hspecs : ∀ spec ∈ specs, spec ∈ bundledGapRules)
    {ps : List Piece} (hlexes : Lexes .start ps) :
    ∀ spec ∈ specs,
      ∀ site ∈ ((Layout.ofList Piece.isSpace ps).respace (regapAll specs)).sites,
        spec.Settled site := by
  intro spec hspec site' hsite'
  rw [Layout.sites_respace] at hsite'
  obtain ⟨site, hsite, rfl⟩ := List.mem_map.1 hsite'
  have hafterCode := afterCode_of_lexes hlexes site hsite
  rw [regapAll_eq_tidyGap hspecs hafterCode]
  exact settled_tidyGap hspecs hafterCode spec hspec

/-- **One repairing run is enough.** On the stream of a source a run of bundled rules, in any order
and with any repetitions, comes to its end and reports every finding as repaired, so that no
repair was refused and none came too late; and the rules that were run find nothing in the stream
that it leaves. -/
theorem run_converges (hfix : linter.fix = true) (hrules : linter.Bundled) {source name : String}
    {draft : Draft} (hsource : Draft.ofSource source name = .ok draft) (path : String) :
    ∃ transcript after, (linter.run path).run draft = .ok transcript after ∧
      (∀ problem ∈ transcript.problems, problem.outcome = .fixed ∧ problem.reason = "") ∧
      ∃ checked, (Rule.checkAll linter.rules).run after = .ok [] checked := by
  obtain ⟨lexemes, hlexes, rfl⟩ := Draft.exists_lexemes hsource
  obtain ⟨specs, himplements, hspecs⟩ := exists_gapRules hrules
  obtain ⟨view, transcript, hturns, hlayout, hproblems⟩ := runRules_turns hfix himplements path
    ⟨(Draft.ofLexemes name lexemes).entries, (Draft.ofLexemes name lexemes).pool.size⟩
  obtain ⟨after, hrun, hafter⟩ := hturns _ (Draft.shows_of_owned (Draft.owned_ofLexemes _ _))
  have hsettled : ∀ spec ∈ specs, ∀ site ∈ view.pieceLayout.sites, spec.Settled site := by
    rw [hlayout, View.pieceLayout_ofLexemes]
    exact settled_respaced hspecs (Lexing.lexes_of_toExcept hlexes).1
  obtain ⟨checked, hcheck, -⟩ := Rule.checkAll_reads_nil himplements hsettled after hafter
  exact ⟨transcript, after, hrun, hproblems, checked, hcheck⟩

/-- A class whose keyword is followed by a brace, so that two rules are about one gap, and blocks
with empty lines and inside one another. -/
def crowdedSource : String := "class

foo{


  if $x	{$y}
  node{{ a}}
}"

/-- With the rule on the space after a name first and named twice, six findings are repaired in
the crowded source, and nothing is left to find. -/
theorem run_converges_crowded :
    let rules := [ClassHeader.nameAfterRule, OpeningBrace.beforeRule, ClassHeader.nameAfterRule,
      OpeningBrace.afterRule, ClassHeader.nameBeforeRule]
    ∃ draft transcript after checked, Draft.ofSource crowdedSource "init.pp" = .ok draft ∧
      ((Linter.mk true rules).run "init.pp").run draft = .ok transcript after ∧
      transcript.problems.map Problem.outcome = List.replicate 6 .fixed ∧
      (Rule.checkAll rules).run after = .ok [] checked := by
  intro rules
  have hrules : (Linter.mk true rules).Bundled := by
    intro rule hrule
    simp only [rules, List.mem_cons, List.not_mem_nil, or_false] at hrule
    rcases hrule with rfl | rfl | rfl | rfl | rfl <;> simp [Registry.bundled]
  have herror : (Lexing.ofSource crowdedSource).error = none := by decide +kernel
  obtain ⟨draft, hsource⟩ := Draft.ofSource_of_error herror "init.pp"
  obtain ⟨transcript, after, hrun, hproblems, checked, hcheck⟩ :=
    run_converges rfl hrules hsource "init.pp"
  have hlint : (Linter.mk true rules).lintSource crowdedSource "init.pp" = .ok
      ⟨⟨"init.pp", crowdedSource, transcript.problems, some after, .utf8⟩, transcript.log⟩ := by
    rw [lintSource, hsource]
    simp only [hrun]
  have hcount : (((Linter.mk true rules).lintSource crowdedSource "init.pp").toOption.map
      fun linted => linted.report.problems.length) = some 6 := by decide +kernel
  rw [hlint, Except.toOption, Option.map_some] at hcount
  refine ⟨draft, transcript, after, checked, hsource, hrun, ?_, hcheck⟩
  refine List.eq_replicate_iff.2 ⟨?_, fun outcome houtcome => ?_⟩
  · rw [List.length_map]
    exact Option.some.inj hcount
  · obtain ⟨problem, hproblem, rfl⟩ := List.mem_map.1 houtcome
    exact (hproblems problem hproblem).1

end Linter

end ManifestLint
