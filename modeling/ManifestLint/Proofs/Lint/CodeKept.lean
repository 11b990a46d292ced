import ManifestLint.Lint.Linter
import ManifestLint.Proofs.Rule.Retouch

set_option autoImplicit false

/-! # A run never touches the code

A run of rules whose checks only read and whose repairs are bundled ones is made of elementary
changes of the spacing. So the code of the stream is the same at every moment of the run, also
when the run is broken off by a fault in the middle of a repair (`run_keepsCode`).

The findings may come from anywhere: a check may report any tokens it likes, for any of the four
repairs. Nor does the stream have to own its tokens; it is enough that it is sound. -/

namespace ManifestLint

open Edit

/-! ## Gentle rules -/

/-- The four bundled repairs. -/
def bundledFixes : List (Finding → Edit Unit) :=
  [OpeningBrace.fixBefore, OpeningBrace.fixAfter, ClassHeader.fixNameBefore,
    ClassHeader.fixNameAfter]

theorem mem_bundledFixes {fix : Finding → Edit Unit} :
    fix ∈ bundledFixes ↔ fix = OpeningBrace.fixBefore ∨ fix = OpeningBrace.fixAfter ∨
      fix = ClassHeader.fixNameBefore ∨ fix = ClassHeader.fixNameAfter := by
  simp only [bundledFixes, List.mem_cons, List.not_mem_nil, or_false]

/-- A rule whose check only looks, and whose repair, if it has one, is a bundled one. -/
structure Rule.Gentle (rule : Rule) : Prop where
  check : rule.check.LooksOnly
  fix : ∀ fix, rule.fix = some fix → fix ∈ bundledFixes

theorem gentle_bundled : ∀ rule ∈ Registry.bundled.rules, rule.Gentle := by
  have hmem : ∀ fix ∈ bundledFixes, ∀ fix', some fix = some fix' → fix' ∈ bundledFixes := by
    rintro fix hfix fix' ⟨⟩
    exact hfix
  simp only [Registry.bundled, List.forall_mem_cons, List.not_mem_nil, false_imp_iff,
    implies_true, and_true]
  refine ⟨⟨OpeningBrace.looksOnly_checkBefore, hmem _ ?_⟩,
    ⟨OpeningBrace.looksOnly_checkAfter, hmem _ ?_⟩,
    ⟨ClassHeader.looksOnly_checkNameBefore, hmem _ ?_⟩,
    ⟨ClassHeader.looksOnly_checkNameAfter, hmem _ ?_⟩⟩ <;> simp [bundledFixes]

theorem fix_retouches {fix : Finding → Edit Unit} (hfix : fix ∈ bundledFixes) {old : Nat}
    {draft : Draft} (hs : draft.Sound) (hold : old ≤ draft.pool.size) (finding : Finding) :
    (fix finding).Retouches old draft fun _ _ => True := by
  rcases mem_bundledFixes.1 hfix with rfl | rfl | rfl | rfl
  · exact OpeningBrace.fixBefore_retouches hs hold finding
  · exact OpeningBrace.fixAfter_retouches hs hold finding
  · exact ClassHeader.fixNameBefore_retouches hs hold finding
  · exact ClassHeader.fixNameAfter_retouches hs hold finding

namespace Linter

/-! ## Runs -/

/-- To report that a repair has failed stores nothing. -/
theorem moments_recover (path : String) (finding : Finding) (fault : Fault) (draft : Draft) :
    (recover path finding fault).moments draft = [] := by
  cases fault <;> rfl

/-- Whatever becomes of a repair, its report stores nothing more than the repair does. -/
theorem repair_retouches {fix : Finding → Edit Unit} {finding : Finding} {old : Nat}
    {draft : Draft} (hfix : (fix finding).Retouches old draft fun _ _ => True) (rule : Rule)
    (path : String) : (repair rule fix path finding).Retouches old draft fun _ _ => True := by
  refine ⟨fun moment hmem => ?_, fun _ _ _ => trivial⟩
  refine hfix.steps moment ?_
  simp only [repair, moments_tryCatch, run_bind, moments_bind] at hmem
  -- what follows the repair stores nothing, whether it succeeds or fails
  cases hrun : (fix finding).run draft with
  | ok a after => simpa [hrun] using hmem
  | error fault after => simpa [hrun, moments_recover] using hmem

theorem resolve_retouches {linter : Linter} {rule : Rule} (hrule : rule.Gentle) {old : Nat}
    {draft : Draft} (hs : draft.Sound) (hold : old ≤ draft.pool.size) (path : String)
    (finding : Finding) :
    (linter.resolve rule path finding).Retouches old draft fun _ _ => True := by
  unfold resolve
  split
  · rename_i fix _ hfix
    exact repair_retouches (fix_retouches (hrule.fix fix hfix) hs hold finding) rule path
  · exact .pure trivial

theorem resolveAll_retouches {linter : Linter} {rule : Rule} (hrule : rule.Gentle) {old : Nat}
    {draft : Draft} (hs : draft.Sound) (hold : old ≤ draft.pool.size) (path : String)
    (findings : List Finding) :
    (linter.resolveAll rule path findings).Retouches old draft fun _ _ => True := by
  induction findings generalizing draft with
  | nil => exact .pure trivial
  | cons finding rest ih =>
      unfold resolveAll
      refine (resolve_retouches hrule hs hold path finding).bind fun _ after hsteps _ => ?_
      refine (ih (hsteps.sound hs) (Nat.le_trans hold hsteps.size_le)).bind fun _ _ _ _ => ?_
      exact .pure trivial

theorem runRules_retouches {linter : Linter} {rules : List Rule}
    (hrules : ∀ rule ∈ rules, rule.Gentle) {old : Nat} {draft : Draft} (hs : draft.Sound)
    (hold : old ≤ draft.pool.size) (path : String) :
    (linter.runRules path rules).Retouches old draft fun _ _ => True := by
  induction rules generalizing draft with
  | nil => exact .pure trivial
  | cons rule rest ih =>
      rw [List.forall_mem_cons] at hrules
      unfold runRules
      refine Retouches.bind (Q := fun _ _ => True) ?_ fun _ after hsteps _ => ?_
      · unfold runRule
        refine (Retouches.of_looksOnly hrules.1.check).bind fun findings after hsteps _ => ?_
        refine (resolveAll_retouches hrules.1 (hsteps.sound hs)
          (Nat.le_trans hold hsteps.size_le) path findings).bind fun _ _ _ _ => ?_
        exact .pure trivial
      · refine (ih hrules.2 (hsteps.sound hs) (Nat.le_trans hold hsteps.size_le)).bind
          fun _ _ _ _ => ?_
        exact .pure trivial

/-- **A run never touches the code.** A run of gentle rules over a sound draft keeps the code at
every moment, and in the draft that it leaves, whether it ends well or is broken off: the tokens
that are no spacing are the same ones in the same order, with the same kinds, values and
positions. What has gone was spacing, what has come is a new white space of one space, and no
value changes but that of white space that becomes one space. -/
theorem run_keepsCode (linter : Linter) (path : String) {draft : Draft} (hs : draft.Sound)
    (hrules : ∀ rule ∈ linter.rules, rule.Gentle) :
    (∀ moment ∈ (linter.run path).moments draft, draft.KeepsCode moment) ∧
      draft.KeepsCode ((linter.run path).final draft) := by
  have hrun : (linter.run path).Retouches draft.pool.size draft fun _ _ => True :=
    runRules_retouches hrules hs (Nat.le_refl _) path
  exact ⟨fun moment hmem => Draft.keepsCode_of_retouching hs (hrun.steps moment hmem),
    Draft.keepsCode_of_retouching hs hrun.final⟩

/-! ## A run that is broken off -/

/-- A check that reports every token. -/
def reportAll : Edit (List Finding) := do
  let draft ← get
  return draft.stream.tokens.map fun t =>
    ⟨"all", .error, "", (draft.pool.get t).position, some t⟩

/-- The repair of the space before a name, for findings about any token. -/
def nameBeforeAnywhere : Rule := ⟨"all", reportAll, some ClassHeader.fixNameBefore⟩

/-- A keyword with spacing after it, and nothing else. -/
def loneKeyword : Draft :=
  .ofLexemes "lone" [⟨.classWord, "class", ⟨1, 1⟩⟩, ⟨.whitespace, "  ", ⟨1, 6⟩⟩]

/-- The repair takes the spacing out before it finds that there is no name. The run is broken off
there; it has brought the cache up to date, and it has taken the spacing out. -/
theorem run_keepsCode_brokenOff :
    let linter : Linter := ⟨true, [nameBeforeAnywhere]⟩
    let moments := (linter.run "lone").moments loneKeyword
    loneKeyword.Sound ∧ (∀ rule ∈ linter.rules, rule.Gentle) ∧
      (∃ fault after, (linter.run "lone").run loneKeyword = .error fault after) ∧
      (moments.map Draft.render).eraseDups = ["class  ", "class"] ∧
      (∀ moment ∈ moments, loneKeyword.KeepsCode moment) ∧
      loneKeyword.KeepsCode ((linter.run "lone").final loneKeyword) := by
  have hs : loneKeyword.Sound := (Draft.owned_ofLexemes _ _).toSound
  have hrules : ∀ rule ∈ [nameBeforeAnywhere], rule.Gentle := by
    rw [List.forall_mem_singleton]
    refine ⟨LooksOnly.get.bind fun _ => LooksOnly.pure _, ?_⟩
    rintro _ ⟨⟩
    simp [bundledFixes]
  have hbroken : ∃ fault after,
      ((Linter.mk true [nameBeforeAnywhere]).run "lone").run loneKeyword = .error fault after :=
    Edit.exists_of_fails (by decide +kernel)
  have hkeeps := run_keepsCode ⟨true, [nameBeforeAnywhere]⟩ "lone" hs hrules
  exact ⟨hs, hrules, hbroken, by decide +kernel, hkeeps.1, hkeeps.2⟩

end Linter

end ManifestLint
