import ManifestLint.Proofs.Lint.CodeKept
import ManifestLint.Proofs.Stream.Exclusive

set_option autoImplicit false

/-! # Anchors that are not in the stream

A finding outlives its token: the token may have been taken out since, or the finding may be handed
to a repair of another stream. A bundled repair asks the stream for the place of its anchor before
it does anything, so that it fails at such a token and changes no token of any stream. There is one
path on which it does not ask: the repair of what follows a brace overwrites white space as it finds
it, wherever the white space stands.

A run reports a finding as repaired when its repair succeeds. So whenever a run comes to a finding
whose anchor is not in the stream any more, the finding is reported as it is, but for white space
that is overwritten (`stale_anchor`). -/

namespace ManifestLint

open Edit OpeningBrace ClassHeader

/-! ## One repair -/

/-- The repair is the one that overwrites white space, and the token is white space. -/
def Overwrites (fix : Finding → Edit Unit) (pool : Pool) (t : TokenId) : Prop :=
  fix = fixAfter ∧ (pool.get t).kind = .whitespace

/-- The program fails at the token, with the stream and all tokens as they were; at most there are
new tokens that are in no stream. -/
def Edit.FailsAt (e : Edit Unit) (draft : Draft) (t : TokenId) : Prop :=
  ∃ after, e.run draft = .error (.stale t) after ∧ after.stream = draft.stream ∧
    ∀ u < draft.pool.size, after.pool.get u = draft.pool.get u

section NotLive

variable {draft : Draft} {t : TokenId} {finding : Finding}

theorem run_anchor (htoken : finding.token = some t) (draft : Draft) :
    (anchor finding).run draft = .ok t draft := by
  unfold anchor
  rw [htoken]
  rfl

theorem run_prev_of_not_live (h : draft.isLive t = false) :
    (prev t).run draft = .error (.stale t) draft := run_bind_error (run_index_of_not_live h)

theorem run_next_of_not_live (h : draft.isLive t = false) :
    (next t).run draft = .error (.stale t) draft := run_bind_error (run_index_of_not_live h)

theorem Edit.FailsAt.of_run {e : Edit Unit} (h : e.run draft = .error (.stale t) draft) :
    e.FailsAt draft t := ⟨draft, h, rfl, fun _ _ => rfl⟩

theorem Edit.FailsAt.bind {α : Type} {e : Edit α} {f : α → Edit Unit} {a : α}
    (he : e.run draft = .ok a draft) (hf : (f a).FailsAt draft t) : (e >>= f).FailsAt draft t := by
  obtain ⟨after, hrun, hkept⟩ := hf
  exact ⟨after, (run_bind_ok he).trans hrun, hkept⟩

theorem fixBefore_failsAt (htoken : finding.token = some t) (h : draft.isLive t = false) :
    (fixBefore finding).FailsAt draft t := by
  unfold fixBefore
  exact .bind (run_anchor htoken draft) (.of_run (run_bind_error (run_prev_of_not_live h)))

theorem fixNameBefore_failsAt (htoken : finding.token = some t) (h : draft.isLive t = false) :
    (fixNameBefore finding).FailsAt draft t := by
  unfold fixNameBefore
  exact .bind (run_anchor htoken draft) (.of_run (run_bind_error (run_prev_of_not_live h)))

theorem fixNameAfter_failsAt (htoken : finding.token = some t) (h : draft.isLive t = false) :
    (fixNameAfter finding).FailsAt draft t := by
  have hsearch : (nextNonSpace t).run draft = .error (.stale t) draft :=
    run_bind_error (run_next_of_not_live h)
  unfold fixNameAfter
  exact .bind (run_anchor htoken draft) (.of_run (run_bind_error hsearch))

/-- A token that is not in the stream does not get into it by the making of another one. -/
theorem isLive_add (h : draft.isLive t = false) (position : Position) :
    (Draft.mk (draft.pool.add (.singleSpace position)) draft.stream).isLive t = false := by
  show draft.stream.holds t ((draft.pool.add _).get t).handle = false
  rw [Pool.get_add]
  split
  · rfl
  · exact h

theorem insertSpaceBefore_failsAt (h : draft.isLive t = false) :
    (insertSpaceBefore t).FailsAt draft t := by
  -- the new space is made first; it is in no stream
  refine .bind (run_token t draft)
    ⟨⟨draft.pool.add (.singleSpace (draft.pool.get t).position), draft.stream⟩, ?_, rfl, ?_⟩
  · refine (run_bind_ok (run_create _ _)).trans ?_
    exact run_bind_error (run_bind_error (run_index_of_not_live (isLive_add h _)))
  · intro u hu
    rw [Pool.get_add, if_neg (Nat.ne_of_lt hu)]

theorem removeNewlines_failsAt (h : draft.isLive t = false)
    (hkind : (draft.pool.get t).kind = .newline) (fuel : Nat) :
    (removeNewlines (fuel + 1) (some t)).FailsAt draft t := by
  unfold removeNewlines
  refine .bind (run_token t draft) ?_
  rw [if_pos hkind]
  exact .of_run (run_bind_error (run_next_of_not_live h))

theorem fixAfter_failsAt (htoken : finding.token = some t) (h : draft.isLive t = false)
    (hkind : (draft.pool.get t).kind ≠ .whitespace) : (fixAfter finding).FailsAt draft t := by
  unfold fixAfter
  refine .bind (run_anchor htoken draft) (.bind (run_token t draft) ?_)
  split
  · exact absurd ‹_› hkind
  · exact .bind (Edit.run_get draft) (removeNewlines_failsAt h ‹_› _)
  · exact insertSpaceBefore_failsAt h

/-- White space is overwritten whether or not it is in the stream. -/
theorem run_fixAfter_whitespace (htoken : finding.token = some t)
    (hkind : (draft.pool.get t).kind = .whitespace) :
    (fixAfter finding).run draft = .ok () ⟨draft.pool.setValue t " ", draft.stream⟩ := by
  unfold fixAfter
  rw [run_bind_ok (run_anchor htoken draft), run_bind_ok (run_token t draft), hkind]
  rfl

/-- **A repair at a token that is not in the stream** fails there and changes nothing, unless it
overwrites the token. -/
theorem fix_failsAt {fix : Finding → Edit Unit} (hfix : fix ∈ bundledFixes)
    (htoken : finding.token = some t) (h : draft.isLive t = false)
    (hno : ¬Overwrites fix draft.pool t) : (fix finding).FailsAt draft t := by
  rcases mem_bundledFixes.1 hfix with rfl | rfl | rfl | rfl
  · exact fixBefore_failsAt htoken h
  · exact fixAfter_failsAt htoken h fun hkind => hno ⟨rfl, hkind⟩
  · exact fixNameBefore_failsAt htoken h
  · exact fixNameAfter_failsAt htoken h

end NotLive

/-! ## Several streams -/

namespace Store

/-- The streams of the one store are those of the other, and the tokens that the one has are as
they are in the other. -/
structure Kept (before after : Store) : Prop where
  streams_eq : after.streams = before.streams
  get_eq : ∀ t < before.pool.size, after.pool.get t = before.pool.get t

/-- An edit that leaves its stream alone leaves all streams alone. -/
theorem putDraft_of_stream_eq {store : Store} {n : Nat} {draft : Draft}
    (h : draft.stream = (store.draft n).stream) :
    store.putDraft n draft = ⟨draft.pool, store.streams⟩ := by
  rw [putDraft, h]
  congr 1
  by_cases hlt : n < store.streams.size
  · simp [Store.draft, Array.setIfInBounds, hlt, Array.getD]
  · simp [Array.setIfInBounds, hlt]

theorem run_failsAt {store : Store} {n : Nat} {e : Edit Unit} {t : TokenId}
    (h : e.FailsAt (store.draft n) t) :
    (store.run n e).1 = .error (.stale t) ∧ store.Kept (store.run n e).2 := by
  obtain ⟨after, hrun, hstream, hget⟩ := h
  rw [run_failed hrun, putDraft_of_stream_eq hstream]
  exact ⟨rfl, rfl, hget⟩

end Store

/-! ## Runs -/

namespace Linter

variable {linter : Linter} {rule : Rule} {path : String} {finding : Finding}

/-- In a run from `start` the linter comes to resolve a finding of a rule when the draft is `now`
and the problems `reported` have been reported. -/
def Resolves (linter : Linter) (path : String) (start : Draft) (rule : Rule) (finding : Finding)
    (reported : List Problem) (now : Draft) : Prop :=
  ∃ earlier later early draft front back checked own,
    linter.rules = earlier ++ rule :: later ∧
    (linter.runRules path earlier).run start = .ok early draft ∧
    rule.check.run draft = .ok (front ++ finding :: back) checked ∧
    (linter.resolveAll rule path front).run checked = .ok own now ∧
    reported = early.problems ++ own.problems

theorem ofSeverity_ne_fixed (severity : Severity) : Outcome.ofSeverity severity ≠ .fixed := by
  cases severity <;> decide

/-- One problem is reported for a finding, and it is reported as repaired exactly when repairs are
asked for and the one of the rule succeeds. -/
theorem exists_problem_of_resolve {now next : Draft} {resolved : Transcript}
    (h : (linter.resolve rule path finding).run now = .ok resolved next) :
    ∃ problem, resolved.problems = [problem] ∧ problem.finding = finding ∧
      (problem.outcome = .fixed ↔ linter.fix = true ∧ ∃ fix, rule.fix = some fix ∧
        ∃ after, (fix finding).run now = .ok () after) := by
  unfold resolve at h
  split at h
  · rename_i fix hasked hrule
    replace h : (repair rule fix path finding).run now = .ok resolved next := h
    simp only [hasked, hrule, true_and, Option.some.injEq, exists_eq_left']
    simp only [repair, Edit.run_tryCatch, Edit.run_bind] at h
    cases hrun : (fix finding).run now with
    | ok _ after =>
        rw [hrun] at h
        cases h
        exact ⟨_, rfl, rfl, iff_of_true rfl ⟨_, rfl⟩⟩
    | error fault after =>
        have hno : ¬∃ after', EStateM.Result.error fault after = EStateM.Result.ok () after' := by
          rintro ⟨_, ⟨⟩⟩
        rw [hrun] at h
        cases fault
        case stale | refused =>
          cases h
          exact ⟨_, rfl, rfl, iff_of_false (ofSeverity_ne_fixed _) hno⟩
        all_goals cases h
  · rename_i hnot
    cases h
    refine ⟨_, rfl, rfl, iff_of_false (ofSeverity_ne_fixed _) ?_⟩
    rintro ⟨hasked, fix, hrule, -⟩
    exact hnot fix hasked hrule

/-! ### Where a finding stands in a run -/

/-- A run that goes on to another one has two parts. -/
theorem exists_of_run_then {e f : Edit Transcript} {start after : Draft} {transcript : Transcript}
    (h : (do
      let first ← e
      return first.append (← f) : Edit Transcript).run start = .ok transcript after) :
    ∃ first mid second, e.run start = .ok first mid ∧ f.run mid = .ok second after ∧
      transcript.problems = first.problems ++ second.problems := by
  obtain ⟨first, mid, hfirst, hrest⟩ := exists_of_run_bind_ok h
  obtain ⟨second, last, hsecond, hpure⟩ := exists_of_run_bind_ok hrest
  cases hpure
  exact ⟨first, mid, second, hfirst, hsecond, rfl⟩

theorem exists_of_run_resolveAll_append {front back : List Finding} {start after : Draft}
    {own transcript : Transcript} {now : Draft}
    (hfront : (linter.resolveAll rule path front).run start = .ok own now)
    (h : (linter.resolveAll rule path (front ++ back)).run start = .ok transcript after) :
    ∃ rest, (linter.resolveAll rule path back).run now = .ok rest after ∧
      transcript.problems = own.problems ++ rest.problems := by
  induction front generalizing start own transcript with
  | nil =>
      cases hfront
      exact ⟨transcript, h, rfl⟩
  | cons finding others ih =>
      obtain ⟨first, mid, own', hfirst, hothers, hown⟩ := exists_of_run_then hfront
      obtain ⟨first', mid', transcript', hfirst', hrest, htranscript⟩ := exists_of_run_then h
      cases hfirst.symm.trans hfirst'
      obtain ⟨rest, hback, hproblems⟩ := ih hothers hrest
      refine ⟨rest, hback, ?_⟩
      rw [htranscript, hproblems, hown, List.append_assoc]

theorem exists_of_run_runRules_append {earlier later : List Rule} {start draft after : Draft}
    {early transcript : Transcript}
    (hearlier : (linter.runRules path earlier).run start = .ok early draft)
    (h : (linter.runRules path (earlier ++ later)).run start = .ok transcript after) :
    ∃ late, (linter.runRules path later).run draft = .ok late after ∧
      transcript.problems = early.problems ++ late.problems := by
  induction earlier generalizing start early transcript with
  | nil =>
      cases hearlier
      exact ⟨transcript, h, rfl⟩
  | cons rule others ih =>
      obtain ⟨first, mid, early', hfirst, hothers, hearly⟩ := exists_of_run_then hearlier
      obtain ⟨first', mid', transcript', hfirst', hrest, htranscript⟩ := exists_of_run_then h
      cases hfirst.symm.trans hfirst'
      obtain ⟨late, hlater, hproblems⟩ := ih hothers hrest
      refine ⟨late, hlater, ?_⟩
      rw [htranscript, hproblems, hearly, List.append_assoc]

/-- What a run reports for a finding stands behind what it had reported when it came to it. -/
theorem Resolves.exists_problem {start now after : Draft} {reported : List Problem}
    {transcript : Transcript} (h : linter.Resolves path start rule finding reported now)
    (hrun : (linter.run path).run start = .ok transcript after) :
    ∃ problem others, transcript.problems = reported ++ problem :: others ∧
      problem.finding = finding ∧
      (problem.outcome = .fixed ↔ linter.fix = true ∧ ∃ fix, rule.fix = some fix ∧
        ∃ after, (fix finding).run now = .ok () after) := by
  obtain ⟨earlier, later, early, draft, front, back, checked, own, hrules, hearlier, hcheck, hfront,
    rfl⟩ := h
  -- the run takes the rules before, then this rule, then the rules after
  unfold run at hrun
  rw [hrules] at hrun
  obtain ⟨late, hlate, hproblems⟩ := exists_of_run_runRules_append hearlier hrun
  obtain ⟨one, mid, two, hone, -, hlate⟩ := exists_of_run_then hlate
  -- and of this rule the findings before, then this finding, then the findings after
  unfold runRule at hone
  obtain ⟨findings, checked', hcheck', hone⟩ := exists_of_run_bind_ok hone
  cases hcheck.symm.trans hcheck'
  obtain ⟨all, last, hall, hpure⟩ := exists_of_run_bind_ok hone
  cases hpure
  obtain ⟨rest, hrest, hown⟩ := exists_of_run_resolveAll_append hfront hall
  obtain ⟨resolved, next, others, hresolve, -, hresolved⟩ := exists_of_run_then hrest
  obtain ⟨problem, hproblem, hfinding, houtcome⟩ := exists_problem_of_resolve hresolve
  refine ⟨problem, others.problems ++ two.problems, ?_, hfinding, houtcome⟩
  rw [hproblems, hlate, Transcript.append, hown, hresolved, hproblem]
  simp

end Linter

/-- **Anchors that are not in the stream.** Given a finding whose anchor is not in the stream that
it is asked to repair, a bundled repair fails at the anchor, and no token of this or any other
stream has come, gone or changed, exactly when it is not the repair that overwrites white space; in
that case it succeeds, and the white space is one space then. Whenever a run comes to such a
finding, it reports it, and it reports it as repaired exactly when repairs are asked for and the
white space is overwritten. -/
theorem stale_anchor {fix : Finding → Edit Unit} (hfix : fix ∈ bundledFixes) {finding : Finding}
    {t : TokenId} (htoken : finding.token = some t) :
    (∀ (store : Store) (n : Nat), (store.draft n).isLive t = false →
      ((store.run n (fix finding)).1 = .error (.stale t) ∧
          store.Kept (store.run n (fix finding)).2 ↔ ¬Overwrites fix store.pool t) ∧
      (Overwrites fix store.pool t →
        store.run n (fix finding) = (.ok (), ⟨store.pool.setValue t " ", store.streams⟩))) ∧
    ∀ (linter : Linter) (path : String) (start now after : Draft) (rule : Rule)
      (reported : List Problem) (transcript : Transcript), rule.fix = some fix →
      linter.Resolves path start rule finding reported now → now.isLive t = false →
      (linter.run path).run start = .ok transcript after →
        ∃ problem others, transcript.problems = reported ++ problem :: others ∧
          problem.finding = finding ∧
          (problem.outcome = .fixed ↔ linter.fix = true ∧ Overwrites fix now.pool t) := by
  constructor
  · intro store n hstale
    have hover : Overwrites fix store.pool t →
        store.run n (fix finding) = (.ok (), ⟨store.pool.setValue t " ", store.streams⟩) := by
      rintro ⟨rfl, hkind⟩
      have hrun : (fixAfter finding).run (store.draft n) = .ok () _ :=
        run_fixAfter_whitespace htoken hkind
      rw [Store.run_ok hrun]
      exact congrArg (Prod.mk (Except.ok ())) (Store.putDraft_of_stream_eq rfl)
    refine ⟨⟨fun hfails hno => ?_, fun hno => ?_⟩, hover⟩
    · rw [hover hno] at hfails
      cases hfails.1
    · exact Store.run_failsAt (fix_failsAt hfix htoken hstale hno)
  · intro linter path start now after rule reported transcript hrule hresolves hstale hrun
    obtain ⟨problem, others, hproblems, hfinding, houtcome⟩ := hresolves.exists_problem hrun
    refine ⟨problem, others, hproblems, hfinding, houtcome.trans (and_congr_right fun _ => ?_)⟩
    constructor
    · rintro ⟨fix', hrule', left, hsucceeds⟩
      obtain rfl : fix = fix' := Option.some.inj (hrule.symm.trans hrule')
      by_contra hno
      obtain ⟨failed, hfails, -⟩ := fix_failsAt hfix htoken hstale hno
      rw [hfails] at hsucceeds
      cases hsucceeds
    · rintro ⟨rfl, hkind⟩
      exact ⟨_, hrule, _, run_fixAfter_whitespace htoken hkind⟩

/-- A brace and two line ends. -/
def blankLine : Draft :=
  .ofLexemes "made" [⟨.leftBrace, "\x7b", ⟨1, 1⟩⟩, ⟨.newline, "\n", ⟨1, 2⟩⟩,
    ⟨.newline, "\n", ⟨2, 1⟩⟩]

/-- A rule that reports every token and takes line ends out. -/
def everyToken : Rule := ⟨"all", Linter.reportAll, some fixAfter⟩

/-- The repair at the first line end takes the second one out too, so that the finding there comes
too late: its repair fails, and the run reports it as it is. -/
theorem stale_anchor_blankLine :
    fixAfter ∈ bundledFixes ∧
    ∃ finding reported now transcript after, finding.token = some 2 ∧ now.isLive 2 = false ∧
      (Linter.mk true [everyToken]).Resolves "a" blankLine everyToken finding reported now ∧
      ((Linter.mk true [everyToken]).run "a").run blankLine = .ok transcript after ∧
      (Store.run ⟨now.pool, #[now.stream]⟩ 0 (fixAfter finding)).1 = .error (.stale 2) ∧
      ∃ problem others, transcript.problems = reported ++ problem :: others ∧
        problem.finding = finding ∧ problem.outcome ≠ .fixed := by
  have hfix : fixAfter ∈ bundledFixes := by simp [bundledFixes]
  obtain ⟨now, reported, hresolves, hstale, hkind⟩ : ∃ now reported,
      (Linter.mk true [everyToken]).Resolves "a" blankLine everyToken
        ⟨"all", .error, "", ⟨2, 1⟩, some 2⟩ reported now ∧
      now.isLive 2 = false ∧ (now.pool.get 2).kind ≠ .whitespace :=
    ⟨_, _, ⟨[], [], .empty, blankLine, [⟨"all", .error, "", ⟨1, 1⟩, some 0⟩,
      ⟨"all", .error, "", ⟨1, 2⟩, some 1⟩], [], blankLine, _, rfl, rfl, rfl, rfl, rfl⟩,
      by decide, by decide⟩
  obtain ⟨transcript, after, hrun⟩ : ∃ transcript after,
      ((Linter.mk true [everyToken]).run "a").run blankLine = .ok transcript after :=
    ⟨_, _, rfl⟩
  have hno : ¬Overwrites fixAfter now.pool 2 := fun hover => hkind hover.2
  obtain ⟨hstores, hruns⟩ := stale_anchor hfix
    (show (Finding.mk "all" .error "" ⟨2, 1⟩ (some 2)).token = some 2 from rfl)
  obtain ⟨problem, others, hproblems, hfinding, houtcome⟩ :=
    hruns _ _ _ _ _ _ _ _ rfl hresolves hstale hrun
  exact ⟨hfix, _, reported, now, transcript, after, rfl, hstale, hresolves, hrun,
    ((hstores ⟨now.pool, #[now.stream]⟩ 0 hstale).1.2 hno).1, problem, others, hproblems, hfinding,
    fun hfixed => hno (houtcome.1 hfixed).2⟩

/-- Two blocks, each with too much space after its brace. -/
def twoBlocks : Store :=
  (Store.empty.openLexemes "s0" [⟨.identifier, "a", ⟨1, 1⟩⟩, ⟨.whitespace, " ", ⟨1, 2⟩⟩,
      ⟨.leftBrace, "\x7b", ⟨1, 3⟩⟩, ⟨.whitespace, "  ", ⟨1, 4⟩⟩,
      ⟨.identifier, "x", ⟨1, 6⟩⟩]).openLexemes "s1"
    [⟨.identifier, "b", ⟨1, 1⟩⟩, ⟨.whitespace, " ", ⟨1, 2⟩⟩, ⟨.leftBrace, "\x7b", ⟨1, 3⟩⟩,
      ⟨.whitespace, "  ", ⟨1, 4⟩⟩, ⟨.identifier, "y", ⟨1, 6⟩⟩]

/-- What is found in the second block is repaired in the first stream, and the second one
changes. -/
theorem stale_anchor_twoBlocks :
    ∃ finding checked after, twoBlocks.run 1 checkAfter = (.ok [finding], checked) ∧
      finding.token = some 8 ∧ (checked.draft 0).isLive 8 = false ∧
      checked.run 0 (fixAfter finding) = (.ok (), after) ∧
      (checked.draft 1).render = "b \x7b  y" ∧ (after.draft 1).render = "b \x7b y" :=
  ⟨⟨afterName, .error, afterMessage, ⟨1, 4⟩, some 8⟩, _, _, rfl, rfl, by decide, rfl,
    by decide +kernel, by decide +kernel⟩

end ManifestLint
