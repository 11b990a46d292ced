import Mathlib.Data.List.DropRight
import ManifestLint.Proofs.Lint.CodeKept
import ManifestLint.Proofs.Rule.ClassHeader
import ManifestLint.Proofs.Rule.OpeningBrace

set_option autoImplicit false

/-! # When a repair fails

A bundled repair can be asked for at any token of a stream, also at one that no check reports any
more. Around braces it then always succeeds. In headers it can be refused, and as the spacing is
collected before any of it is taken out, a refusal leaves all tokens as they were.

One failure is no refusal. Where a header keyword stands before the token and nothing but spacing
after it, the repair before the name takes that spacing out and finds only then that there is no
name. This is the only case in which a failed repair leaves other tokens than before
(`failed_fix_keeps_iff`). -/

namespace ManifestLint

open Edit OpeningBrace ClassHeader

/-- The program does its work, or it is refused and leaves everything as it was. -/
def Edit.Atomic (e : Edit Unit) (view : View) : Prop :=
  (∃ view', e.Turns view () view') ∨ ∃ refusal, e.Fails view (.refused refusal) view

/-- A header keyword stands directly before the token, and from the token on there is nothing but
spacing. -/
def EndsHeader (entries : List Entry) (t : TokenId) : Prop :=
  ∃ front keyword first rest, entries = front ++ keyword :: first :: rest ∧
    isKeyword keyword.kind = true ∧ first.id = t ∧ ∀ entry ∈ first :: rest, entry.isSpace = true

/-! ## Repairs at any token -/

section AnyToken

variable {view : View} {pre post : List Entry} {entry : Entry} {finding : Finding}

theorem fixBefore_atomic (h : view.entries = pre ++ entry :: post)
    (htoken : finding.token = some entry.id) : (fixBefore finding).Atomic view := by
  have hsplit : view.entries =
      (pre.rdropWhile Entry.isSpace ++ pre.rtakeWhile Entry.isSpace) ++ entry :: post := by
    rw [List.rdropWhile_append_rtakeWhile, h]
  have hfront : ∀ e ∈ (pre.rdropWhile Entry.isSpace).getLast?, e.isSpace = false := by
    intro e he
    obtain ⟨hne, rfl⟩ := List.mem_getLast?_eq_getLast he
    exact Bool.eq_false_iff.2 (List.rdropWhile_last_not _ _ hne)
  exact .inl ⟨_, fixBefore_turns_of_split hsplit (fun _ => List.mem_rtakeWhile_imp) hfront htoken⟩

theorem fixAfter_atomic (h : view.entries = pre ++ entry :: post)
    (htoken : finding.token = some entry.id) : (fixAfter finding).Atomic view := by
  by_cases hwhite : entry.kind = .whitespace
  · exact .inl ⟨_, fixAfter_whitespace h hwhite htoken⟩
  · by_cases hline : entry.kind = .newline
    · -- nothing that is no line end has to come after the line ends
      have hsplit : view.entries = pre ++ ((entry :: post) ++ []) := by
        rw [h, List.append_nil]
      exact .inl ⟨_, fixAfter_newline hsplit rfl hline (by simp) htoken⟩
    · exact .inl ⟨_, fixAfter_other h hwhite hline htoken⟩

/-- The first token that is no spacing comes after nothing but spacing. -/
theorem fixNameAfter_atomic (h : view.entries = pre ++ entry :: post)
    (htoken : finding.token = some entry.id) : (fixNameAfter finding).Atomic view := by
  have hcode := nextNonSpace_reads h
  unfold fixNameAfter anchor
  rw [htoken]
  cases hitem : post.find? fun e => !e.isSpace with
  | none =>
      rw [hitem] at hcode
      exact .inr ⟨_, (Turns.pure entry.id).bind_fails (hcode.bind_fails (Fails.throw _))⟩
  | some item =>
      rw [hitem] at hcode
      obtain ⟨gap, rest, rfl, hgap⟩ := exists_gap_of_find? hitem
      have hturns := collapseBetween_turns_of_split h hgap
      exact .inl ⟨_, (Turns.pure entry.id).bind (hcode.bind hturns)⟩

/-- With nothing but spacing after the keyword, the spacing is lost. -/
theorem fixNameBefore_fails {front rest : List Entry} {keyword first : Entry}
    (h : view.entries = front ++ keyword :: first :: rest)
    (hkeyword : isKeyword keyword.kind = true)
    (hspaces : ∀ e ∈ first :: rest, e.isSpace = true) (htoken : finding.token = some first.id) :
    (fixNameBefore finding).Fails view .noToken ⟨front ++ [keyword], view.size⟩ := by
  have hsplit : view.entries = (front ++ [keyword]) ++ first :: rest := by
    rw [h, List.append_assoc, List.singleton_append]
  have hprev := prev_reads hsplit
  rw [List.getLast?_concat] at hprev
  have hcode := nextNonSpace_reads h
  rw [(find?_spaces hspaces).1] at hcode
  unfold fixNameBefore anchor
  rw [htoken]
  refine (Turns.pure first.id).bind_fails (hprev.bind_fails ?_)
  refine Fails.token_bind (mem_of_split h) fun token hpiece => ?_
  rw [show token.kind = keyword.kind from congrArg Piece.kind hpiece, if_pos hkeyword]
  exact hcode.bind_fails (collapseBetween_fails h hspaces)

theorem fixNameBefore_atomic (h : view.entries = pre ++ entry :: post)
    (htoken : finding.token = some entry.id) (hends : ¬EndsHeader view.entries entry.id) :
    (fixNameBefore finding).Atomic view := by
  have hprev := prev_reads h
  rcases List.eq_nil_or_concat pre with rfl | ⟨front, keyword, rfl⟩
  · refine .inr ⟨.noHeaderKeyword, ?_⟩
    unfold fixNameBefore anchor
    rw [htoken]
    exact (Turns.pure entry.id).bind_fails (hprev.bind_fails (Fails.throw _))
  · rw [List.concat_eq_append] at h hprev
    rw [List.getLast?_concat] at hprev
    have hsplit : view.entries = front ++ keyword :: (entry :: post) := by
      rw [h, List.append_assoc, List.singleton_append]
    by_cases hkeyword : isKeyword keyword.kind = true
    · cases hname : (entry :: post).find? fun e => !e.isSpace with
      | none =>
          have hspaces : ∀ e ∈ entry :: post, e.isSpace = true := by simpa using hname
          exact absurd ⟨front, keyword, entry, post, hsplit, hkeyword, rfl, hspaces⟩ hends
      | some name =>
          obtain ⟨gap, rest, hrest, hgap⟩ := exists_gap_of_find? hname
          have hright : name.isSpace = false := by simpa using List.find?_some hname
          have hfirst : (entry :: post).head?.map Entry.id = some entry.id := rfl
          rw [hrest] at hsplit hfirst
          have hturns := fixNameBefore_turns_of_split hsplit hkeyword hgap hright
            (htoken.trans hfirst.symm)
          exact .inl ⟨_, hturns⟩
    · refine .inr ⟨.noHeaderKeyword, ?_⟩
      unfold fixNameBefore anchor
      rw [htoken]
      refine (Turns.pure entry.id).bind_fails (hprev.bind_fails ?_)
      refine Fails.token_bind (mem_of_split hsplit) fun token hpiece => ?_
      rw [show token.kind = keyword.kind from congrArg Piece.kind hpiece, if_neg hkeyword]
      exact Fails.throw _

/-- **A bundled repair is atomic** at any token, but for the one case of a header that ends. -/
theorem fix_atomic {fix : Finding → Edit Unit} (hfix : fix ∈ bundledFixes)
    (h : view.entries = pre ++ entry :: post) (htoken : finding.token = some entry.id)
    (hends : ¬(fix = fixNameBefore ∧ EndsHeader view.entries entry.id)) :
    (fix finding).Atomic view := by
  rcases mem_bundledFixes.1 hfix with rfl | rfl | rfl | rfl
  · exact fixBefore_atomic h htoken
  · exact fixAfter_atomic h htoken
  · exact fixNameBefore_atomic h htoken fun hend => hends ⟨rfl, hend⟩
  · exact fixNameAfter_atomic h htoken

end AnyToken

/-- A program that is atomic fails only by a refusal, with all entries as they were. -/
theorem Edit.Atomic.refused {e : Edit Unit} {view : View} (he : e.Atomic view) {draft after : Draft}
    {fault : Fault} (hdraft : draft.Shows view) (hrun : e.run draft = .error fault after) :
    (∃ refusal, fault = .refused refusal) ∧ after.entries = draft.entries := by
  rcases he with ⟨view', hturns⟩ | ⟨refusal, hfails⟩
  · exact absurd hrun (hturns.ne_error hdraft fault after)
  · obtain ⟨rfl, hafter⟩ := hfails.eq_of_run hdraft hrun
    exact ⟨⟨refusal, rfl⟩, hafter.entries_eq.trans hdraft.entries_eq.symm⟩

/-- Without the spacing at its end a list ends with the last element that is none. -/
theorem rdropWhile_spaces {front gap : List Entry} {entry : Entry} (hentry : entry.isSpace = false)
    (hgap : ∀ e ∈ gap, e.isSpace = true) :
    (front ++ entry :: gap).rdropWhile Entry.isSpace = front ++ [entry] := by
  have hback : ∀ e ∈ gap.reverse, e.isSpace = true := fun e he => hgap e (List.mem_reverse.1 he)
  rw [List.rdropWhile, List.reverse_append, List.reverse_cons, List.append_assoc,
    List.dropWhile_append_of_pos hback, List.singleton_append, List.dropWhile_cons_of_neg]
  · simp
  · simp [hentry]

theorem exists_split_of_isLive {draft : Draft} (ho : draft.Owned) {t : TokenId}
    (hlive : draft.isLive t = true) :
    ∃ pre entry post, draft.entries = pre ++ entry :: post ∧ entry.id = t := by
  have hmem : draft.pool.entry t ∈ draft.entries :=
    List.mem_map_of_mem ((Draft.isLive_iff_mem ho).1 hlive)
  obtain ⟨pre, post, hsplit⟩ := List.append_of_mem hmem
  exact ⟨pre, _, post, hsplit, rfl⟩

/-- Where a header ends before its name, the repair before the name fails for want of a token, and
all spacing at the end is gone. -/
theorem run_fixNameBefore_of_endsHeader {draft : Draft} (ho : draft.Owned) {finding : Finding}
    {t : TokenId} (htoken : finding.token = some t) (hends : EndsHeader draft.entries t) :
    ∃ after, (fixNameBefore finding).run draft = .error .noToken after ∧
      after.entries = draft.entries.rdropWhile Entry.isSpace ∧ after.entries ≠ draft.entries := by
  obtain ⟨front, keyword, first, rest, hsplit, hkeyword, rfl, hspaces⟩ := hends
  obtain ⟨after, hrun, hafter⟩ :=
    fixNameBefore_fails hsplit hkeyword hspaces htoken draft (Draft.shows_of_owned ho)
  have hentries : after.entries = front ++ [keyword] := hafter.entries_eq
  refine ⟨after, hrun, ?_, ?_⟩
  · rw [hentries, hsplit, rdropWhile_spaces (isSpace_of_isKeyword hkeyword) hspaces]
  · rw [hentries, hsplit]
    simp

/-- **When a failed repair keeps the tokens.** In a stream that owns its tokens, a bundled repair
that fails at a token of the stream leaves the same tokens in the same order with the same values,
unless it is the repair before a name, a header keyword stands directly before the token, and from
the token on there is nothing but spacing. The failure is a refusal then, and in the other case a
missing token, with all spacing at the end taken out. -/
theorem failed_fix_keeps_iff {draft : Draft} (ho : draft.Owned) {fix : Finding → Edit Unit}
    (hfix : fix ∈ bundledFixes) {finding : Finding} {t : TokenId}
    (htoken : finding.token = some t) (hlive : draft.isLive t = true) :
    ((∀ fault after, (fix finding).run draft = .error fault after →
        after.entries = draft.entries) ↔
      ¬(fix = fixNameBefore ∧ EndsHeader draft.entries t)) ∧
    ∀ fault after, (fix finding).run draft = .error fault after →
      ((∃ refusal, fault = .refused refusal) ∧ after.entries = draft.entries) ∨
        fault = .noToken ∧ after.entries = draft.entries.rdropWhile Entry.isSpace := by
  by_cases hends : fix = fixNameBefore ∧ EndsHeader draft.entries t
  · obtain ⟨rfl, hends⟩ := hends
    obtain ⟨left, hleft, hentries, hlost⟩ := run_fixNameBefore_of_endsHeader ho htoken hends
    refine ⟨iff_of_false (fun hkeeps => hlost (hkeeps _ _ hleft)) (not_not_intro ⟨rfl, hends⟩),
      fun fault after hrun => .inr ?_⟩
    cases hleft.symm.trans hrun
    exact ⟨rfl, hentries⟩
  · obtain ⟨pre, entry, post, hsplit, rfl⟩ := exists_split_of_isLive ho hlive
    have hatomic : (fix finding).Atomic ⟨draft.entries, draft.pool.size⟩ :=
      fix_atomic hfix hsplit htoken hends
    have hrefused : ∀ fault after, (fix finding).run draft = .error fault after →
        (∃ refusal, fault = .refused refusal) ∧ after.entries = draft.entries :=
      fun fault after hrun => hatomic.refused (Draft.shows_of_owned ho) hrun
    exact ⟨iff_of_true (fun fault after hrun => (hrefused fault after hrun).2) hends,
      fun fault after hrun => .inl (hrefused fault after hrun)⟩

/-- At the keyword itself the repair before a name is refused, and nothing changes; at the spacing
after the keyword the spacing is lost. -/
theorem failed_fix_keeps_iff_loneKeyword :
    Linter.loneKeyword.Owned ∧ fixNameBefore ∈ bundledFixes ∧
    (∀ fault after,
      (fixNameBefore ⟨nameBefore, .error, nameBeforeMessage, ⟨1, 1⟩, some 0⟩).run
          Linter.loneKeyword = .error fault after →
        after.entries = Linter.loneKeyword.entries) ∧
    ¬∀ fault after,
      (fixNameBefore ⟨nameBefore, .error, nameBeforeMessage, ⟨1, 6⟩, some 1⟩).run
          Linter.loneKeyword = .error fault after →
        after.entries = Linter.loneKeyword.entries := by
  have ho : Linter.loneKeyword.Owned := Draft.owned_ofLexemes _ _
  have hfix : fixNameBefore ∈ bundledFixes := by simp [bundledFixes]
  have hentries : Linter.loneKeyword.entries =
      [⟨0, ⟨.classWord, "class"⟩, ⟨1, 1⟩⟩, ⟨1, ⟨.whitespace, "  "⟩, ⟨1, 6⟩⟩] := rfl
  refine ⟨ho, hfix, (failed_fix_keeps_iff ho hfix rfl (by decide)).1.2 ?_, fun hkeeps => ?_⟩
  · rintro ⟨-, front, keyword, first, rest, hsplit, -, hfirst, -⟩
    rw [hentries] at hsplit
    cases front with
    | nil =>
        obtain ⟨-, hsplit⟩ := List.cons.inj hsplit
        obtain ⟨rfl, -⟩ := List.cons.inj hsplit
        cases hfirst
    | cons entry front =>
        have hlength := congrArg List.length hsplit
        simp only [List.length_cons, List.length_append, List.length_nil] at hlength
        omega
  · refine (failed_fix_keeps_iff ho hfix rfl (by decide)).1.1 hkeeps
      ⟨rfl, [], _, _, [], hentries, ?_⟩
    decide

/-- A header with too much space before its name. -/
def wideHeader : Draft :=
  .ofLexemes "s0" [⟨.classWord, "class", ⟨1, 1⟩⟩, ⟨.whitespace, "  ", ⟨1, 6⟩⟩,
    ⟨.identifier, "x", ⟨1, 8⟩⟩]

/-- The space before the name is reported, and the name is taken out before the repair. The repair
fails, and the spacing after the keyword is gone. -/
theorem failed_fix_wideHeader :
    ∃ finding checked cut after, checkNameBefore.run wideHeader = .ok [finding] checked ∧
      (Edit.remove 2).run checked = .ok 2 cut ∧ cut.Owned ∧
      finding.token = some 1 ∧ cut.isLive 1 = true ∧
      (fixNameBefore finding).run cut = .error .noToken after ∧
      cut.render = "class  " ∧ after.render = "class" ∧ after.entries ≠ cut.entries := by
  have ho : wideHeader.Owned := Draft.owned_ofLexemes _ _
  refine ⟨⟨nameBefore, .error, nameBeforeMessage, ⟨1, 6⟩, some 1⟩, _, _, _, rfl, rfl, ?_, rfl, ?_,
    rfl, ?_, ?_, ?_⟩
  · have hplace : wideHeader.refreshed.stream.order[2]? = some 2 := rfl
    exact ho.refreshed.removeAt hplace
  · decide
  · decide +kernel
  · decide +kernel
  · decide

end ManifestLint
