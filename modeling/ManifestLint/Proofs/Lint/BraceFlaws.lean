import ManifestLint.Proofs.Lint.Flaws
import ManifestLint.Proofs.Rule.OpeningBrace
import ManifestLint.Proofs.Stream.ReadsOnly

set_option autoImplicit false

/-! # What the rules on braces report

The flaws that the two rules on opening braces report in a source, said about its tokens and its
text only (`braces_reported`). Before a brace: the last code before it, unless it is of a kind that
needs no space, is not one space away. After a brace: what directly follows it, if that is neither
one space nor a line end nor a bracket or brace that needs no space, or the second of two line
ends. -/

namespace ManifestLint.OpeningBrace

open Edit

variable {entries pre post : List Entry} {site : Site Entry} {code brace entry : Entry}

/-! ## Before the brace -/

/-- The last code before a brace needs a space after it, and the text between the two is not one
space. -/
def FlawBefore (entries : List Entry) (code brace : Entry) : Prop :=
  brace.kind = .leftBrace ∧
    code.kind ∉ [Kind.leftBracket, .leftBrace, .colon, .comma, .comment] ∧
    ∃ gap, Neighbours Entry.isSpace entries code gap brace ∧ Entry.text gap ≠ " "

theorem beforeExempt_eq_false_iff (kind : Kind) :
    beforeExempt kind = false ↔
      kind ∉ [Kind.leftBracket, .leftBrace, .colon, .comma, .comment] := by
  cases kind <;> decide

theorem anchored_beforeGap : beforeGap.Anchored := by
  right
  intro site brace hbrace
  exact List.mem_append_right _ (Option.mem_toList.2 hbrace)

/-- The gaps before braces that the rule is not content with, in a source. -/
theorem flawed_beforeGap_iff {source name : String} {draft : Draft}
    (h : Draft.ofSource source name = .ok draft) (code brace : Entry) :
    beforeGap.Flawed draft.entries code brace ↔ FlawBefore draft.entries code brace := by
  refine (GapRule.flawed_single_iff h).trans ?_
  constructor
  · rintro ⟨site, pre, post, hwithin, rfl, ⟨happlies, htext⟩, hnext⟩
    obtain ⟨⟨brace', hnext', hbrace⟩, hexempt⟩ := wantsSpaceBefore_iff.1 happlies
    obtain rfl : brace' = brace := Option.some.inj (hnext'.symm.trans hnext)
    exact ⟨hbrace, (beforeExempt_eq_false_iff _).1 hexempt, site.gap,
      hwithin.neighbours hnext, htext⟩
  · rintro ⟨hbrace, hcode, gap, hneighbours, htext⟩
    obtain ⟨before, pre, post, hwithin⟩ := hneighbours.exists_within
    refine ⟨_, pre, post, hwithin, rfl, ⟨wantsSpaceBefore_iff.2 ?_, htext⟩, rfl⟩
    exact ⟨⟨brace, rfl, hbrace⟩, (beforeExempt_eq_false_iff _).2 hcode⟩

/-! ## After the brace -/

/-- Something is wrong with what follows a brace, and it is reported at the given entry: blanks
that are not one space, something that needs a space before it, or a second line end. -/
inductive BlockFlaw : List Entry → Entry → Prop
  | blanks {following : Entry} {rest : List Entry} :
      following.kind = .whitespace → following.piece.value ≠ " " →
      BlockFlaw (following :: rest) following
  | crowded {following : Entry} {rest : List Entry} :
      following.kind ∉ [Kind.whitespace, .newline, .leftBracket, .leftBrace, .rightBrace] →
      BlockFlaw (following :: rest) following
  | blankLine {line second : Entry} {rest : List Entry} :
      line.kind = .newline → second.kind = .newline → BlockFlaw (line :: second :: rest) second

/-- Something is wrong with what follows a brace of the list. -/
def FlawAfter (entries : List Entry) (brace entry : Entry) : Prop :=
  brace.kind = .leftBrace ∧ ∃ pre post, entries = pre ++ brace :: post ∧ BlockFlaw post entry

theorem anchored_afterGap : afterGap.Anchored := by
  right
  rintro ⟨before, head, gap, next⟩ entry hentry
  change afterAnchor _ = some entry at hentry
  cases gap with
  | nil => exact List.mem_append_right _ (Option.mem_toList.2 hentry)
  | cons first rest =>
      refine List.mem_append_left _ ?_
      change (if first.kind = .newline then rest.head? else some first) = some entry at hentry
      by_cases hline : first.kind = .newline
      · rw [if_pos hline] at hentry
        exact List.mem_cons_of_mem _ (List.mem_of_mem_head? hentry)
      · rw [if_neg hline] at hentry
        cases hentry
        exact List.mem_cons_self

section After

variable {before next : Option Entry} {head first : Entry} {rest : List Entry}

theorem afterExempt_eq_false_iff (h : entry.isSpace = false) :
    afterExempt entry.kind = false ↔
      entry.kind ∉ [Kind.whitespace, .newline, .leftBracket, .leftBrace, .rightBrace] := by
  have hkind : entry.kind.isSpace = false := h
  revert hkind
  cases entry.kind <;> decide

/-- Nothing after a brace but code: it may need a space. -/
theorem blockFlaw_iff_nil
    (hwithin : Site.Within Entry.isSpace ⟨before, head, [], next⟩ entries pre post)
    (hkind : head.kind = .leftBrace) :
    ¬afterGap.Settled (Site.pieces ⟨before, head, [], next⟩) ∧ next = some entry ↔
      BlockFlaw post entry := by
  have hsettled : afterGap.Settled (Site.pieces ⟨before, head, [], next⟩) ↔
      ∀ following ∈ next, afterExempt following.kind = true :=
    (afterGap_settled_iff hkind).trans blockGap_nil_iff
  constructor
  · rintro ⟨hno, rfl⟩
    obtain ⟨rest, rfl⟩ := List.head?_eq_some_iff.1 hwithin.next_eq
    refine .crowded ((afterExempt_eq_false_iff (hwithin.next entry rfl)).1 ?_)
    by_contra hexempt
    refine hno (hsettled.2 ?_)
    rintro following ⟨⟩
    exact Bool.of_not_eq_false hexempt
  · intro hflaw
    cases post with
    | nil => cases hflaw
    | cons following rest =>
        obtain rfl : some following = next := hwithin.next_eq
        have hcode : following.isSpace = false := hwithin.next following rfl
        cases hflaw with
        | blanks hwhite _ => exact absurd hwhite (Entry.kind_ne hcode rfl)
        | crowded hcrowded =>
            refine ⟨fun h => ?_, rfl⟩
            have hexempt := hsettled.1 h entry rfl
            rw [(afterExempt_eq_false_iff hcode).2 hcrowded] at hexempt
            cases hexempt
        | blankLine hline _ => exact absurd hline (Entry.kind_ne hcode rfl)

/-- A line end after a brace: a second one must not follow it. -/
theorem blockFlaw_iff_line
    (hwithin : Site.Within Entry.isSpace ⟨before, head, first :: rest, next⟩ entries pre post)
    (hkind : head.kind = .leftBrace) (hline : first.kind = .newline) :
    ¬afterGap.Settled (Site.pieces ⟨before, head, first :: rest, next⟩) ∧
        rest.head? = some entry ↔
      BlockFlaw (first :: (rest ++ post)) entry := by
  have hsettled : afterGap.Settled (Site.pieces ⟨before, head, first :: rest, next⟩) ↔
      ∀ second ∈ rest.head?, second.kind ≠ .newline :=
    (afterGap_settled_iff hkind).trans (blockGap_newline_iff hline _)
  rw [hsettled]
  constructor
  · rintro ⟨hno, hsecond⟩
    obtain ⟨others, rfl⟩ := List.head?_eq_some_iff.1 hsecond
    refine .blankLine hline ?_
    simpa using hno
  · intro hflaw
    generalize hlist : first :: (rest ++ post) = following at hflaw
    cases hflaw with
    | blanks hwhite _ =>
        rw [← (List.cons.inj hlist).1, hline] at hwhite
        cases hwhite
    | crowded hcrowded =>
        rw [← (List.cons.inj hlist).1, hline] at hcrowded
        simp at hcrowded
    | blankLine _ hsecond =>
        -- a line end is an element of the gap, not the head after it
        cases rest with
        | nil =>
            have hpost : post = entry :: _ := (List.cons.inj hlist).2
            have hnext : next = some entry :=
              hwithin.next_eq.symm.trans (congrArg List.head? hpost)
            exact absurd hsecond (Entry.kind_ne (hwithin.next entry hnext) rfl)
        | cons second others =>
            have hsame : second = entry := (List.cons.inj (List.cons.inj hlist).2).1
            rw [List.head?_cons, hsame]
            exact ⟨fun hno => hno entry rfl hsecond, rfl⟩

/-- Blanks after a brace: they must be one space. -/
theorem blockFlaw_iff_blanks
    (hwithin : Site.Within Entry.isSpace ⟨before, head, first :: rest, next⟩ entries pre post)
    (hkind : head.kind = .leftBrace) (hline : first.kind ≠ .newline) :
    ¬afterGap.Settled (Site.pieces ⟨before, head, first :: rest, next⟩) ∧
        some first = some entry ↔
      BlockFlaw (first :: (rest ++ post)) entry := by
  have hspace : first.kind.isSpace = true := hwithin.gap first List.mem_cons_self
  constructor
  · rintro ⟨hno, hentry⟩
    obtain rfl : entry = first := (Option.some.inj hentry).symm
    rcases (Kind.isSpace_iff entry.kind).1 hspace with hwhite | hindent | hnewline
    · refine .blanks hwhite fun hvalue => hno (afterGap_settled_of_single hkind ?_)
      calc entry.piece = ⟨entry.kind, entry.piece.value⟩ := rfl
        _ = .singleSpace := by rw [hwhite, hvalue]; rfl
    · refine .crowded ?_
      rw [hindent]
      decide
    · exact absurd hnewline hline
  · intro hflaw
    have hentry : entry = first ∧ first.piece ≠ .singleSpace := by
      generalize hlist : first :: (rest ++ post) = following at hflaw
      cases hflaw with
      | blanks _ hvalue =>
          obtain ⟨rfl, -⟩ := List.cons.inj hlist
          exact ⟨rfl, fun hsingle => hvalue (congrArg Piece.value hsingle)⟩
      | crowded hcrowded =>
          obtain ⟨rfl, -⟩ := List.cons.inj hlist
          refine ⟨rfl, fun hsingle => ?_⟩
          rw [show first.kind = .whitespace from congrArg Piece.kind hsingle] at hcrowded
          simp at hcrowded
      | blankLine hnewline _ => exact absurd ((List.cons.inj hlist).1 ▸ hnewline) hline
    obtain ⟨rfl, hsingle⟩ := hentry
    have hfinding : afterGap.finding ⟨before, head, entry :: rest, next⟩ = some _ :=
      afterGap_finding_of_blanks hkind hspace hsingle hline
    exact ⟨(GapRule.not_settled_of_finding hfinding).1, rfl⟩

theorem blockFlaw_iff (hwithin : site.Within Entry.isSpace entries pre post)
    (hkind : site.head.kind = .leftBrace) :
    ¬afterGap.Settled site.pieces ∧ afterGap.anchor site = some entry ↔
      BlockFlaw (site.gap ++ post) entry := by
  obtain ⟨before, head, gap, next⟩ := site
  cases gap with
  | nil => exact blockFlaw_iff_nil hwithin hkind
  | cons first rest =>
      by_cases hline : first.kind = .newline
      · have hanchor : afterGap.anchor ⟨before, head, first :: rest, next⟩ = rest.head? :=
          if_pos hline
        rw [hanchor]
        exact blockFlaw_iff_line hwithin hkind hline
      · have hanchor : afterGap.anchor ⟨before, head, first :: rest, next⟩ = some first :=
          if_neg hline
        rw [hanchor]
        exact blockFlaw_iff_blanks hwithin hkind hline

end After

/-- The gaps after braces that the rule is not content with. -/
theorem flawed_afterGap_iff (entries : List Entry) (brace entry : Entry) :
    afterGap.Flawed entries brace entry ↔ FlawAfter entries brace entry := by
  constructor
  · rintro ⟨site, pre, post, hwithin, rfl, hflaw⟩
    have hkind := kind_of_not_settled hflaw.1
    exact ⟨hkind, pre, _, hwithin.split, (blockFlaw_iff hwithin hkind).1 hflaw⟩
  · rintro ⟨hkind, pre, rest, hsplit, hflaw⟩
    have hcode : brace.isSpace = false := Entry.isSpace_of_kind hkind rfl
    obtain ⟨before, gap, post, next, rfl, hwithin⟩ := Site.exists_within_of_split hsplit hcode
    exact ⟨_, pre, post, hwithin, rfl, (blockFlaw_iff hwithin hkind).2 hflaw⟩

/-! ## The checks -/

/-- **What the rules on braces report.** On the stream of a source the one reports exactly the
braces with the last code before them not one space away, where that code needs a space after it,
and the other exactly what is wrong right after a brace. Both do so in the order of the source and
at most once for each brace, and neither changes a token. -/
theorem braces_reported {source name : String} {draft : Draft}
    (h : Draft.ofSource source name = .ok draft) :
    Entry.text draft.entries = source ∧
      (∃ found after, checkBefore.Reports draft beforeName beforeMessage
        (FlawBefore draft.entries) found after) ∧
      ∃ found after, checkAfter.Reports draft afterName afterMessage
        (FlawAfter draft.entries) found after := by
  refine ⟨Draft.text_entries h, ?_, ?_⟩
  · obtain ⟨found, after, hreports⟩ := GapRule.reports checkBefore_reads
      looksOnly_checkBefore.readsOnly anchored_beforeGap (Draft.owned_ofSource h)
    exact ⟨found, after, hreports.congr (flawed_beforeGap_iff h)⟩
  · obtain ⟨found, after, hreports⟩ := GapRule.reports checkAfter_reads
      looksOnly_checkAfter.readsOnly anchored_afterGap (Draft.owned_ofSource h)
    exact ⟨found, after, hreports.congr (flawed_afterGap_iff draft.entries)⟩

/-- A brace directly after a name, and a blank line after the brace: the one rule reports the brace,
and the other the second line end after it. -/
theorem braces_reported_blankLine :
    ∃ draft, Draft.ofSource "class a\x7b\n\n\x7d" "init.pp" = .ok draft ∧
      Entry.text draft.entries = "class a\x7b\n\n\x7d" ∧
      (∃ found after, checkBefore.Reports draft beforeName beforeMessage
          (FlawBefore draft.entries) found after ∧
        found.map (fun pair => (some pair.2.id, pair.2.position)) = [(some 3, ⟨1, 8⟩)]) ∧
      ∃ found after, checkAfter.Reports draft afterName afterMessage
          (FlawAfter draft.entries) found after ∧
        found.map (fun pair => (some pair.2.id, pair.2.position)) = [(some 5, ⟨2, 1⟩)] := by
  obtain ⟨draft, h⟩ := Draft.ofSource_of_error
    (show (Lexing.ofSource "class a\x7b\n\n\x7d").error = none by decide +kernel) "init.pp"
  obtain ⟨htext, ⟨before, _, hbefore⟩, after, _, hafter⟩ := braces_reported h
  refine ⟨draft, h, htext, ⟨before, _, hbefore, ?_⟩, after, _, hafter, ?_⟩
  · refine Option.some.inj ((hbefore.anchorsIn?_eq h).symm.trans ?_)
    decide +kernel
  · refine Option.some.inj ((hafter.anchorsIn?_eq h).symm.trans ?_)
    decide +kernel

end ManifestLint.OpeningBrace
