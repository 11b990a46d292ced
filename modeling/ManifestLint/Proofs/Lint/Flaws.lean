import ManifestLint.Proofs.Layout.Sites
import ManifestLint.Proofs.Lint.SourceKept
import ManifestLint.Proofs.Rule.Gap
import ManifestLint.Proofs.Token.Spacing

set_option autoImplicit false

/-! # What a check reports

A *flaw* is a relation between two tokens of a stream: one that something is wrong with, its
subject, and the one at which that is reported, its anchor. A check *reports* the flaws if it
finds exactly them, each of them once and in the order of the stream, and does nothing else to the
stream but look at it.

A rule that implements a gap rule reports the gaps that are not as the gap rule wants them. The
streams of sources have one more property, by which the gap of tokens that a rule looks at says
the same as the text between two tokens: a gap of one space is one token (`text_gap_iff`). -/

namespace ManifestLint

/-- The check finds the flaws of the draft, `found` of them, and leaves `after`, which has the
same tokens in the same order. -/
structure Edit.Reports (check : Edit (List Finding)) (draft : Draft) (name message : String)
    (flaw : Entry → Entry → Prop) (found : List (Entry × Entry)) (after : Draft) : Prop where
  /-- One finding for each flaw that is found, at its anchor. -/
  run_eq : check.run draft = .ok
    (found.map fun pair => ⟨name, .error, message, pair.2.position, some pair.2.id⟩) after
  mem_iff : ∀ subject anchor, (subject, anchor) ∈ found ↔ flaw subject anchor
  /-- The tokens of the draft are different from each other, so that what comes in their order
  comes once. -/
  nodup : (draft.entries.map Entry.id).Nodup
  subjects : (found.map Prod.fst).Sublist draft.entries
  anchors : (found.map Prod.snd).Sublist draft.entries
  pool_eq : after.pool = draft.pool
  tokens_eq : after.stream.tokens = draft.stream.tokens

/-! ## Gap rules -/

namespace GapRule

variable {rule : GapRule} {site : Site Entry} {subject anchor : Entry}

/-- The head before a gap that is not as the rule wants it, and where that is reported. -/
def flaw (rule : GapRule) (site : Site Entry) : Option (Entry × Entry) :=
  if rule.Settled site.pieces then none
  else (rule.anchor site).map fun anchor => (site.head, anchor)

/-- The rule is not content with a gap of the list after `subject`, and says so at `anchor`. -/
def Flawed (rule : GapRule) (entries : List Entry) (subject anchor : Entry) : Prop :=
  ∃ site pre post, site.Within Entry.isSpace entries pre post ∧ site.head = subject ∧
    ¬rule.Settled site.pieces ∧ rule.anchor site = some anchor

theorem flaw_eq_some_iff :
    rule.flaw site = some (subject, anchor) ↔
      site.head = subject ∧ ¬rule.Settled site.pieces ∧ rule.anchor site = some anchor := by
  unfold flaw
  by_cases hsettled : rule.Settled site.pieces
  · simp [hsettled]
  · simp [hsettled, and_comm]

theorem finding_eq_map_flaw (rule : GapRule) (site : Site Entry) :
    rule.finding site = (rule.flaw site).map fun pair =>
      ⟨rule.name, .error, rule.message, pair.2.position, some pair.2.id⟩ := by
  unfold finding flaw
  by_cases hsettled : rule.Settled site.pieces
  · rw [if_pos hsettled, if_pos hsettled]
    rfl
  · rw [if_neg hsettled, if_neg hsettled, Option.map_map]
    rfl

/-- Where a rule reports a gap: at the head before it or in it, or in it or right after it. -/
def Anchored (rule : GapRule) : Prop :=
  (∀ site, ∀ entry ∈ rule.anchor site, entry ∈ site.head :: site.gap) ∨
    ∀ site, ∀ entry ∈ rule.anchor site, entry ∈ site.gap ++ site.next.toList

theorem mem_anchor_of_mem_flaw (site : Site Entry)
    (h : anchor ∈ (rule.flaw site).map Prod.snd) : anchor ∈ rule.anchor site := by
  obtain ⟨pair, hpair, rfl⟩ := Option.map_eq_some_iff.1 h
  exact (flaw_eq_some_iff.1 hpair).2.2

/-- The gaps that a rule is not content with are reported in the order of the list. -/
theorem anchors_sublist (hanchored : rule.Anchored) (view : View) :
    ((view.sites.filterMap rule.flaw).map Prod.snd).Sublist view.entries := by
  rw [List.map_filterMap]
  rcases hanchored with h | h
  · exact Layout.filterMap_sites_sublist fun site anchor hanchor =>
      h site anchor (mem_anchor_of_mem_flaw site hanchor)
  · exact Layout.filterMap_sites_sublist_of_next fun site anchor hanchor =>
      h site anchor (mem_anchor_of_mem_flaw site hanchor)

theorem subjects_sublist (rule : GapRule) (view : View) :
    ((view.sites.filterMap rule.flaw).map Prod.fst).Sublist view.entries := by
  rw [List.map_filterMap]
  refine Layout.filterMap_sites_sublist fun site subject hsubject => ?_
  obtain ⟨pair, hpair, rfl⟩ := Option.map_eq_some_iff.1 hsubject
  rw [← (flaw_eq_some_iff.1 hpair).1]
  exact List.mem_cons_self

theorem mem_flaws_iff (rule : GapRule) (view : View) :
    (subject, anchor) ∈ view.sites.filterMap rule.flaw ↔
      rule.Flawed view.entries subject anchor := by
  rw [List.mem_filterMap]
  constructor
  · rintro ⟨site, hsite, hflaw⟩
    obtain ⟨pre, post, hwithin⟩ := View.exists_within hsite
    exact ⟨site, pre, post, hwithin, flaw_eq_some_iff.1 hflaw⟩
  · rintro ⟨site, pre, post, hwithin, hflaw⟩
    exact ⟨site, Layout.mem_sites_iff.2 ⟨pre, post, hwithin⟩, flaw_eq_some_iff.2 hflaw⟩

/-- **A check that goes through the gaps** reports those that the rule is not content with. -/
theorem reports {check : Edit (List Finding)} {draft : Draft}
    (hreads : ∀ view, check.Reads view (view.sites.filterMap rule.finding))
    (hreadsOnly : check.ReadsOnly) (hanchored : rule.Anchored) (howned : draft.Owned) :
    ∃ found after, check.Reports draft rule.name rule.message (rule.Flawed draft.entries) found
      after := by
  have hshows := Draft.shows_of_owned howned
  obtain ⟨after, hrun, -⟩ := hreads _ draft hshows
  refine ⟨(View.sites ⟨draft.entries, draft.pool.size⟩).filterMap rule.flaw, after, ?_⟩
  have hsame : after = draft ∨ after = draft.refreshed := by
    rw [← Edit.final_of_ok hrun]
    exact hreadsOnly draft
  refine ⟨?_, fun subject anchor => mem_flaws_iff rule _, hshows.nodup,
    subjects_sublist rule _, anchors_sublist hanchored _, ?_, ?_⟩
  · rw [hrun, List.map_filterMap]
    simp only [finding_eq_map_flaw]
  · rcases hsame with rfl | rfl
    · rfl
    · rfl
  · rcases hsame with rfl | rfl
    · rfl
    · rw [Draft.refreshed_stream, Stream.refresh_tokens]

end GapRule

/-- The flaws that a check reports may be described in another way. -/
theorem Edit.Reports.congr {check : Edit (List Finding)} {draft after : Draft}
    {name message : String} {flaw flaw' : Entry → Entry → Prop} {found : List (Entry × Entry)}
    (h : check.Reports draft name message flaw found after)
    (hiff : ∀ subject anchor, flaw subject anchor ↔ flaw' subject anchor) :
    check.Reports draft name message flaw' found after :=
  { h with mem_iff := fun subject anchor => (h.mem_iff subject anchor).trans (hiff subject anchor) }

/-- The tokens that a check reports in a source, with their places; nothing if there is no stream,
or the check fails. -/
def anchorsIn? (check : Edit (List Finding)) (source name : String) :
    Option (List (Option TokenId × Position)) :=
  (Draft.ofSource source name).toOption.bind fun draft =>
    match check.run draft with
    | .ok findings _ => some (findings.map fun finding => (finding.token, finding.position))
    | .error _ _ => none

/-- What is reported in a source is reported at the anchors of the flaws. -/
theorem Edit.Reports.anchorsIn?_eq {check : Edit (List Finding)} {source name : String}
    {draft after : Draft} {rule message : String} {flaw : Entry → Entry → Prop}
    {found : List (Entry × Entry)} (h : check.Reports draft rule message flaw found after)
    (hsource : Draft.ofSource source name = .ok draft) :
    anchorsIn? check source name =
      some (found.map fun pair => (some pair.2.id, pair.2.position)) := by
  rw [anchorsIn?, hsource, Except.toOption, Option.bind_some, h.run_eq]
  simp

/-! ## Gaps in a source -/

/-- The text of some entries. -/
def Entry.text (entries : List Entry) : String := Piece.text (entries.map Entry.piece)

theorem Draft.owned_ofSource {source name : String} {draft : Draft}
    (h : Draft.ofSource source name = .ok draft) : draft.Owned := by
  obtain ⟨lexemes, -, rfl⟩ := exists_lexemes h
  exact owned_ofLexemes name lexemes

/-- The tokens of a source, with the spacing between them, are its text. -/
theorem Draft.text_entries {source name : String} {draft : Draft}
    (h : Draft.ofSource source name = .ok draft) : Entry.text draft.entries = source := by
  rw [Entry.text, ← pieces_eq, ← render_eq, render_ofSource h]

/-- Between two tokens of a source, or after one, the text of the spacing is one space exactly if
the spacing is one token that is a space. -/
theorem Draft.text_gap_iff {source name : String} {draft : Draft}
    (h : Draft.ofSource source name = .ok draft) {site : Site Entry} {pre post : List Entry}
    (hwithin : site.Within Entry.isSpace draft.entries pre post) :
    Entry.text site.gap = " " ↔ site.gap.map Entry.piece = oneSpace := by
  obtain ⟨lexemes, hlexes, rfl⟩ := exists_lexemes h
  have hpieces := (Lexing.lexes_of_toExcept hlexes).1
  rw [← pieces_ofLexemes name, pieces_eq, hwithin.split, List.map_append, List.map_cons,
    List.map_append] at hpieces
  obtain ⟨context, hhead⟩ := hpieces.of_append
  rw [← hhead.charsOf_gap_iff hwithin.head (List.forall_mem_map.2 hwithin.gap),
    ← Piece.toList_text, ← String.toList_inj]
  rfl

/-- In a source a rule that wants one space is not content where it applies and the text between
two tokens is not one space. -/
theorem GapRule.flawed_single_iff {source name : String} {draft : Draft}
    (h : Draft.ofSource source name = .ok draft) {rule message : String}
    {applies : Site Piece → Bool} {where' : Site Entry → Option Entry} {subject anchor : Entry} :
    (single rule message applies where').Flawed draft.entries subject anchor ↔
      ∃ site pre post, site.Within Entry.isSpace draft.entries pre post ∧ site.head = subject ∧
        (applies site.pieces = true ∧ Entry.text site.gap ≠ " ") ∧ where' site = some anchor := by
  refine exists_congr fun site => exists_congr fun pre => exists_congr fun post => ?_
  refine and_congr_right fun hwithin => and_congr_right' (and_congr_left' ?_)
  have hgap : Entry.text site.gap = " " ↔ site.pieces.gap = oneSpace :=
    Draft.text_gap_iff h hwithin
  rw [single_settled_iff, Classical.not_imp, ← hgap]

end ManifestLint
