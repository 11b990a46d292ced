import ManifestLint.Proofs.Lint.Flaws
import ManifestLint.Proofs.Rule.ClassHeader
import ManifestLint.Proofs.Stream.ReadsOnly

set_option autoImplicit false

/-! # What the rules on headers report

A header of a stream is a keyword and the next token that is no spacing, if that is a name. In a
source the two rules on headers report those with something other than one space between the
keyword and the name, or between the name and the token after it, and nothing else
(`headers_reported`). -/

namespace ManifestLint.ClassHeader

open Edit

/-- In the list a header stands between `pre` and `post`. -/
structure Header (entries pre : List Entry) (keyword : Entry) (gap : List Entry) (name : Entry)
    (post : List Entry) : Prop where
  split : entries = pre ++ keyword :: (gap ++ name :: post)
  keyword : keyword.kind = .classWord ∨ keyword.kind = .defineWord
  gap : ∀ entry ∈ gap, entry.isSpace = true
  name : name.kind = .identifier

variable {entries pre post : List Entry} {keyword name entry : Entry} {gap : List Entry}

theorem isKeyword_iff (kind : Kind) :
    isKeyword kind = true ↔ kind = .classWord ∨ kind = .defineWord := by
  cases kind <;> decide

theorem Header.isSpace_keyword (h : Header entries pre keyword gap name post) :
    keyword.isSpace = false :=
  isSpace_of_isKeyword ((isKeyword_iff keyword.kind).2 h.keyword)

theorem Header.isSpace_name (h : Header entries pre keyword gap name post) :
    name.isSpace = false := Entry.isSpace_of_kind h.name rfl

/-! ## Before the name -/

/-- A keyword is not one space away from the name in its header; that is reported at whatever
comes right after the keyword. -/
def FlawBeforeName (entries : List Entry) (keyword entry : Entry) : Prop :=
  ∃ pre gap name post, Header entries pre keyword gap name post ∧ Entry.text gap ≠ " " ∧
    (gap ++ name :: post).head? = some entry

theorem anchored_nameBeforeGap : nameBeforeGap.Anchored := by
  right
  intro site entry hentry
  rcases Option.or_eq_some_iff.1 hentry with hgap | ⟨-, hnext⟩
  · exact List.mem_append_left _ (List.mem_of_mem_head? hgap)
  · exact List.mem_append_right _ (Option.mem_toList.2 hnext)

theorem flawed_nameBeforeGap_iff {source path : String} {draft : Draft}
    (h : Draft.ofSource source path = .ok draft) (keyword entry : Entry) :
    nameBeforeGap.Flawed draft.entries keyword entry ↔
      FlawBeforeName draft.entries keyword entry := by
  refine (GapRule.flawed_single_iff h).trans ?_
  constructor
  · rintro ⟨site, pre, post, hwithin, rfl, ⟨happlies, htext⟩, hanchor⟩
    obtain ⟨hkeyword, name, hname, hkind⟩ := wantsSpaceBeforeName_iff.1 happlies
    obtain ⟨rest, rfl, -⟩ := hwithin.split_next hname
    refine ⟨pre, site.gap, name, rest, ?_, htext, ?_⟩
    · exact ⟨hwithin.split, (isKeyword_iff _).1 hkeyword, hwithin.gap, hkind⟩
    · exact (head?_gap_append hwithin).trans hanchor
  · rintro ⟨pre, gap, name, post, hheader, htext, hentry⟩
    have hwithin := Site.within_of_split hheader.split hheader.isSpace_keyword hheader.gap
      hheader.isSpace_name
    refine ⟨_, pre, _, hwithin, rfl, ⟨wantsSpaceBeforeName_iff.2 ?_, htext⟩, ?_⟩
    · exact ⟨(isKeyword_iff _).2 hheader.keyword, name, rfl, hheader.name⟩
    · exact (head?_gap_append hwithin).symm.trans hentry

/-! ## After the name -/

/-- The name in a header is not one space away from the next item; that is reported at the
name. -/
def FlawAfterName (entries : List Entry) (name entry : Entry) : Prop :=
  entry = name ∧ ∃ pre keyword gap gap' item post,
    Header entries pre keyword gap name (gap' ++ item :: post) ∧
      (∀ e ∈ gap', e.isSpace = true) ∧ item.isSpace = false ∧ Entry.text gap' ≠ " "

theorem anchored_nameAfterGap : nameAfterGap.Anchored := by
  left
  rintro site _ ⟨⟩
  exact List.mem_cons_self

theorem flawed_nameAfterGap_iff {source path : String} {draft : Draft}
    (h : Draft.ofSource source path = .ok draft) (name entry : Entry) :
    nameAfterGap.Flawed draft.entries name entry ↔ FlawAfterName draft.entries name entry := by
  refine (GapRule.flawed_single_iff h).trans ?_
  constructor
  · rintro ⟨site, pre, post, hwithin, rfl, ⟨happlies, htext⟩, hanchor⟩
    obtain ⟨⟨hkind, keyword, hbefore, hkeyword⟩, item, hitem⟩ := wantsSpaceAfterName_iff.1 happlies
    obtain ⟨rest, rfl, -⟩ := hwithin.split_next hitem
    obtain ⟨front, gap, rfl, hgap⟩ := exists_of_find?_reverse (hwithin.before.trans hbefore)
    refine ⟨(Option.some.inj hanchor).symm, front, keyword, gap, site.gap, item, rest, ?_,
      hwithin.gap, hwithin.next item hitem, htext⟩
    refine ⟨?_, (isKeyword_iff _).1 hkeyword, hgap, hkind⟩
    rw [hwithin.split]
    simp
  · rintro ⟨rfl, pre, keyword, gap, gap', item, post, hheader, hgap', hitem, htext⟩
    have hsplit : draft.entries = (pre ++ keyword :: gap) ++ entry :: (gap' ++ item :: post) := by
      rw [hheader.split]
      simp
    have hwithin := Site.within_of_split hsplit hheader.isSpace_name hgap' hitem
    rw [find?_reverse_stretch hheader.isSpace_keyword hheader.gap] at hwithin
    refine ⟨_, _, _, hwithin, rfl, ⟨wantsSpaceAfterName_iff.2 ?_, htext⟩, rfl⟩
    exact ⟨⟨hheader.name, keyword, rfl, (isKeyword_iff _).2 hheader.keyword⟩, item, rfl⟩

/-! ## The checks -/

/-- **What the rules on headers report.** On the stream of a source the one reports exactly the
headers with something other than one space between the keyword and the name, right after the
keyword, and the other exactly those with something other than one space between the name and a
token after it, at the name. Both do so in the order of the source and once for each header, and
neither changes a token. -/
theorem headers_reported {source path : String} {draft : Draft}
    (h : Draft.ofSource source path = .ok draft) :
    Entry.text draft.entries = source ∧
      (∃ found after, checkNameBefore.Reports draft nameBefore nameBeforeMessage
        (FlawBeforeName draft.entries) found after) ∧
      ∃ found after, checkNameAfter.Reports draft nameAfter nameAfterMessage
        (FlawAfterName draft.entries) found after := by
  refine ⟨Draft.text_entries h, ?_, ?_⟩
  · obtain ⟨found, after, hreports⟩ := GapRule.reports checkNameBefore_reads
      looksOnly_checkNameBefore.readsOnly anchored_nameBeforeGap (Draft.owned_ofSource h)
    exact ⟨found, after, hreports.congr (flawed_nameBeforeGap_iff h)⟩
  · obtain ⟨found, after, hreports⟩ := GapRule.reports checkNameAfter_reads
      looksOnly_checkNameAfter.readsOnly anchored_nameAfterGap (Draft.owned_ofSource h)
    exact ⟨found, after, hreports.congr (flawed_nameAfterGap_iff h)⟩

/-- Two spaces before a name, and none after it: the one rule reports the spaces, and the other the
name. -/
theorem headers_reported_twoSpaces :
    ∃ draft, Draft.ofSource "class  a\x7b\x7d" "init.pp" = .ok draft ∧
      Entry.text draft.entries = "class  a\x7b\x7d" ∧
      (∃ found after, checkNameBefore.Reports draft nameBefore nameBeforeMessage
          (FlawBeforeName draft.entries) found after ∧
        found.map (fun pair => (some pair.2.id, pair.2.position)) = [(some 1, ⟨1, 6⟩)]) ∧
      ∃ found after, checkNameAfter.Reports draft nameAfter nameAfterMessage
          (FlawAfterName draft.entries) found after ∧
        found.map (fun pair => (some pair.2.id, pair.2.position)) = [(some 2, ⟨1, 8⟩)] := by
  obtain ⟨draft, h⟩ := Draft.ofSource_of_error
    (show (Lexing.ofSource "class  a\x7b\x7d").error = none by decide +kernel) "init.pp"
  obtain ⟨htext, ⟨before, _, hbefore⟩, after, _, hafter⟩ := headers_reported h
  refine ⟨draft, h, htext, ⟨before, _, hbefore, ?_⟩, after, _, hafter, ?_⟩
  · refine Option.some.inj ((hbefore.anchorsIn?_eq h).symm.trans ?_)
    decide +kernel
  · refine Option.some.inj ((hafter.anchorsIn?_eq h).symm.trans ?_)
    decide +kernel

end ManifestLint.ClassHeader
