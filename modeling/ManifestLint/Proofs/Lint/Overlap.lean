import ManifestLint.Proofs.Lint.Tidy

set_option autoImplicit false

/-! # Where rules overlap

Once a rule has repaired a gap, all bundled rules are content with it (`settled_regapAll`): two of
them are never after different things. Two different rules can be discontented with one gap only
where it stands between the name of a header and an opening brace, which the rule on the space
before a brace and the rule on the space after a name both are about (`names_of_not_settled`). -/

namespace ManifestLint

open OpeningBrace ClassHeader

variable {spec other : GapRule} {site : Site Piece}

/-- What is said by a rule that is not content with a gap. -/
theorem cases_of_not_settled (hspec : spec ∈ bundledGapRules) (h : ¬spec.Settled site) :
    (spec = beforeGap ∧ wantsSpaceBefore site = true) ∨
    (spec = afterGap ∧ site.head.kind = .leftBrace) ∨
    (spec = nameBeforeGap ∧ wantsSpaceBeforeName site = true) ∨
    (spec = nameAfterGap ∧ wantsSpaceAfterName site = true) := by
  rcases mem_bundledGapRules.1 hspec with rfl | rfl | rfl | rfl
  · exact .inl ⟨rfl, GapRule.applies_of_not_settled h⟩
  · refine .inr (.inl ⟨rfl, ?_⟩)
    by_contra hkind
    exact h (if_neg hkind)
  · exact .inr (.inr (.inl ⟨rfl, GapRule.applies_of_not_settled h⟩))
  · exact .inr (.inr (.inr ⟨rfl, GapRule.applies_of_not_settled h⟩))

/-! ## After a repair -/

/-- The selected rules have a say in the gap. -/
def ActsOn (selected : String → Bool) (site : Site Piece) : Prop :=
  wantsOneSpace selected site = true ∨ (selected afterName = true ∧ site.head.kind = .leftBrace)

theorem actsOn_of_not_settled (hspec : spec ∈ bundledGapRules) (h : ¬spec.Settled site)
    {selected : String → Bool} (hselected : selected spec.name = true) :
    ActsOn selected site := by
  rcases cases_of_not_settled hspec h with ⟨rfl, hwants⟩ | ⟨rfl, hkind⟩ | ⟨rfl, hwants⟩ |
    ⟨rfl, hwants⟩
  · left
    simp [wantsOneSpace, hwants, show selected beforeName = true from hselected]
  · exact .inr ⟨hselected, hkind⟩
  · left
    simp [wantsOneSpace, hwants, show selected nameBefore = true from hselected]
  · left
    simp [wantsOneSpace, hwants, show selected nameAfter = true from hselected]

/-- Where some rule has a say in the gap, one more makes no difference. -/
theorem tidyGap_alsoSelected {selected : String → Bool} (h : ActsOn selected site)
    (name : String) : tidyGap (alsoSelected selected name) site = tidyGap selected site := by
  rcases h with hone | ⟨hafter, hkind⟩
  · have hone' : wantsOneSpace (alsoSelected selected name) site = true := by
      simp only [wantsOneSpace, alsoSelected, Bool.or_eq_true, Bool.and_eq_true] at hone ⊢
      tauto
    rw [tidyGap, if_pos hone', tidyGap, if_pos hone]
  · have hafter' : alsoSelected selected name afterName = true := by simp [alsoSelected, hafter]
    rw [tidyGap, tidyGap, wantsOneSpace_leftBrace hkind, wantsOneSpace_leftBrace hkind, hafter,
      hafter']

/-- **A gap that a rule has repaired** is one that all bundled rules are content with. -/
theorem settled_regapAll {earlier : List GapRule}
    (hearlier : ∀ rule ∈ earlier, rule ∈ bundledGapRules) (hspec : spec ∈ bundledGapRules)
    (hsite : site.AfterCode) (hanswered : ∃ rule ∈ earlier, ¬rule.Settled site) :
    spec.Settled (site.withGap (regapAll earlier site)) := by
  obtain ⟨rule, hrule, hunsettled⟩ := hanswered
  have hselected : selectedBy earlier rule.name = true :=
    List.any_eq_true.2 ⟨rule, hrule, beq_self_eq_true rule.name⟩
  have hacts := actsOn_of_not_settled (hearlier rule hrule) hunsettled hselected
  -- what `earlier` make of the gap is what they make of it together with `spec`
  rw [regapAll_eq_tidyGap hearlier hsite]
  exact (regap_tidyGap hspec hsite _).trans (tidyGap_alsoSelected hacts spec.name)

/-! ## Two rules on one gap -/

/-- The gap stands between the name of a header and an opening brace. -/
def Site.NameBeforeBrace (site : Site Piece) : Prop :=
  (∃ keyword ∈ site.before, isKeyword keyword.kind = true) ∧ site.head.kind = .identifier ∧
    ∃ brace ∈ site.next, brace.kind = .leftBrace

theorem nameBeforeBrace_iff :
    site.NameBeforeBrace ↔ wantsSpaceBefore site = true ∧ wantsSpaceAfterName site = true := by
  obtain ⟨before, head, gap, next⟩ := site
  simp only [Site.NameBeforeBrace, wantsSpaceBefore, wantsSpaceAfterName, Bool.and_eq_true,
    Option.any_eq_true, beq_iff_eq, Bool.not_eq_true', Option.isSome_iff_exists, Option.mem_def]
  constructor
  · rintro ⟨hbefore, hhead, brace, hnext, hkind⟩
    exact ⟨⟨⟨brace, hnext, hkind⟩, by rw [hhead]; rfl⟩, ⟨hhead, hbefore⟩, brace, hnext⟩
  · rintro ⟨⟨hnext, -⟩, ⟨hhead, hbefore⟩, -⟩
    exact ⟨hbefore, hhead, hnext⟩

/-- There both rules want one space, and both are content with nothing else. -/
theorem settled_iff_of_nameBeforeBrace (h : site.NameBeforeBrace) :
    beforeGap.Settled site ↔ nameAfterGap.Settled site := by
  obtain ⟨hbefore, hafter⟩ := nameBeforeBrace_iff.1 h
  rw [beforeGap, nameAfterGap, GapRule.single_settled_iff, GapRule.single_settled_iff]
  constructor
  · intro hgap _
    exact hgap hbefore
  · intro hgap _
    exact hgap hafter

/-- Between the keyword of a header and its name no other rule wants anything. -/
theorem not_wants_of_wantsSpaceBeforeName (h : wantsSpaceBeforeName site = true) :
    wantsSpaceBefore site = false ∧ wantsSpaceAfterName site = false := by
  obtain ⟨before, head, gap, next⟩ := site
  simp only [wantsSpaceBeforeName, Bool.and_eq_true, Option.any_eq_true, beq_iff_eq] at h
  obtain ⟨hkeyword, name, rfl, hname⟩ := h
  constructor
  · simp [wantsSpaceBefore, hname]
  · have hhead : head.kind ≠ .identifier := by
      intro hkind
      rw [hkind] at hkeyword
      cases hkeyword
    simp [wantsSpaceAfterName, hhead]

/-- After an opening brace no rule wants anything but the one on what follows it. -/
theorem not_wants_of_leftBrace (h : site.head.kind = .leftBrace) :
    wantsSpaceBefore site = false ∧ wantsSpaceBeforeName site = false ∧
      wantsSpaceAfterName site = false := by
  simpa [wantsOneSpace] using wantsOneSpace_leftBrace h fun _ => true

/-- **Different rules that are not content with the same gap**: one is about the space before an
opening brace, the other about the space after the name of a header, and the gap stands between the
two. -/
theorem names_of_not_settled (hspec : spec ∈ bundledGapRules) (hother : other ∈ bundledGapRules)
    (h : ¬spec.Settled site) (h' : ¬other.Settled site) :
    spec = other ∨ site.NameBeforeBrace ∧
      (spec = beforeGap ∧ other = nameAfterGap ∨ spec = nameAfterGap ∧ other = beforeGap) := by
  -- two rules of which one is about another place than the other cannot both want something
  have habsurd : ∀ {wants : Bool}, wants = true → wants = false → False := by
    rintro wants rfl ⟨⟩
  rcases cases_of_not_settled hspec h with ⟨rfl, hone⟩ | ⟨rfl, hone⟩ | ⟨rfl, hone⟩ | ⟨rfl, hone⟩
  · rcases cases_of_not_settled hother h' with ⟨rfl, htwo⟩ | ⟨rfl, htwo⟩ | ⟨rfl, htwo⟩ | ⟨rfl, htwo⟩
    · exact .inl rfl
    · exact (habsurd hone (not_wants_of_leftBrace htwo).1).elim
    · exact (habsurd hone (not_wants_of_wantsSpaceBeforeName htwo).1).elim
    · exact .inr ⟨nameBeforeBrace_iff.2 ⟨hone, htwo⟩, .inl ⟨rfl, rfl⟩⟩
  · rcases cases_of_not_settled hother h' with ⟨rfl, htwo⟩ | ⟨rfl, htwo⟩ | ⟨rfl, htwo⟩ | ⟨rfl, htwo⟩
    · exact (habsurd htwo (not_wants_of_leftBrace hone).1).elim
    · exact .inl rfl
    · exact (habsurd htwo (not_wants_of_leftBrace hone).2.1).elim
    · exact (habsurd htwo (not_wants_of_leftBrace hone).2.2).elim
  · rcases cases_of_not_settled hother h' with ⟨rfl, htwo⟩ | ⟨rfl, htwo⟩ | ⟨rfl, htwo⟩ | ⟨rfl, htwo⟩
    · exact (habsurd htwo (not_wants_of_wantsSpaceBeforeName hone).1).elim
    · exact (habsurd hone (not_wants_of_leftBrace htwo).2.1).elim
    · exact .inl rfl
    · exact (habsurd htwo (not_wants_of_wantsSpaceBeforeName hone).2).elim
  · rcases cases_of_not_settled hother h' with ⟨rfl, htwo⟩ | ⟨rfl, htwo⟩ | ⟨rfl, htwo⟩ | ⟨rfl, htwo⟩
    · exact .inr ⟨nameBeforeBrace_iff.2 ⟨htwo, hone⟩, .inr ⟨rfl, rfl⟩⟩
    · exact (habsurd hone (not_wants_of_leftBrace htwo).2.2).elim
    · exact (habsurd hone (not_wants_of_wantsSpaceBeforeName htwo).2).elim
    · exact .inl rfl

/-- The bundled rules have different names. -/
theorem eq_of_name_eq (hspec : spec ∈ bundledGapRules) (hother : other ∈ bundledGapRules)
    (h : spec.name = other.name) : spec = other := by
  obtain ⟨h₁, h₂, h₃, h₄, h₅, h₆⟩ := names_ne
  rcases mem_bundledGapRules.1 hspec with rfl | rfl | rfl | rfl <;>
    rcases mem_bundledGapRules.1 hother with rfl | rfl | rfl | rfl <;>
    first
    | rfl
    | contradiction

end ManifestLint
