import ManifestLint.Proofs.Layout.Basic
import ManifestLint.Proofs.Stream.Follows
import ManifestLint.Rule.Basic

set_option autoImplicit false

/-! # Rules about gaps

A *gap rule* says how the gap of a site should look, and which entry is named when it looks
different. That is a statement about one site; it knows of no stream and no order of steps.

A rule *implements* a gap rule when its check lists, site by site, the gaps that are not as the gap
rule wants them, and when its repair of one of them makes the gap what the gap rule wants and
leaves everything else alone. The rest of the theory of a run is about gap rules. -/

namespace ManifestLint

/-! ## The layout of a view -/

namespace View

/-- The entries of a view as stretches. -/
def layout (view : View) : Layout Entry := .ofList Entry.isSpace view.entries

/-- The gaps of a view and what is around them. -/
def sites (view : View) : List (Site Entry) := view.layout.sites

theorem exists_within {view : View} {site : Site Entry} (hmem : site ∈ view.sites) :
    ∃ pre post, site.Within Entry.isSpace view.entries pre post :=
  Layout.exists_within hmem

end View

/-- What a site shows of its entries. -/
def Site.pieces (site : Site Entry) : Site Piece := site.map Entry.piece

/-! ## Gap rules -/

/-- How a gap should look, and where it is reported when it does not. -/
structure GapRule where
  name : String
  message : String
  /-- The gap as the rule wants it. -/
  regap : Site Piece → List Piece
  /-- The entry at which another gap is reported. -/
  anchor : Site Entry → Option Entry

namespace GapRule

/-- A rule that wants one space wherever it applies. -/
def single (name message : String) (applies : Site Piece → Bool)
    (anchor : Site Entry → Option Entry) : GapRule :=
  ⟨name, message, fun site => if applies site then oneSpace else site.gap, anchor⟩

/-- The gap of a site is as the rule wants it. -/
def Settled (rule : GapRule) (site : Site Piece) : Prop := rule.regap site = site.gap

instance (rule : GapRule) (site : Site Piece) : Decidable (rule.Settled site) :=
  inferInstanceAs (Decidable (rule.regap site = site.gap))

/-- The finding at a site, if its gap is not as the rule wants it. -/
def finding (rule : GapRule) (site : Site Entry) : Option Finding :=
  if rule.Settled site.pieces then none
  else (rule.anchor site).map fun entry =>
    ⟨rule.name, .error, rule.message, entry.position, some entry.id⟩

theorem finding_eq_none_of_settled {rule : GapRule} {site : Site Entry}
    (h : rule.Settled site.pieces) : rule.finding site = none := if_pos h

theorem finding_of_not_settled {rule : GapRule} {site : Site Entry} {entry : Entry}
    (h : ¬rule.Settled site.pieces) (hanchor : rule.anchor site = some entry) :
    rule.finding site =
      some ⟨rule.name, .error, rule.message, entry.position, some entry.id⟩ := by
  rw [finding, if_neg h, hanchor]
  rfl

theorem not_settled_of_finding {rule : GapRule} {site : Site Entry} {finding : Finding}
    (h : rule.finding site = some finding) :
    ¬rule.Settled site.pieces ∧ ∃ entry, rule.anchor site = some entry ∧
      finding = ⟨rule.name, .error, rule.message, entry.position, some entry.id⟩ := by
  unfold GapRule.finding at h
  split at h
  · cases h
  · rename_i hsettled
    obtain ⟨entry, hentry, rfl⟩ := Option.map_eq_some_iff.1 h
    exact ⟨hsettled, entry, hentry, rfl⟩

/-- A rule that wants one space is content where it does not apply, and with one space. -/
theorem single_settled_iff {name message : String} {applies : Site Piece → Bool}
    {anchor : Site Entry → Option Entry} {site : Site Piece} :
    (single name message applies anchor).Settled site ↔
      (applies site = true → site.gap = oneSpace) := by
  show (if applies site then oneSpace else site.gap) = site.gap ↔ _
  by_cases h : applies site = true
  · rw [if_pos h]
    exact ⟨fun heq _ => heq.symm, fun heq => (heq h).symm⟩
  · rw [if_neg h]
    exact ⟨fun _ happlies => absurd happlies h, fun _ => rfl⟩

theorem applies_of_not_settled {name message : String} {applies : Site Piece → Bool}
    {anchor : Site Entry → Option Entry} {site : Site Piece}
    (h : ¬(single name message applies anchor).Settled site) : applies site = true := by
  by_contra hnot
  exact h (single_settled_iff.2 fun happlies => absurd happlies hnot)

theorem single_regap {name message : String} {applies : Site Piece → Bool}
    {anchor : Site Entry → Option Entry} {site : Site Piece}
    (h : ¬(single name message applies anchor).Settled site) :
    (single name message applies anchor).regap site = oneSpace :=
  if_pos (applies_of_not_settled h)

end GapRule

theorem map_piece_eq_oneSpace_iff (gap : List Entry) :
    gap.map Entry.piece = oneSpace ↔ ∃ entry, gap = [entry] ∧ entry.piece = .singleSpace := by
  rw [oneSpace, List.map_eq_singleton_iff]

/-! ## Rules that implement a gap rule -/

/-- The rule reports the gaps that are not as the gap rule wants them, in order, and repairs
each of them on its own. -/
structure Rule.Implements (rule : Rule) (spec : GapRule) : Prop where
  name_eq : rule.name = spec.name
  anchored : ∀ site pre post xs, site.Within Entry.isSpace xs pre post →
    ¬spec.Settled site.pieces → (spec.anchor site).isSome
  check_reads : ∀ view, rule.check.Reads view (view.sites.filterMap spec.finding)
  fix_turns : ∃ fix, rule.fix = some fix ∧
    ∀ view site pre post finding, site.Within Entry.isSpace view.entries pre post →
      spec.finding site = some finding →
      ∃ gap size, gap.map Entry.piece = spec.regap site.pieces ∧
        (∀ entry ∈ gap, entry.isSpace = true) ∧
        (fix finding).Turns view () ⟨pre ++ site.head :: (gap ++ post), size⟩

theorem Rule.Implements.finding_eq_none_iff {rule : Rule} {spec : GapRule}
    (h : rule.Implements spec) {site : Site Entry} {pre post xs : List Entry}
    (hwithin : site.Within Entry.isSpace xs pre post) :
    spec.finding site = none ↔ spec.Settled site.pieces := by
  refine ⟨fun hnone => ?_, GapRule.finding_eq_none_of_settled⟩
  by_contra hsettled
  obtain ⟨entry, hentry⟩ :=
    Option.isSome_iff_exists.1 (h.anchored site pre post xs hwithin hsettled)
  rw [GapRule.finding_of_not_settled hsettled hentry] at hnone
  cases hnone

/-! ## Heads across a gap -/

section Neighbours

variable {view : View} {site : Site Entry} {pre post : List Entry}

/-- The next token that is no spacing is the next head. -/
theorem nextHead_reads (hwithin : site.Within Entry.isSpace view.entries pre post) :
    (Edit.nextNonSpace site.head.id).Reads view (site.next.map Entry.id) := by
  have hcode := Edit.nextNonSpace_reads hwithin.split
  have hfind : ((site.gap ++ post).find? fun e => !e.isSpace) = site.next := hwithin.find?_next
  rw [hfind] at hcode
  exact hcode

/-- The last token before the next head that is no spacing is the head. -/
theorem prevHead_reads (hwithin : site.Within Entry.isSpace view.entries pre post)
    {following : Entry} (hnext : site.next = some following) :
    (Edit.prevNonSpace following.id).Reads view (some site.head.id) := by
  obtain ⟨rest, -, hsplit⟩ := hwithin.split_next hnext
  have hcode := Edit.prevNonSpace_reads hsplit
  rw [find?_reverse_stretch hwithin.head hwithin.gap] at hcode
  exact hcode

end Neighbours

/-! ## Heads of given kinds -/

namespace View

variable {view : View} {kinds : List Kind}

theorem filter_head {α : Type} {isSpace p : α → Bool} (hp : ∀ a, p a = true → isSpace a = false)
    (xs : List α) :
    xs.filter p = ((Layout.ofList isSpace xs).stretches.map Stretch.head).filter p := by
  rw [Layout.map_head_stretches, List.filter_filter]
  refine List.filter_congr fun a _ => ?_
  by_cases ha : p a = true
  · rw [ha, hp a ha]
    rfl
  · rw [Bool.eq_false_iff.2 ha]
    rfl

/-- The tokens of given kinds, none of them spacing, are heads of stretches. -/
theorem ofKinds_heads (hkinds : ∀ kind ∈ kinds, kind.isSpace = false) :
    (Edit.ofKinds kinds).Reads view
      (((view.layout.stretches.map Stretch.head).filter fun e => kinds.contains e.kind).map
        Entry.id) := by
  have hcode : ∀ entry : Entry, kinds.contains entry.kind = true →
      entry.kind.isSpace = false := fun entry hentry =>
    hkinds entry.kind (List.contains_iff_mem.1 hentry)
  have hheads := filter_head hcode view.entries
  unfold layout
  rw [show (Entry.isSpace : Entry → Bool) = fun entry => entry.kind.isSpace from rfl, ← hheads]
  exact Edit.ofKinds_reads kinds

theorem map_filter_eq {α β : Type} (p : α → Bool) (f : α → β) (xs : List α) :
    (xs.filter p).map f = xs.filterMap fun a => if p a then some (f a) else none := by
  rw [← List.filterMap_eq_map, List.filterMap_filter]
  rfl

/-- The heads of given kinds are the first head, if it is one, and those that end a gap. -/
theorem filter_heads_eq (view : View) (kinds : List Kind) :
    ((view.layout.stretches.map Stretch.head).filter fun e => kinds.contains e.kind).map Entry.id =
      ((view.layout.stretches.head?.map Stretch.head).toList.filter fun e =>
        kinds.contains e.kind).map Entry.id ++
      view.sites.filterMap fun site =>
        (site.next.filter fun e => kinds.contains e.kind).map Entry.id := by
  rw [map_head_eq none view.layout.stretches, List.filter_append, List.map_append]
  congr 1
  rw [List.filter_filterMap, List.map_filterMap]
  rfl

/-- The tokens of given kinds, site by site. -/
theorem ofKinds_sites (hkinds : ∀ kind ∈ kinds, kind.isSpace = false) :
    (Edit.ofKinds kinds).Reads view (view.sites.filterMap fun site =>
      if kinds.contains site.head.kind then some site.head.id else none) := by
  have hread : (Edit.ofKinds kinds).Reads view _ := ofKinds_heads hkinds
  rw [← map_head_sitesFrom none, map_filter_eq, List.filterMap_map] at hread
  exact hread

end View

end ManifestLint
