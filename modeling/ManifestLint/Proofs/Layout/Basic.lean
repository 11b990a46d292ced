import Mathlib.Data.List.Basic

set_option autoImplicit false

/-! # Layouts

A list in which some elements only keep the others apart is a *lead* of spacing and then
*stretches*: an element that is no spacing, its head, with the spacing after it, its gap. Every
list has one such layout (`toList_ofList`, `ofList_toList`).

A *site* is a gap with what decides how it should look: the head it follows, and the heads before
and after that one. To *respace* a layout is to replace each gap by what a function says about its
site. Heads stay what they are, so that the sites after respacing are the old ones with their new
gaps (`sitesFrom_respaceFrom`), and two respacings make one (`respaceFrom_respaceFrom`). -/

namespace ManifestLint

/-- An element that is no spacing, with the spacing after it. -/
structure Stretch (α : Type) where
  head : α
  gap : List α

/-- A list as spacing and the stretches after it. -/
structure Layout (α : Type) where
  lead : List α
  stretches : List (Stretch α)

/-- A gap, the head it follows, and the heads around that one. -/
structure Site (α : Type) where
  before : Option α
  head : α
  gap : List α
  next : Option α

variable {α β : Type}

/-! ## Stretches -/

namespace Stretch

/-- The elements of stretches. -/
def listOf (stretches : List (Stretch α)) : List α :=
  stretches.flatMap fun stretch => stretch.head :: stretch.gap

@[simp] theorem listOf_nil : listOf ([] : List (Stretch α)) = [] := rfl

@[simp] theorem listOf_cons (stretch : Stretch α) (rest : List (Stretch α)) :
    listOf (stretch :: rest) = stretch.head :: (stretch.gap ++ listOf rest) := rfl

/-- A stretch with each element replaced. -/
def map (f : α → β) (stretch : Stretch α) : Stretch β := ⟨f stretch.head, stretch.gap.map f⟩

/-- The head is no spacing, and the gap is nothing else. -/
structure Proper (isSpace : α → Bool) (stretch : Stretch α) : Prop where
  head : isSpace stretch.head = false
  gap : ∀ a ∈ stretch.gap, isSpace a = true

theorem head?_listOf (stretches : List (Stretch α)) :
    (listOf stretches).head? = stretches.head?.map head := by
  cases stretches <;> rfl

end Stretch

/-! ## Sites -/

/-- A site with each element replaced. -/
def Site.map (f : α → β) (site : Site α) : Site β :=
  ⟨site.before.map f, f site.head, site.gap.map f, site.next.map f⟩

/-- The sites of stretches that come after the head `before`. -/
def sitesFrom (before : Option α) : List (Stretch α) → List (Site α)
  | [] => []
  | stretch :: rest =>
    ⟨before, stretch.head, stretch.gap, rest.head?.map Stretch.head⟩ ::
      sitesFrom (some stretch.head) rest

/-- The site with its gap replaced. -/
def Site.withGap (site : Site α) (gap : List α) : Site α := { site with gap := gap }

theorem sitesFrom_map (f : α → β) (before : Option α) (stretches : List (Stretch α)) :
    sitesFrom (before.map f) (stretches.map (Stretch.map f)) =
      (sitesFrom before stretches).map (Site.map f) := by
  induction stretches generalizing before with
  | nil => rfl
  | cons stretch rest ih =>
      have hrest := ih (some stretch.head)
      simp only [Option.map_some] at hrest
      simp only [List.map_cons, sitesFrom, Site.map, Stretch.map, hrest]
      congr 2
      cases rest <;> rfl

theorem filterMap_cons_eq {γ : Type} (f : α → Option γ) (a : α) (xs : List α) :
    (a :: xs).filterMap f = (f a).toList ++ xs.filterMap f := by
  rw [List.filterMap_cons]
  cases f a <;> rfl

/-- What is between two neighbouring heads is the same read from the earlier one and from the
later one. -/
theorem filterMap_before {γ : Type} (link : α → α → Option γ) (before : Option α)
    (stretches : List (Stretch α)) :
    (sitesFrom before stretches).filterMap (fun s => s.before.bind fun a => link a s.head) =
      (before.bind fun a => stretches.head?.bind fun s => link a s.head).toList ++
        (sitesFrom before stretches).filterMap fun s => s.next.bind (link s.head) := by
  induction stretches generalizing before with
  | nil => cases before <;> rfl
  | cons stretch rest ih =>
      rw [sitesFrom, filterMap_cons_eq, filterMap_cons_eq, ih (some stretch.head)]
      cases rest <;> rfl

/-- The heads are the first one and those that come next. -/
theorem map_head_eq (before : Option α) (stretches : List (Stretch α)) :
    stretches.map Stretch.head =
      (stretches.head?.map Stretch.head).toList ++
        (sitesFrom before stretches).filterMap Site.next := by
  induction stretches generalizing before with
  | nil => rfl
  | cons stretch rest ih =>
      rw [List.map_cons, ih (some stretch.head), sitesFrom, filterMap_cons_eq]
      rfl

theorem map_head_sitesFrom (before : Option α) (stretches : List (Stretch α)) :
    (sitesFrom before stretches).map Site.head = stretches.map Stretch.head := by
  induction stretches generalizing before with
  | nil => rfl
  | cons stretch rest ih => simp only [sitesFrom, List.map_cons, ih]

theorem forall_sitesFrom_append_iff {P : Site α → Prop} {a b : α}
    (hnext : ∀ before head gap, P ⟨before, head, gap, some a⟩ → P ⟨before, head, gap, some b⟩)
    (hbefore : ∀ before gap next, P ⟨before, b, gap, next⟩ ↔ P ⟨none, b, gap, next⟩)
    {before : Option α} {front rest rest' : List (Stretch α)} {gap gap' : List α}
    (h : ∀ site ∈ sitesFrom before (front ++ ⟨a, gap⟩ :: rest), P site) :
    (∀ site ∈ sitesFrom before (front ++ ⟨b, gap'⟩ :: rest'), P site) ↔
      ∀ site ∈ sitesFrom none (⟨b, gap'⟩ :: rest'), P site := by
  induction front generalizing before with
  | nil =>
      simp only [List.nil_append, sitesFrom, List.forall_mem_cons]
      rw [hbefore]
  | cons stretch others ih =>
      rw [List.cons_append, sitesFrom, List.forall_mem_cons] at h ⊢
      rw [ih h.2]
      refine and_iff_right ?_
      cases others with
      | nil => exact hnext _ _ _ h.1
      | cons other _ => exact h.1

/-! ## Where a site stands -/

/-- The site stands in the list `xs` between `pre` and `post`. -/
structure Site.Within (isSpace : α → Bool) (site : Site α) (xs pre post : List α) : Prop where
  split : xs = pre ++ site.head :: (site.gap ++ post)
  before : (pre.reverse.find? fun a => !isSpace a) = site.before
  head : isSpace site.head = false
  gap : ∀ a ∈ site.gap, isSpace a = true
  next_eq : post.head? = site.next
  next : ∀ a ∈ site.next, isSpace a = false

/-- In spacing there is nothing else. -/
theorem find?_spaces {isSpace : α → Bool} {xs : List α} (h : ∀ a ∈ xs, isSpace a = true) :
    (xs.find? fun a => !isSpace a) = none ∧ (xs.reverse.find? fun a => !isSpace a) = none := by
  rw [List.find?_eq_none, List.find?_eq_none]
  constructor
  · intro a ha
    simp [h a ha]
  · intro a ha
    simp [h a (List.mem_reverse.1 ha)]

/-- Nothing but spacing stands before the first element that is none. -/
theorem exists_gap_of_find? {isSpace : α → Bool} {xs : List α} {a : α}
    (h : (xs.find? fun a => !isSpace a) = some a) :
    ∃ gap rest, xs = gap ++ a :: rest ∧ ∀ b ∈ gap, isSpace b = true := by
  obtain ⟨-, gap, rest, hxs, hgap⟩ := List.find?_eq_some_iff_append.1 h
  exact ⟨gap, rest, hxs, fun b hb => by simpa using hgap b hb⟩

/-- The last element that is no spacing, where no spacing stands at the end. -/
theorem find?_reverse_of_getLast? {isSpace : α → Bool} {xs : List α}
    (h : ∀ a ∈ xs.getLast?, isSpace a = false) :
    (xs.reverse.find? fun a => !isSpace a) = xs.reverse.head? := by
  rw [List.getLast?_eq_head?_reverse] at h
  cases hback : xs.reverse with
  | nil => rfl
  | cons a rest =>
      rw [hback] at h
      rw [List.find?_cons_of_pos (by simp [h a rfl])]
      rfl

/-- The last element that is no spacing, after a stretch. -/
theorem find?_reverse_stretch {isSpace : α → Bool} {head : α} {gap : List α}
    (hhead : isSpace head = false) (hgap : ∀ a ∈ gap, isSpace a = true) (done : List α) :
    ((done ++ head :: gap).reverse.find? fun a => !isSpace a) = some head := by
  rw [List.reverse_append, List.reverse_cons, List.append_assoc, List.find?_append,
    (find?_spaces hgap).2]
  simp [hhead]

/-- The next head stands after the gap. -/
theorem Site.Within.split_next {isSpace : α → Bool} {site : Site α} {xs pre post : List α}
    (h : site.Within isSpace xs pre post) {a : α} (hnext : site.next = some a) :
    ∃ rest, post = a :: rest ∧ xs = (pre ++ site.head :: site.gap) ++ a :: rest := by
  obtain ⟨rest, rfl⟩ := List.head?_eq_some_iff.1 (h.next_eq.trans hnext)
  refine ⟨rest, rfl, ?_⟩
  rw [h.split]
  simp

/-- The first element after the head that is no spacing is the next head. -/
theorem Site.Within.find?_next {isSpace : α → Bool} {site : Site α} {xs pre post : List α}
    (h : site.Within isSpace xs pre post) :
    ((site.gap ++ post).find? fun a => !isSpace a) = site.next := by
  rw [List.find?_append, (find?_spaces h.gap).1, Option.none_or, ← h.next_eq]
  cases post with
  | nil => rfl
  | cons a rest => simp [h.next a h.next_eq.symm]

theorem within_first {isSpace : α → Bool} {done : List α} {before : Option α}
    {stretch : Stretch α} {rest : List (Stretch α)}
    (hbefore : (done.reverse.find? fun a => !isSpace a) = before)
    (hproper : ∀ s ∈ stretch :: rest, s.Proper isSpace) :
    (Site.mk before stretch.head stretch.gap (rest.head?.map Stretch.head)).Within isSpace
      (done ++ Stretch.listOf (stretch :: rest)) done (Stretch.listOf rest) where
  split := rfl
  before := hbefore
  head := (hproper stretch List.mem_cons_self).head
  gap := (hproper stretch List.mem_cons_self).gap
  next_eq := Stretch.head?_listOf rest
  next := by
    intro a ha
    obtain ⟨s, hs, rfl⟩ := Option.map_eq_some_iff.1 ha
    exact (hproper s (List.mem_cons_of_mem _ (List.mem_of_mem_head? hs))).head

/-- A site of a list stands in it, and another gap in its place changes no other site. -/
theorem within_of_append {isSpace : α → Bool} {done : List α} {before : Option α}
    {stretches : List (Stretch α)}
    (hbefore : (done.reverse.find? fun a => !isSpace a) = before)
    (hproper : ∀ s ∈ stretches, s.Proper isSpace) {front rest : List (Site α)} {site : Site α}
    (hsites : sitesFrom before stretches = front ++ site :: rest) :
    ∃ pre post, site.Within isSpace (done ++ Stretch.listOf stretches) pre post ∧
      ∀ gap, (∀ a ∈ gap, isSpace a = true) → ∃ stretches',
        (∀ s ∈ stretches', s.Proper isSpace) ∧
        done ++ Stretch.listOf stretches' = pre ++ site.head :: (gap ++ post) ∧
        sitesFrom before stretches' = front ++ site.withGap gap :: rest := by
  induction stretches generalizing done before front with
  | nil => simp [sitesFrom] at hsites
  | cons stretch others ih =>
      have hfirst := within_first hbefore hproper
      rw [List.forall_mem_cons] at hproper
      cases front with
      | nil =>
          obtain ⟨rfl, rfl⟩ := List.cons.inj hsites
          refine ⟨done, Stretch.listOf others, hfirst, fun gap hgap => ?_⟩
          exact ⟨⟨stretch.head, gap⟩ :: others,
            List.forall_mem_cons.2 ⟨⟨hproper.1.head, hgap⟩, hproper.2⟩, rfl, rfl⟩
      | cons first front =>
          obtain ⟨rfl, hothers⟩ := List.cons.inj hsites
          obtain ⟨pre, post, hwithin, hregap⟩ := ih
            (find?_reverse_stretch hproper.1.head hproper.1.gap done) hproper.2 hothers
          have hassoc : ∀ others : List (Stretch α),
              done ++ Stretch.listOf (stretch :: others) =
                (done ++ stretch.head :: stretch.gap) ++ Stretch.listOf others := by
            intro others
            simp
          rw [hassoc]
          refine ⟨pre, post, hwithin, fun gap hgap => ?_⟩
          obtain ⟨others', hproper', hlist, hsites'⟩ := hregap gap hgap
          -- the heads are the same, and so is the one that comes next
          have hheads : others'.map Stretch.head = others.map Stretch.head := by
            rw [← map_head_sitesFrom (some stretch.head), hsites',
              ← map_head_sitesFrom (some stretch.head), show _ = front ++ site :: rest from hothers]
            simp [Site.withGap]
          refine ⟨stretch :: others', List.forall_mem_cons.2 ⟨hproper.1, hproper'⟩, ?_, ?_⟩
          · rw [hassoc, hlist]
          · rw [sitesFrom, hsites', ← List.head?_map, hheads, List.head?_map]
            rfl

/-! ## Respacing -/

/-- The stretches with each gap replaced by what `f` says about its site. -/
def respaceFrom (f : Site α → List α) (before : Option α) (stretches : List (Stretch α)) :
    List (Stretch α) :=
  (sitesFrom before stretches).map fun site => ⟨site.head, f site⟩

theorem respaceFrom_cons (f : Site α → List α) (before : Option α) (stretch : Stretch α)
    (rest : List (Stretch α)) :
    respaceFrom f before (stretch :: rest) =
      ⟨stretch.head, f ⟨before, stretch.head, stretch.gap, rest.head?.map Stretch.head⟩⟩ ::
        respaceFrom f (some stretch.head) rest := rfl

theorem head?_respaceFrom (f : Site α → List α) (before : Option α)
    (stretches : List (Stretch α)) :
    (respaceFrom f before stretches).head?.map Stretch.head =
      stretches.head?.map Stretch.head := by
  cases stretches <;> rfl

theorem sitesFrom_respaceFrom (f : Site α → List α) (before : Option α)
    (stretches : List (Stretch α)) :
    sitesFrom before (respaceFrom f before stretches) =
      (sitesFrom before stretches).map fun site => site.withGap (f site) := by
  induction stretches generalizing before with
  | nil => rfl
  | cons stretch rest ih =>
      rw [respaceFrom_cons]
      simp only [sitesFrom, List.map_cons, ih, head?_respaceFrom]
      rfl

theorem respaceFrom_respaceFrom (f g : Site α → List α) (before : Option α)
    (stretches : List (Stretch α)) :
    respaceFrom g before (respaceFrom f before stretches) =
      respaceFrom (fun site => g (site.withGap (f site))) before stretches := by
  rw [respaceFrom, sitesFrom_respaceFrom, List.map_map]
  rfl

theorem respaceFrom_congr {f g : Site α → List α} {before : Option α}
    {stretches : List (Stretch α)} (h : ∀ site ∈ sitesFrom before stretches, f site = g site) :
    respaceFrom f before stretches = respaceFrom g before stretches := by
  apply List.map_congr_left
  intro site hmem
  rw [h site hmem]

theorem respaceFrom_gap (before : Option α) (stretches : List (Stretch α)) :
    respaceFrom Site.gap before stretches = stretches := by
  induction stretches generalizing before with
  | nil => rfl
  | cons stretch rest ih => rw [respaceFrom_cons, ih]

/-! ## Layouts of lists -/

namespace Layout

/-- The elements of a layout. -/
def toList (layout : Layout α) : List α := layout.lead ++ Stretch.listOf layout.stretches

/-- The layout of a list. -/
def ofList (isSpace : α → Bool) : List α → Layout α
  | [] => ⟨[], []⟩
  | a :: rest =>
    if isSpace a then ⟨a :: (ofList isSpace rest).lead, (ofList isSpace rest).stretches⟩
    else ⟨[], ⟨a, (ofList isSpace rest).lead⟩ :: (ofList isSpace rest).stretches⟩

/-- The sites of a layout. -/
def sites (layout : Layout α) : List (Site α) := sitesFrom none layout.stretches

/-- A layout with each gap replaced by what `f` says about its site. -/
def respace (f : Site α → List α) (layout : Layout α) : Layout α :=
  ⟨layout.lead, respaceFrom f none layout.stretches⟩

/-- A layout with each element replaced. -/
def map (f : α → β) (layout : Layout α) : Layout β :=
  ⟨layout.lead.map f, layout.stretches.map (Stretch.map f)⟩

/-- Spacing stands where it should, and only there. -/
structure Proper (isSpace : α → Bool) (layout : Layout α) : Prop where
  lead : ∀ a ∈ layout.lead, isSpace a = true
  stretches : ∀ s ∈ layout.stretches, s.Proper isSpace

variable {isSpace : α → Bool}

@[simp] theorem toList_ofList (isSpace : α → Bool) (xs : List α) :
    (ofList isSpace xs).toList = xs := by
  induction xs with
  | nil => rfl
  | cons a rest ih =>
      unfold ofList
      unfold toList at ih ⊢
      split
      · rw [List.cons_append, ih]
      · rw [Stretch.listOf_cons, ih, List.nil_append]

theorem proper_ofList (isSpace : α → Bool) (xs : List α) :
    (ofList isSpace xs).Proper isSpace := by
  induction xs with
  | nil => exact ⟨by simp [ofList], by simp [ofList]⟩
  | cons a rest ih =>
      unfold ofList
      split
      · rename_i ha
        exact ⟨List.forall_mem_cons.2 ⟨ha, ih.lead⟩, ih.stretches⟩
      · rename_i ha
        have hhead : isSpace a = false := by simpa using ha
        exact ⟨by simp, List.forall_mem_cons.2 ⟨⟨hhead, ih.lead⟩, ih.stretches⟩⟩

/-- The heads of a list are its elements that are no spacing. -/
theorem map_head_stretches (isSpace : α → Bool) (xs : List α) :
    (ofList isSpace xs).stretches.map Stretch.head = xs.filter fun a => !isSpace a := by
  induction xs with
  | nil => rfl
  | cons a rest ih =>
      by_cases ha : isSpace a = true
      · rw [ofList, if_pos ha, List.filter_cons_of_neg (by simp [ha])]
        exact ih
      · rw [ofList, if_neg ha, List.filter_cons_of_pos (by simp [ha]), List.map_cons, ih]

theorem ofList_append_of_isSpace {gap : List α} (hgap : ∀ a ∈ gap, isSpace a = true)
    (xs : List α) :
    ofList isSpace (gap ++ xs) =
      ⟨gap ++ (ofList isSpace xs).lead, (ofList isSpace xs).stretches⟩ := by
  induction gap with
  | nil => rfl
  | cons a rest ih =>
      rw [List.forall_mem_cons] at hgap
      rw [List.cons_append, ofList, if_pos hgap.1, ih hgap.2]
      rfl

theorem ofList_listOf {stretches : List (Stretch α)}
    (h : ∀ s ∈ stretches, s.Proper isSpace) :
    ofList isSpace (Stretch.listOf stretches) = ⟨[], stretches⟩ := by
  induction stretches with
  | nil => rfl
  | cons stretch rest ih =>
      rw [List.forall_mem_cons] at h
      have hhead : ¬isSpace stretch.head = true := by simp [h.1.head]
      rw [Stretch.listOf_cons, ofList, if_neg hhead, ofList_append_of_isSpace h.1.gap, ih h.2,
        List.append_nil]

/-- A proper layout is the layout of its elements. -/
theorem ofList_toList {layout : Layout α} (h : layout.Proper isSpace) :
    ofList isSpace layout.toList = layout := by
  rw [toList, ofList_append_of_isSpace h.lead, ofList_listOf h.stretches, List.append_nil]

theorem ofList_map (isSpace : β → Bool) (f : α → β) (xs : List α) :
    ofList isSpace (xs.map f) = (ofList (fun a => isSpace (f a)) xs).map f := by
  induction xs with
  | nil => rfl
  | cons a rest ih =>
      rw [List.map_cons, ofList, ofList, ih]
      split <;> rfl

theorem sites_map (f : α → β) (layout : Layout α) :
    (layout.map f).sites = layout.sites.map (Site.map f) :=
  sitesFrom_map f none layout.stretches

theorem sites_respace (f : Site α → List α) (layout : Layout α) :
    (layout.respace f).sites = layout.sites.map fun site => site.withGap (f site) :=
  sitesFrom_respaceFrom f none layout.stretches

theorem respace_respace (f g : Site α → List α) (layout : Layout α) :
    (layout.respace f).respace g =
      layout.respace fun site => g (site.withGap (f site)) := by
  rw [respace, respace, respaceFrom_respaceFrom]
  rfl

theorem respace_congr {f g : Site α → List α} {layout : Layout α}
    (h : ∀ site ∈ layout.sites, f site = g site) : layout.respace f = layout.respace g := by
  rw [respace, respace, respaceFrom_congr h]

@[simp] theorem respace_gap (layout : Layout α) : layout.respace Site.gap = layout := by
  rw [respace, respaceFrom_gap]

theorem proper_respace {f : Site α → List α} {layout : Layout α} (h : layout.Proper isSpace)
    (hf : ∀ site ∈ layout.sites, ∀ a ∈ f site, isSpace a = true) :
    (layout.respace f).Proper isSpace where
  lead := h.lead
  stretches := by
    intro s hs
    obtain ⟨site, hsite, rfl⟩ := List.mem_map.1 hs
    have hhead : site.head ∈ layout.stretches.map Stretch.head := by
      rw [← map_head_sitesFrom none]
      exact List.mem_map_of_mem hsite
    obtain ⟨stretch, hstretch, heq⟩ := List.mem_map.1 hhead
    refine ⟨?_, hf site hsite⟩
    show isSpace site.head = false
    rw [← heq]
    exact (h.stretches stretch hstretch).head

theorem ofList_append_cons {a : α} (ha : isSpace a = false) (front rest : List α) :
    ofList isSpace (front ++ a :: rest) =
      ⟨(ofList isSpace front).lead, (ofList isSpace front).stretches ++
        ⟨a, (ofList isSpace rest).lead⟩ :: (ofList isSpace rest).stretches⟩ := by
  induction front with
  | nil => simp [ofList, ha]
  | cons first others ih =>
      rw [List.cons_append, ofList, ih, ofList]
      split <;> rfl

/-- Statements about the gap after a head `b` that do not depend on what stands before it, and
about the gap before it that follow from those for a head `a` in its place: once they hold with
`a`, they hold with `b` in all gaps if they do from `b` on. -/
theorem forall_sites_append_iff {P : Site α → Prop} {a b : α} (ha : isSpace a = false)
    (hb : isSpace b = false)
    (hnext : ∀ before head gap, P ⟨before, head, gap, some a⟩ → P ⟨before, head, gap, some b⟩)
    (hbefore : ∀ before gap next, P ⟨before, b, gap, next⟩ ↔ P ⟨none, b, gap, next⟩)
    {front rest rest' : List α} (h : ∀ site ∈ (ofList isSpace (front ++ a :: rest)).sites, P site) :
    (∀ site ∈ (ofList isSpace (front ++ b :: rest')).sites, P site) ↔
      ∀ site ∈ (ofList isSpace (b :: rest')).sites, P site := by
  have hlast := ofList_append_cons hb [] rest'
  rw [List.nil_append] at hlast
  rw [ofList_append_cons ha] at h
  rw [ofList_append_cons hb, hlast]
  exact forall_sitesFrom_append_iff hnext hbefore h

/-- Every site of a list stands in it, and another gap in its place changes no other site and not
what stands before the first one. -/
theorem exists_within_append {xs : List α} {front rest : List (Site α)} {site : Site α}
    (hsites : (ofList isSpace xs).sites = front ++ site :: rest) :
    ∃ pre post, site.Within isSpace xs pre post ∧
      ∀ gap, (∀ a ∈ gap, isSpace a = true) →
        (ofList isSpace (pre ++ site.head :: (gap ++ post))).lead = (ofList isSpace xs).lead ∧
        (ofList isSpace (pre ++ site.head :: (gap ++ post))).sites =
          front ++ site.withGap gap :: rest := by
  have hproper := proper_ofList isSpace xs
  obtain ⟨pre, post, hwithin, hregap⟩ :=
    within_of_append (find?_spaces hproper.lead).2 hproper.stretches hsites
  rw [← toList, toList_ofList] at hwithin
  refine ⟨pre, post, hwithin, fun gap hgap => ?_⟩
  obtain ⟨stretches, hproper', hlist, hsites'⟩ := hregap gap hgap
  have hlayout : (Layout.mk (ofList isSpace xs).lead stretches).Proper isSpace :=
    ⟨hproper.lead, hproper'⟩
  have hlist' : pre ++ site.head :: (gap ++ post) =
      (Layout.mk (ofList isSpace xs).lead stretches).toList := hlist.symm
  rw [hlist', ofList_toList hlayout]
  exact ⟨rfl, hsites'⟩

theorem exists_within {xs : List α} {site : Site α} (hmem : site ∈ (ofList isSpace xs).sites) :
    ∃ pre post, site.Within isSpace xs pre post := by
  obtain ⟨front, rest, hsites⟩ := List.append_of_mem hmem
  obtain ⟨pre, post, hwithin, -⟩ := exists_within_append hsites
  exact ⟨pre, post, hwithin⟩

end Layout

end ManifestLint
