import Mathlib.Data.List.TakeWhile
import ManifestLint.Proofs.Layout.Basic

set_option autoImplicit false

/-! # The sites of a list

A site was found by cutting a list into stretches. Here it is said which sites a list has without
cutting it: those that stand somewhere in it (`Layout.mem_sites_iff`). Two elements that are no
spacing, with nothing but spacing between them, are *neighbours*; they are the heads on the two
sides of a gap.

What is picked at the sites of a list, one element at most for each of them and from the site
itself, comes in the order of the list. -/

namespace ManifestLint

variable {α β : Type}

/-! ## In the order of the list -/

/-- One element of each of the lists that are put together, at most, comes in their order. -/
theorem filterMap_sublist_flatMap {f : α → Option β} {g : α → List β} {xs : List α}
    (h : ∀ a ∈ xs, ∀ b ∈ f a, b ∈ g a) : (xs.filterMap f).Sublist (xs.flatMap g) := by
  induction xs with
  | nil => exact .slnil
  | cons a rest ih =>
      rw [List.forall_mem_cons] at h
      rw [filterMap_cons_eq, List.flatMap_cons]
      refine .append ?_ (ih h.2)
      cases hb : f a with
      | none => exact List.nil_sublist _
      | some b => exact List.singleton_sublist.2 (h.1 b hb)

theorem flatMap_head_gap (before : Option α) (stretches : List (Stretch α)) :
    ((sitesFrom before stretches).flatMap fun site => site.head :: site.gap) =
      Stretch.listOf stretches := by
  induction stretches generalizing before with
  | nil => rfl
  | cons stretch rest ih =>
      rw [sitesFrom, List.flatMap_cons, ih (some stretch.head), Stretch.listOf_cons]
      rfl

/-- Each gap with the head after it: everything but the first head. -/
theorem flatMap_gap_next (before : Option α) (stretches : List (Stretch α)) :
    ((sitesFrom before stretches).flatMap fun site => site.gap ++ site.next.toList) =
      (Stretch.listOf stretches).tail := by
  induction stretches generalizing before with
  | nil => rfl
  | cons stretch rest ih =>
      rw [sitesFrom, List.flatMap_cons, ih (some stretch.head), Stretch.listOf_cons,
        List.tail_cons, List.append_assoc]
      cases rest <;> rfl

/-! ## Places -/

theorem mem_sitesFrom_append (before : Option α) (front : List (Stretch α)) (stretch : Stretch α)
    (rest : List (Stretch α)) :
    Site.mk ((front.map Stretch.head).getLast?.or before) stretch.head stretch.gap
        (rest.head?.map Stretch.head) ∈ sitesFrom before (front ++ stretch :: rest) := by
  induction front generalizing before with
  | nil => exact List.mem_cons_self
  | cons first others ih =>
      rw [List.cons_append, sitesFrom, List.map_cons, List.getLast?_cons]
      refine List.mem_cons_of_mem _ ?_
      have hmem := ih (some first.head)
      cases hlast : (others.map Stretch.head).getLast? with
      | none =>
          rw [hlast] at hmem
          exact hmem
      | some last =>
          rw [hlast] at hmem
          exact hmem

namespace Layout

variable {isSpace : α → Bool} {xs : List α}

/-- **The sites of a list** are those that stand in it. -/
theorem mem_sites_iff {site : Site α} :
    site ∈ (ofList isSpace xs).sites ↔ ∃ pre post, site.Within isSpace xs pre post := by
  constructor
  · exact exists_within
  · rintro ⟨pre, post, hsplit, hbefore, hhead, hgap, hnext, hcode⟩
    have hlead : (ofList isSpace post).lead = [] := by
      cases post with
      | nil => rfl
      | cons a rest => rw [ofList, if_neg (by simp [hcode a hnext.symm])]
    have hfirst : (ofList isSpace post).stretches.head?.map Stretch.head = site.next := by
      rw [← hnext, ← List.head?_map, map_head_stretches]
      cases post with
      | nil => rfl
      | cons a rest => rw [List.filter_cons_of_pos (by simp [hcode a hnext.symm])]; rfl
    have hlast : ((ofList isSpace pre).stretches.map Stretch.head).getLast? = site.before := by
      rw [map_head_stretches, List.getLast?_filter, hbefore]
    have hmem := mem_sitesFrom_append none (ofList isSpace pre).stretches ⟨site.head, site.gap⟩
      (ofList isSpace post).stretches
    rw [hlast, hfirst, Option.or_none] at hmem
    rw [sites, hsplit, ofList_append_cons hhead, ofList_append_of_isSpace hgap, hlead,
      List.append_nil]
    exact hmem

theorem listOf_stretches_sublist (isSpace : α → Bool) (xs : List α) :
    (Stretch.listOf (ofList isSpace xs).stretches).Sublist xs := by
  have hsuffix := List.sublist_append_right (ofList isSpace xs).lead
    (Stretch.listOf (ofList isSpace xs).stretches)
  rw [← toList, toList_ofList] at hsuffix
  exact hsuffix

/-- What is picked at the sites of a list, at each of them the head or something in the gap, comes
in the order of the list. -/
theorem filterMap_sites_sublist {f : Site α → Option α}
    (h : ∀ site, ∀ a ∈ f site, a ∈ site.head :: site.gap) :
    ((ofList isSpace xs).sites.filterMap f).Sublist xs := by
  have hsites : ((ofList isSpace xs).sites.filterMap f).Sublist _ :=
    filterMap_sublist_flatMap fun site _ => h site
  rw [sites, flatMap_head_gap] at hsites
  exact hsites.trans (listOf_stretches_sublist isSpace xs)

/-- So does what is picked at each of them in the gap or right after it. -/
theorem filterMap_sites_sublist_of_next {f : Site α → Option α}
    (h : ∀ site, ∀ a ∈ f site, a ∈ site.gap ++ site.next.toList) :
    ((ofList isSpace xs).sites.filterMap f).Sublist xs := by
  have hsites : ((ofList isSpace xs).sites.filterMap f).Sublist _ :=
    filterMap_sublist_flatMap fun site _ => h site
  rw [sites, flatMap_gap_next] at hsites
  exact hsites.trans ((List.tail_sublist _).trans (listOf_stretches_sublist isSpace xs))

end Layout

/-! ## Neighbours -/

/-- Two elements that are no spacing, with nothing but spacing between them. -/
structure Neighbours (isSpace : α → Bool) (xs : List α) (left : α) (gap : List α) (right : α) :
    Prop where
  split : ∃ pre post, xs = pre ++ left :: (gap ++ right :: post)
  left : isSpace left = false
  gap : ∀ a ∈ gap, isSpace a = true
  right : isSpace right = false

variable {isSpace : α → Bool} {xs : List α} {left right : α} {gap : List α}

theorem Site.Within.neighbours {site : Site α} {pre post : List α}
    (h : site.Within isSpace xs pre post) (hnext : site.next = some right) :
    Neighbours isSpace xs site.head site.gap right := by
  obtain ⟨rest, rfl, -⟩ := h.split_next hnext
  exact ⟨⟨pre, rest, h.split⟩, h.head, h.gap, h.next right hnext⟩

/-- Around each element that is no spacing a site stands. -/
theorem Site.exists_within_of_split {pre rest : List α} {head : α} (h : xs = pre ++ head :: rest)
    (hhead : isSpace head = false) :
    ∃ before gap post next, rest = gap ++ post ∧
      (Site.mk before head gap next).Within isSpace xs pre post := by
  refine ⟨_, rest.takeWhile isSpace, rest.dropWhile isSpace, (rest.dropWhile isSpace).head?,
    List.takeWhile_append_dropWhile.symm, ?_, rfl, hhead, ?_, rfl, ?_⟩
  · rw [h, List.takeWhile_append_dropWhile]
  · intro a ha
    exact List.mem_takeWhile_imp ha
  · intro a ha
    have hfirst : (rest.dropWhile isSpace).head? = some a := ha
    have hstop := List.head?_dropWhile_not isSpace rest
    rw [hfirst] at hstop
    exact hstop

/-- Between two elements that are no spacing, with nothing but spacing between them, a site
stands. -/
theorem Site.within_of_split {pre post : List α} (h : xs = pre ++ left :: (gap ++ right :: post))
    (hleft : isSpace left = false) (hgap : ∀ a ∈ gap, isSpace a = true)
    (hright : isSpace right = false) :
    (Site.mk (pre.reverse.find? fun a => !isSpace a) left gap (some right)).Within isSpace xs pre
      (right :: post) where
  split := h
  before := rfl
  head := hleft
  gap := hgap
  next_eq := rfl
  next := by simpa using hright

/-- Neighbours are the heads on the two sides of a gap. -/
theorem Neighbours.exists_within (h : Neighbours isSpace xs left gap right) :
    ∃ before pre post, (Site.mk before left gap (some right)).Within isSpace xs pre post := by
  obtain ⟨⟨pre, post, hsplit⟩, hleft, hgap, hright⟩ := h
  exact ⟨_, pre, right :: post, Site.within_of_split hsplit hleft hgap hright⟩

/-- Nothing but spacing stands after the last element that is none. -/
theorem exists_of_find?_reverse (h : (xs.reverse.find? fun a => !isSpace a) = some left) :
    ∃ front gap, xs = front ++ left :: gap ∧ ∀ a ∈ gap, isSpace a = true := by
  obtain ⟨back, front, hsplit, hback⟩ := exists_gap_of_find? h
  refine ⟨front.reverse, back.reverse, ?_, fun a ha => hback a (List.mem_reverse.1 ha)⟩
  rw [← List.reverse_reverse xs, hsplit]
  simp

end ManifestLint
