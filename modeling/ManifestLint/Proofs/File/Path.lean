import Mathlib.Data.List.TakeWhile
import ManifestLint.File.Path

set_option autoImplicit false

/-! # Paths read back

A path that was read from a text is *normal*: its anchor is one of three, and its components are
proper names without a slash. A normal path written as text is read as itself
(`ofString_shown`). -/

namespace ManifestLint.Path

/-! ## Between slashes -/

theorem splitSlashes_slash (cs : List Char) : splitSlashes ('/' :: cs) = [] :: splitSlashes cs := by
  rw [splitSlashes, if_pos rfl]

theorem splitSlashes_of_notMem {cs : List Char} (h : '/' ∉ cs) : splitSlashes cs = [cs] := by
  induction cs with
  | nil => rfl
  | cons c rest ih =>
      rw [List.mem_cons, not_or] at h
      rw [splitSlashes, if_neg (Ne.symm h.1), ih h.2]

theorem splitSlashes_append {part : List Char} (h : '/' ∉ part) (cs : List Char) :
    splitSlashes (part ++ '/' :: cs) = part :: splitSlashes cs := by
  induction part with
  | nil => exact splitSlashes_slash cs
  | cons c rest ih =>
      rw [List.mem_cons, not_or] at h
      rw [List.cons_append, splitSlashes, if_neg (Ne.symm h.1), ih h.2]

theorem notMem_of_mem_splitSlashes {cs part : List Char} (h : part ∈ splitSlashes cs) :
    '/' ∉ part := by
  induction cs generalizing part with
  | nil =>
      rw [splitSlashes, List.mem_singleton] at h
      rw [h]
      exact List.not_mem_nil
  | cons c rest ih =>
      rw [splitSlashes] at h
      split at h
      · rcases List.mem_cons.1 h with rfl | hrest
        · exact List.not_mem_nil
        · exact ih hrest
      · rename_i hc
        have hcons : ∀ {front : List Char}, '/' ∉ front → '/' ∉ c :: front := by
          intro front hfront hmem
          rcases List.mem_cons.1 hmem with heq | htail
          · exact hc heq.symm
          · exact hfront htail
        split at h
        · rw [List.mem_singleton.1 h]
          exact hcons List.not_mem_nil
        · rename_i first others hsplit
          rw [hsplit] at ih
          rcases List.mem_cons.1 h with rfl | hothers
          · exact hcons (ih List.mem_cons_self)
          · exact ih (List.mem_cons_of_mem first hothers)

/-- Names that are joined by slashes are found again between them. -/
theorem splitSlashes_intercalate {part : List Char} {parts : List (List Char)}
    (h : ∀ p ∈ part :: parts, '/' ∉ p) :
    splitSlashes (List.intercalate ['/'] (part :: parts)) = part :: parts := by
  induction parts generalizing part with
  | nil =>
      rw [List.intercalate_singleton]
      exact splitSlashes_of_notMem (h part List.mem_cons_self)
  | cons next rest ih =>
      rw [List.forall_mem_cons] at h
      rw [List.intercalate_cons_cons, List.append_assoc, List.singleton_append,
        splitSlashes_append h.1, ih h.2]

/-! ## Normal paths -/

/-- A path as it is read from a text. -/
structure Normal (path : Path) : Prop where
  anchor : path.anchor = "" ∨ path.anchor = "/" ∨ path.anchor = "//"
  proper : ∀ part ∈ path.parts, isProper part = true
  no_slash : ∀ part ∈ path.parts, '/' ∉ part.toList

theorem normal_ofString (s : String) : (ofString s).Normal where
  anchor := by
    show anchorOf s = "" ∨ anchorOf s = "/" ∨ anchorOf s = "//"
    unfold anchorOf
    split
    · exact .inl rfl
    · exact .inr (.inr rfl)
    · exact .inr (.inl rfl)
  proper part hmem := (List.mem_filter.1 hmem).2
  no_slash part hmem := by
    obtain ⟨cs, hcs, rfl⟩ := List.mem_map.1 (List.mem_filter.1 hmem).1
    rw [String.toList_ofList]
    exact notMem_of_mem_splitSlashes hcs

/-- The slashes of an anchor say nothing as components. -/
theorem filter_components_anchor {anchor : String}
    (h : anchor = "" ∨ anchor = "/" ∨ anchor = "//") (s : String) :
    (components (anchor ++ s)).filter isProper = (components s).filter isProper := by
  have hslash : ∀ cs : List Char,
      ((splitSlashes ('/' :: cs)).map String.ofList).filter isProper =
        ((splitSlashes cs).map String.ofList).filter isProper := by
    intro cs
    rw [splitSlashes_slash, List.map_cons, List.filter_cons, if_neg (by decide)]
  unfold components
  rw [String.toList_append]
  rcases h with rfl | rfl | rfl
  · rfl
  · exact hslash _
  · exact (hslash _).trans (hslash _)

theorem ofList_toList_map (parts : List String) :
    (parts.map String.toList).map String.ofList = parts := by
  rw [List.map_map]
  calc parts.map (String.ofList ∘ String.toList)
      = parts.map id := List.map_congr_left fun part _ => String.ofList_toList
    _ = parts := List.map_id _

theorem filter_components_intercalate {parts : List String}
    (hproper : ∀ part ∈ parts, isProper part = true)
    (hslash : ∀ part ∈ parts, '/' ∉ part.toList) :
    (components (String.intercalate "/" parts)).filter isProper = parts := by
  unfold components
  rw [String.toList_intercalate]
  cases parts with
  | nil => rfl
  | cons part rest =>
      have hlists : ∀ p ∈ (part :: rest).map String.toList, '/' ∉ p := by
        intro p hp
        obtain ⟨name, hname, rfl⟩ := List.mem_map.1 hp
        exact hslash name hname
      have hsplit : splitSlashes (List.intercalate ['/'] ((part :: rest).map String.toList)) =
          (part :: rest).map String.toList := splitSlashes_intercalate hlists
      show ((splitSlashes (List.intercalate ['/'] _)).map String.ofList).filter isProper = _
      rw [hsplit, ofList_toList_map, List.filter_eq_self.2 hproper]

/-- Names that are joined by slashes do not begin with one. -/
theorem takeWhile_intercalate {parts : List String}
    (hproper : ∀ part ∈ parts, isProper part = true)
    (hslash : ∀ part ∈ parts, '/' ∉ part.toList) :
    (String.intercalate "/" parts).toList.takeWhile (· == '/') = [] := by
  cases parts with
  | nil => rfl
  | cons part rest =>
      have hne : part.toList ≠ [] := by
        intro hnil
        have hempty : part = "" := String.toList_eq_nil_iff.1 hnil
        have hpart := hproper part List.mem_cons_self
        rw [hempty] at hpart
        cases hpart
      obtain ⟨c, cs, hc⟩ := List.exists_cons_of_ne_nil hne
      have hcslash : c ≠ '/' := by
        rintro rfl
        apply hslash part List.mem_cons_self
        rw [hc]
        exact List.mem_cons_self
      have hhead : ∃ others, (String.intercalate "/" (part :: rest)).toList = c :: others := by
        rw [String.toList_intercalate, List.map_cons, hc]
        cases rest with
        | nil => exact ⟨cs, List.intercalate_singleton⟩
        | cons next others =>
            rw [List.map_cons, List.intercalate_cons_cons]
            exact ⟨_, rfl⟩
      obtain ⟨others, hothers⟩ := hhead
      rw [hothers, List.takeWhile_cons_of_neg (by simpa using hcslash)]

theorem anchorOf_congr {s t : String}
    (h : s.toList.takeWhile (· == '/') = t.toList.takeWhile (· == '/')) :
    anchorOf s = anchorOf t := by
  unfold anchorOf
  rw [h]

theorem anchorOf_append {anchor s : String}
    (h : anchor = "" ∨ anchor = "/" ∨ anchor = "//")
    (hs : s.toList.takeWhile (· == '/') = []) : anchorOf (anchor ++ s) = anchor := by
  have hslashes : ∀ c ∈ anchor.toList, (c == '/') = true := by
    rcases h with rfl | rfl | rfl <;> simp
  have hself : anchorOf anchor = anchor := by
    rcases h with rfl | rfl | rfl <;> rfl
  have hfront : (anchor ++ s).toList.takeWhile (· == '/') =
      anchor.toList.takeWhile (· == '/') := by
    rw [String.toList_append, List.takeWhile_append_of_pos hslashes, hs, List.append_nil]
    exact (List.takeWhile_eq_self_iff.2 hslashes).symm
  rw [anchorOf_congr hfront, hself]

/-- **A normal path written as text is read as itself.** -/
theorem Normal.ofString_shown {path : Path} (h : path.Normal) : ofString path.shown = path := by
  obtain ⟨anchor, parts⟩ := path
  unfold shown
  split
  · rename_i hdot
    obtain ⟨rfl, rfl⟩ : anchor = "" ∧ parts = [] := hdot
    rfl
  · show Path.mk (anchorOf (anchor ++ String.intercalate "/" parts))
      ((components (anchor ++ String.intercalate "/" parts)).filter isProper) = ⟨anchor, parts⟩
    rw [filter_components_anchor h.anchor, filter_components_intercalate h.proper h.no_slash,
      anchorOf_append h.anchor (takeWhile_intercalate h.proper h.no_slash)]

end ManifestLint.Path
