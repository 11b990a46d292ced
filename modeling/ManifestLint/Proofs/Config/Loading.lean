import Mathlib.Data.List.TakeWhile
import ManifestLint.Config.Load

set_option autoImplicit false

/-! # What can be said of a settings file

A settings file is accepted, or it is rejected by an error that names it; either way it is *judged*.
There are files that are not: the bytes of a file can be no text, and the unknown keys of a mapping
cannot be listed if they are not all of one kind, or if one of them is a number that is too long to
be written. Nor is a file judged if its reader has neither a value for it nor calls it malformed.
Loading breaks off at such an *unfit* file, whether it was asked for or found in a search. At every
other file loading goes as it should (`loadBy_judges`); nothing depends on how documents are
read. -/

namespace ManifestLint

/-! ## Keys without an order -/

namespace Yaml

/-- The kinds of keys that have an order among each other. -/
inductive KeyKind where
  | number
  | text
  | bytes
  | date
  /-- A time, with an offset or without one. -/
  | time (zoned : Bool)
deriving DecidableEq, Repr

namespace Value

/-- The kind of a key; nothing has none. -/
def keyKind? : Value → Option KeyKind
  | bool _ | int _ | float _ => some .number
  | text _ => some .text
  | bytes _ => some .bytes
  | date _ => some .date
  | time t => some (.time t.offset.isSome)
  | null | list _ | pair _ _ | set _ | map _ | enclosing _ => none

/-- Two keys have an order if they are of one kind. -/
theorem less?_isSome_iff (a b : Value) :
    (a.less? b).isSome = true ↔ ∃ kind, a.keyKind? = some kind ∧ b.keyKind? = some kind := by
  cases a with
  | time t =>
      cases b with
      | time u =>
          simp only [less?, Time.less?, keyKind?]
          cases t.offset <;> cases u.offset <;> simp
      | _ => simp [less?, amount?, keyKind?]
  | _ => cases b <;> simp [less?, amount?, keyKind?]

end Value

end Yaml

namespace Settings

/-- Keys that cannot be listed in order: there are several, and they are not all of one kind. -/
structure Unsortable (keys : List Yaml.Value) : Prop where
  several : 1 < keys.length
  mixed : ¬∃ kind, ∀ key ∈ keys, key.keyKind? = some kind

theorem sortKeys?_eq_none_iff (keys : List Yaml.Value) :
    sortKeys? keys = none ↔ Unsortable keys := by
  unfold sortKeys?
  split
  · rename_i hfew
    exact iff_of_false (by simp) fun h => absurd h.several (Nat.not_lt.2 hfew)
  · rename_i hseveral
    have hiff : (keys.all fun key => keys.all fun other => (key.less? other).isSome) = true ↔
        ∃ kind, ∀ key ∈ keys, key.keyKind? = some kind := by
      simp only [List.all_eq_true, Yaml.Value.less?_isSome_iff]
      constructor
      · intro h
        -- the kind is that of any one of the keys
        obtain ⟨first, hfirst⟩ := List.exists_mem_of_length_pos (by omega : 0 < keys.length)
        obtain ⟨kind, -, hkind⟩ := h first hfirst first hfirst
        refine ⟨kind, fun key hkey => ?_⟩
        obtain ⟨kind', hkind', hfirst'⟩ := h key hkey first hfirst
        rw [hkind', ← hfirst', hkind]
      · rintro ⟨kind, h⟩ key hkey other hother
        exact ⟨kind, h key hkey, h other hother⟩
    split
    · rename_i hall
      exact iff_of_false (by simp) fun h => h.mixed (hiff.1 hall)
    · rename_i hall
      exact iff_of_true rfl ⟨Nat.not_le.1 hseveral, mt hiff.2 hall⟩

/-- Keys that cannot be listed: they have no order, or there are no words for one of them. -/
inductive Unlistable (keys : List Yaml.Value) : Prop where
  | unsortable (unsortable : Unsortable keys)
  | unwritable {key : Yaml.Value} (mem : key ∈ keys) (no_words : key.isWritable = false)

theorem not_unlistable_nil : ¬Unlistable [] := by
  rintro (hkeys | ⟨hmem, -⟩)
  · exact absurd hkeys.several (by decide)
  · cases hmem

/-! ## Judged files -/

/-- What is read from the file at the path is there, or the file is rejected. -/
def Judges {α : Type} (path : Path) (result : Except LoadFault α) : Prop :=
  (∃ a, result = .ok a) ∨ ∃ fault, result = .error (.rejected ⟨path, fault⟩)

/-- A file whose bytes are no text or have no value in some other way than by being malformed, or
that holds a mapping whose unknown keys cannot be listed. -/
inductive Unfit (reader : Yaml.Reader) (tree : Tree) (path : Path) : Prop where
  | noText {bytes : ByteArray} (read : tree.read path = .ok bytes)
      (document : reader bytes = .error .undecodable)
  | noValue {bytes : ByteArray} (read : tree.read path = .ok bytes)
      (document : reader bytes = .error .valueless)
  | unlistable {bytes : ByteArray} {entries : List (Yaml.Value × Yaml.Value)}
      (read : tree.read path = .ok bytes) (document : reader bytes = .ok (.map entries))
      (keys : Unlistable (unknownKeys entries))

section Judges

variable {α β : Type} {path : Path}

theorem Judges.ok (a : α) : Judges path (.ok a) := .inl ⟨a, rfl⟩

theorem Judges.rejected (fault : ConfigFault) :
    Judges path (.error (.rejected ⟨path, fault⟩) : Except LoadFault α) := .inr ⟨fault, rfl⟩

theorem judges_mapError (result : Except ConfigFault α) :
    Judges path (result.mapError fun fault => LoadFault.rejected ⟨path, fault⟩) := by
  cases result with
  | error fault => exact .rejected fault
  | ok a => exact .ok a

theorem judges_map_iff (f : α → β) (result : Except LoadFault α) :
    Judges path (result.map f) ↔ Judges path result := by
  cases result with
  | ok a => exact iff_of_true (.ok (f a)) (.ok a)
  | error fault =>
      show ((∃ b, Except.error fault = .ok b) ∨ ∃ e, Except.error fault = .error _) ↔
        (∃ a, Except.error fault = .ok a) ∨ ∃ e, Except.error fault = .error _
      simp

theorem not_judges_of_ne {fault : LoadFault} (h : ∀ e, fault ≠ .rejected e) :
    ¬Judges path (.error fault : Except LoadFault α) := by
  rintro (⟨a, ⟨⟩⟩ | ⟨rejection, hfault⟩)
  exact h _ (Except.error.inj hfault)

end Judges

variable {reader : Yaml.Reader} {tree : Tree} {path : Path}

/-- A document is judged unless it is a mapping whose unknown keys cannot be listed. -/
theorem judges_updateFromDocument_iff (settings : Settings) (document : Yaml.Value) :
    Judges path (settings.updateFromDocument path document) ↔
      ¬∃ entries, document = .map entries ∧ Unlistable (unknownKeys entries) := by
  unfold updateFromDocument
  dsimp only
  split
  · rename_i hempty
    refine iff_of_true (.ok settings) ?_
    rintro ⟨entries, rfl, hkeys⟩
    have hnil : entries = [] := by simpa [Yaml.Value.isEmptyLike] using hempty
    rw [hnil] at hkeys
    exact not_unlistable_nil hkeys
  · cases document with
    | map entries =>
        have hiff : (¬∃ entries', Yaml.Value.map entries = .map entries' ∧
            Unlistable (unknownKeys entries')) ↔ ¬Unlistable (unknownKeys entries) := by simp
        rw [hiff]
        dsimp only
        split
        · rename_i hnone
          refine iff_of_true (judges_mapError _) ?_
          rw [List.isEmpty_iff.1 hnone]
          exact not_unlistable_nil
        · cases hsorted : sortKeys? (unknownKeys entries) with
          | none =>
              refine iff_of_false (not_judges_of_ne nofun) (not_not.2 (.unsortable ?_))
              exact (sortKeys?_eq_none_iff _).1 hsorted
          | some sorted =>
              dsimp only
              split
              · -- the keys are in order and can be written, which is all that can go wrong
                rename_i hwords
                refine iff_of_true (.rejected _) ?_
                rintro (hkeys | ⟨hmem, hlong⟩)
                · rw [(sortKeys?_eq_none_iff _).2 hkeys] at hsorted
                  cases hsorted
                · rw [List.all_eq_true.1 hwords _ hmem] at hlong
                  cases hlong
              · rename_i hwords
                refine iff_of_false (not_judges_of_ne nofun) (not_not.2 ?_)
                simp only [List.all_eq_true, not_forall, Bool.not_eq_true] at hwords
                obtain ⟨key, hmem, hlong⟩ := hwords
                exact .unwritable hmem hlong
    | _ => exact iff_of_true (.rejected _) (by simp)

/-- A file is judged unless it is unfit. -/
theorem judges_updateFromFile_iff (settings : Settings) :
    Judges path (settings.updateFromFile reader tree path) ↔ ¬Unfit reader tree path := by
  unfold updateFromFile
  cases hread : tree.read path with
  | error fault =>
      refine iff_of_true (.rejected _) ?_
      rintro (⟨hread', -⟩ | ⟨hread', -⟩ | ⟨hread', -, -⟩) <;> rw [hread] at hread' <;> cases hread'
  | ok bytes =>
      dsimp only
      -- what is unfit is unfit by what is read from these very bytes
      have hunfit : Unfit reader tree path ↔
          reader bytes = .error .undecodable ∨ reader bytes = .error .valueless ∨
            ∃ entries, reader bytes = .ok (.map entries) ∧ Unlistable (unknownKeys entries) := by
        constructor
        · rintro (⟨hread', hfault⟩ | ⟨hread', hfault⟩ | ⟨hread', hdocument, hkeys⟩)
          · obtain rfl := Except.ok.inj (hread.symm.trans hread')
            exact .inl hfault
          · obtain rfl := Except.ok.inj (hread.symm.trans hread')
            exact .inr (.inl hfault)
          · obtain rfl := Except.ok.inj (hread.symm.trans hread')
            exact .inr (.inr ⟨_, hdocument, hkeys⟩)
        · rintro (hfault | hfault | ⟨entries, hdocument, hkeys⟩)
          · exact .noText hread hfault
          · exact .noValue hread hfault
          · exact .unlistable hread hdocument hkeys
      rw [hunfit]
      cases hdocument : reader bytes with
      | error fault =>
          cases fault with
          | undecodable | valueless => exact iff_of_false (not_judges_of_ne nofun) (by simp)
          | malformed => exact iff_of_true (.rejected _) (by simp)
      | ok document =>
          dsimp only
          rw [judges_updateFromDocument_iff]
          simp

end Settings

namespace Loaded

/-- Decides whether loading broke off at keys without an order. -/
def lacksOrder (loaded : Loaded) : Bool :=
  match loaded.result with
  | .error .unsortableKeys => true
  | _ => false

/-- Decides whether loading broke off at bytes that are no text. -/
def lacksText (loaded : Loaded) : Bool :=
  match loaded.result with
  | .error .undecodable => true
  | _ => false

theorem eq_unsortableKeys {loaded : Loaded} (h : loaded.lacksOrder = true) :
    loaded.result = .error .unsortableKeys := by
  unfold lacksOrder at h
  split at h
  · assumption
  · cases h

theorem eq_undecodable {loaded : Loaded} (h : loaded.lacksText = true) :
    loaded.result = .error .undecodable := by
  unfold lacksText at h
  split at h
  · assumption
  · cases h

end Loaded

namespace Config

open Settings

/-! ## Searching -/

/-- The rejection of the file at a place, if there is one and it is rejected. -/
def rejection? (reader : Yaml.Reader) (tree : Tree) (path : Path) : Option ConfigError :=
  if tree.has path then
    match Settings.default.updateFromFile reader tree path with
    | .error (.rejected e) => some e
    | _ => none
  else none

/-- Nothing is at the place, or something that is rejected. -/
def passedOver (reader : Yaml.Reader) (tree : Tree) (path : Path) : Bool :=
  !tree.has path || (rejection? reader tree path).isSome

/-- The log entry for a file that is passed over. -/
def ignored (e : ConfigError) : LogEntry :=
  ⟨.warning, loggerName, "Ignoring config: " ++ e.message⟩

/-- The place that a search ends at, if it does not come to the end of its list. -/
def chosen? (reader : Yaml.Reader) (tree : Tree) (places : List Path) : Option Path :=
  (places.dropWhile (passedOver reader tree)).head?

variable {reader : Yaml.Reader} {tree : Tree} {places : List Path}

/-- A search ends at the first place that is not passed over, and has logged the rejected files
before it, one entry for each. -/
theorem search_eq (reader : Yaml.Reader) (tree : Tree) (places : List Path) :
    search reader tree places =
      ⟨match chosen? reader tree places with
        | none => .ok ⟨.default, none⟩
        | some path => (Settings.default.updateFromFile reader tree path).map fun settings =>
            ⟨settings, some path⟩,
        ((places.takeWhile (passedOver reader tree)).filterMap (rejection? reader tree)).map
          ignored⟩ := by
  induction places with
  | nil => rfl
  | cons path rest ih =>
      unfold search chosen?
      unfold chosen? at ih
      by_cases hhas : tree.has path = true
      · rw [if_pos hhas]
        cases hresult : Settings.default.updateFromFile reader tree path with
        | ok settings =>
            have hnone : rejection? reader tree path = none := by
              simp [rejection?, hhas, hresult]
            have hstop : ¬passedOver reader tree path = true := by simp [passedOver, hhas, hnone]
            rw [List.dropWhile_cons_of_neg hstop, List.takeWhile_cons_of_neg hstop,
              List.head?_cons]
            simp only [hresult]
            rfl
        | error fault =>
            -- only a rejected file is passed over
            cases fault with
            | rejected e =>
                have hsome : rejection? reader tree path = some e := by
                  simp [rejection?, hhas, hresult]
                have hpass : passedOver reader tree path = true := by simp [passedOver, hsome]
                rw [List.dropWhile_cons_of_pos hpass, List.takeWhile_cons_of_pos hpass,
                  List.filterMap_cons_some hsome, List.map_cons]
                dsimp only
                rw [ih]
                rfl
            | _ =>
                have hnone : rejection? reader tree path = none := by
                  simp [rejection?, hhas, hresult]
                have hstop : ¬passedOver reader tree path = true := by
                  simp [passedOver, hhas, hnone]
                rw [List.dropWhile_cons_of_neg hstop, List.takeWhile_cons_of_neg hstop,
                  List.head?_cons]
                simp only [hresult]
                rfl
      · have hnone : rejection? reader tree path = none := by simp [rejection?, hhas]
        have hpass : passedOver reader tree path = true := by simp [passedOver, hhas]
        rw [if_neg hhas, List.dropWhile_cons_of_pos hpass, List.takeWhile_cons_of_pos hpass,
          List.filterMap_cons_none hnone, ih]

/-! ## Loading -/

/-- A place at which a search ends holds a file that is not rejected. -/
theorem not_rejected_of_chosen? {path : Path} (h : chosen? reader tree places = some path) :
    ∀ e, Settings.default.updateFromFile reader tree path ≠ .error (.rejected e) := by
  have hstop : passedOver reader tree path = false := by
    have hhead := List.head?_dropWhile_not (passedOver reader tree) places
    rw [show (places.dropWhile (passedOver reader tree)).head? = some path from h] at hhead
    simpa using hhead
  intro e he
  by_cases hhas : tree.has path = true
  · have hsome : rejection? reader tree path = some e := by simp [rejection?, hhas, he]
    simp [passedOver, hsome] at hstop
  · simp [passedOver, hhas] at hstop

/-- **Loading judges the file it comes to**, unless that file is unfit: it is accepted, or it is
rejected by an error that names it. A file that was asked for is the one; otherwise it is the first
place of the list at which something is that is not rejected, every rejected file before it is
logged as ignored, and the search gives settings whatever it finds or does not find. -/
theorem loadBy_judges (reader : Yaml.Reader) (tree : Tree) (environment : Environment)
    (places : List Path) :
    (∀ path, Judges path (loadBy reader tree environment (some path) places).result ↔
      ¬Unfit reader tree path) ∧
    ((∃ config, (loadBy reader tree environment none places).result = .ok config ∧
        config.path = chosen? reader tree places) ↔
      ∀ path ∈ chosen? reader tree places, ¬Unfit reader tree path) ∧
    (loadBy reader tree environment none places).log =
      ((places.takeWhile (passedOver reader tree)).filterMap (rejection? reader tree)).map
        ignored := by
  refine ⟨fun path => ?_, ?_, ?_⟩
  · unfold loadBy loadFiles
    rw [judges_map_iff, judges_map_iff, judges_updateFromFile_iff]
  · unfold loadBy loadFiles
    dsimp only
    rw [search_eq]
    dsimp only
    cases hchosen : chosen? reader tree places with
    | none => exact iff_of_true ⟨_, rfl, rfl⟩ (by simp)
    | some path =>
        have hnot := not_rejected_of_chosen? hchosen
        simp only [Option.mem_some_iff, forall_eq']
        rw [← judges_updateFromFile_iff Settings.default]
        cases hresult : Settings.default.updateFromFile reader tree path with
        | ok settings => exact iff_of_true ⟨_, rfl, rfl⟩ (.ok settings)
        | error fault =>
            refine iff_of_false ?_ ?_
            · rintro ⟨config, ⟨⟩, -⟩
            · rintro (⟨settings, ⟨⟩⟩ | ⟨_, ⟨⟩⟩)
              exact hnot _ hresult
  · unfold loadBy loadFiles
    dsimp only
    rw [search_eq]

/-- A mapping with a number and a word for its keys, bytes that are no text, and a file that is as
it should be. -/
def unfitFiles : Tree :=
  ⟨[], [(["mixed.yaml"], "1: a\nb: c\n".toUTF8), (["latin.yaml"], ⟨#[0xE9]⟩),
    (["good.yaml"], "fix: true\n".toUTF8)], []⟩

/-- Neither of the first two files is judged: the mapping is not rejected when it is asked for, and
the bytes are not passed over in a search. -/
theorem load_unfitFiles :
    (load unfitFiles .empty (some (.ofString "mixed.yaml")) []).result = .error .unsortableKeys ∧
      (load unfitFiles .empty none [.ofString "latin.yaml", .ofString "good.yaml"]).result =
        .error .undecodable :=
  ⟨Loaded.eq_unsortableKeys (by decide +kernel), Loaded.eq_undecodable (by decide +kernel)⟩

end Config

end ManifestLint
