import ManifestLint.Proofs.Config.Precedence

set_option autoImplicit false

/-! # The shape of a settings file

A document is *well shaped* if it is nothing, or a mapping with known keys only in which repairs are
set by a truth value, checks are named by lists of texts, and the file pattern is a text. Every well
shaped document is accepted. Not every other one is rejected, though. Three kinds slip through: what
is *hollow*, empty without being nothing or a mapping, is taken for nothing; a *stray* item or
pattern that is no text is not looked at; and unknown keys that cannot be listed are no rejection
either, as loading breaks off at them (`loadBy_shape`).

Stray values go on into the options of a run. These hold texts, as they should, exactly if there is
no stray value in the file they come from. -/

namespace ManifestLint

namespace Yaml.Value

/-! ## Kinds of values -/

/-- Decides whether a value is a text, whatever it says. -/
def isSomeText : Value → Bool
  | text _ => true
  | _ => false

/-- Decides whether a value is a truth value. -/
def isTruth : Value → Bool
  | bool _ => true
  | _ => false

/-- Decides whether a value is a list. -/
def isList : Value → Bool
  | list _ => true
  | _ => false

/-- Decides whether a value is a list of texts. -/
def isTextList : Value → Bool
  | list items => items.all isSomeText
  | _ => false

/-- Decides whether a value counts as absent though it is neither nothing nor a mapping. -/
def isHollow : Value → Bool
  | null | map _ => false
  | value => value.isEmptyLike

theorem isList_of_isTextList {value : Value} (h : value.isTextList = true) :
    value.isList = true := by
  cases value with
  | list items => rfl
  | _ => cases h

/-- What counts as absent is nothing, something hollow, or a mapping without entries. -/
theorem isEmptyLike_iff (value : Value) :
    value.isEmptyLike = true ↔ value = .null ∨ value.isHollow = true ∨ value = .map [] := by
  cases value <;> simp [isEmptyLike, isHollow]

end Yaml.Value

namespace Settings

variable {reader : Yaml.Reader} {tree : Tree} {path : Path}
  {entries : List (Yaml.Value × Yaml.Value)}

/-! ## Shapes of documents -/

/-- What is checked of a mapping: its keys, and the outer shape of three of its values. -/
structure Checked (entries : List (Yaml.Value × Yaml.Value)) : Prop where
  keys : ∀ entry ∈ entries, ∃ name ∈ Settings.keys, entry.1 = .text name
  only : ∀ value ∈ Yaml.Value.lookup? entries onlyKey, value.isList = true
  disabled : ∀ value ∈ Yaml.Value.lookup? entries disabledKey, value.isList = true
  fix : ∀ value ∈ Yaml.Value.lookup? entries fixKey, value.isTruth = true

/-- What a mapping of settings should be. -/
structure Shaped (entries : List (Yaml.Value × Yaml.Value)) : Prop where
  keys : ∀ entry ∈ entries, ∃ name ∈ Settings.keys, entry.1 = .text name
  fix : ∀ value ∈ Yaml.Value.lookup? entries fixKey, value.isTruth = true
  only : ∀ value ∈ Yaml.Value.lookup? entries onlyKey, value.isTextList = true
  disabled : ∀ value ∈ Yaml.Value.lookup? entries disabledKey, value.isTextList = true
  filePattern : ∀ value ∈ Yaml.Value.lookup? entries filePatternKey, value.isSomeText = true

/-- A document that is nothing, or a mapping of settings as it should be. -/
inductive WellShaped : Yaml.Value → Prop where
  | nothing : WellShaped .null
  | mapping {entries : List (Yaml.Value × Yaml.Value)} (shaped : Shaped entries) :
      WellShaped (.map entries)

/-- A check is named by something that is no text, or the file pattern is none. -/
inductive Stray (entries : List (Yaml.Value × Yaml.Value)) : Prop where
  | item {key : String} {items : List Yaml.Value} {item : Yaml.Value}
      (key_eq : key = onlyKey ∨ key = disabledKey)
      (lookup : Yaml.Value.lookup? entries key = some (.list items)) (mem : item ∈ items)
      (not_text : item.isSomeText = false)
  | pattern {value : Yaml.Value} (lookup : Yaml.Value.lookup? entries filePatternKey = some value)
      (not_text : value.isSomeText = false)

/-- A document that is not rejected, well shaped or not. -/
inductive Slips : Yaml.Value → Prop where
  | hollow {document : Yaml.Value} (hollow : document.isHollow = true) : Slips document
  | stray {entries : List (Yaml.Value × Yaml.Value)} (checked : Checked entries)
      (stray : Stray entries) : Slips (.map entries)
  | unlisted {entries : List (Yaml.Value × Yaml.Value)}
      (unlistable : Unlistable (unknownKeys entries)) : Slips (.map entries)

theorem Stray.of_name {key : String} {value : Yaml.Value}
    (hkey : key = onlyKey ∨ key = disabledKey) (hvalue : value ∈ Yaml.Value.lookup? entries key)
    (hlist : value.isList = true) (htexts : value.isTextList = false) : Stray entries := by
  cases value with
  | list items =>
      simp only [Yaml.Value.isTextList, List.all_eq_false, Bool.not_eq_true] at htexts
      obtain ⟨item, hmem, hitem⟩ := htexts
      exact .item hkey hvalue hmem hitem
  | _ => cases hlist

theorem not_stray_nil : ¬Stray [] := by
  rintro (⟨-, ⟨⟩, -, -⟩ | ⟨⟨⟩, -⟩)

theorem Shaped.names (h : Shaped entries) {key : String}
    (hkey : key = onlyKey ∨ key = disabledKey) :
    ∀ value ∈ Yaml.Value.lookup? entries key, value.isTextList = true := by
  rcases hkey with rfl | rfl
  · exact h.only
  · exact h.disabled

theorem Shaped.not_stray (h : Shaped entries) : ¬Stray entries := by
  rintro (⟨hkey, hlookup, hmem, hitem⟩ | ⟨hlookup, hvalue⟩)
  · have htext := List.all_eq_true.1 (h.names hkey _ hlookup) _ hmem
    rw [hitem] at htext
    cases htext
  · have htext := h.filePattern _ hlookup
    rw [hvalue] at htext
    cases htext

theorem Shaped.checked (h : Shaped entries) : Checked entries where
  keys := h.keys
  only value hvalue := Yaml.Value.isList_of_isTextList (h.only value hvalue)
  disabled value hvalue := Yaml.Value.isList_of_isTextList (h.disabled value hvalue)
  fix := h.fix

/-- **A mapping is as it should be** if it passes the checks and holds no stray value. -/
theorem shaped_iff : Shaped entries ↔ Checked entries ∧ ¬Stray entries := by
  refine ⟨fun h => ⟨h.checked, h.not_stray⟩, ?_⟩
  rintro ⟨hchecked, hstray⟩
  refine ⟨hchecked.keys, hchecked.fix, fun value hvalue => ?_, fun value hvalue => ?_,
    fun value hvalue => ?_⟩
  · by_contra htexts
    exact hstray (.of_name (.inl rfl) hvalue (hchecked.only value hvalue) (by simpa using htexts))
  · by_contra htexts
    exact hstray (.of_name (.inr rfl) hvalue (hchecked.disabled value hvalue)
      (by simpa using htexts))
  · by_contra htext
    exact hstray (.pattern hvalue (by simpa using htext))

theorem isKnown_iff (key : Yaml.Value) :
    isKnown key = true ↔ ∃ name ∈ Settings.keys, key = .text name := by
  unfold isKnown
  rw [List.any_eq_true]
  cases key <;> simp [Yaml.Value.isText]

instance : Decidable (Shaped entries) :=
  decidable_of_iff
    ((∀ entry ∈ entries, isKnown entry.1 = true) ∧
      (∀ value ∈ Yaml.Value.lookup? entries fixKey, value.isTruth = true) ∧
      (∀ value ∈ Yaml.Value.lookup? entries onlyKey, value.isTextList = true) ∧
      (∀ value ∈ Yaml.Value.lookup? entries disabledKey, value.isTextList = true) ∧
      ∀ value ∈ Yaml.Value.lookup? entries filePatternKey, value.isSomeText = true)
    ⟨fun ⟨hkeys, hfix, honly, hdisabled, hpattern⟩ =>
      ⟨fun entry hentry => (isKnown_iff entry.1).1 (hkeys entry hentry),
        hfix, honly, hdisabled, hpattern⟩,
    fun h => ⟨fun entry hentry => (isKnown_iff entry.1).2 (h.keys entry hentry),
      h.fix, h.only, h.disabled, h.filePattern⟩⟩

instance : (document : Yaml.Value) → Decidable (WellShaped document)
  | .null => .isTrue .nothing
  | .map entries => decidable_of_iff (Shaped entries) ⟨.mapping, fun | .mapping h => h⟩
  | .bool _ | .int _ | .float _ | .text _ | .bytes _ | .date _ | .time _ | .list _ | .pair _ _
  | .set _ | .enclosing _ => .isFalse nofun

/-! ## What is accepted -/

theorem unknownKeys_eq_nil_iff :
    unknownKeys entries = [] ↔ ∀ entry ∈ entries, ∃ name ∈ Settings.keys, entry.1 = .text name := by
  unfold unknownKeys
  rw [List.filter_eq_nil_iff, List.forall_mem_map]
  simp only [Bool.not_eq_true', Bool.not_eq_false, isKnown_iff]

theorem exists_listAt_iff {key : String} : (∃ items, listAt entries key = .ok items) ↔
    ∀ value ∈ Yaml.Value.lookup? entries key, value.isList = true := by
  unfold listAt
  cases Yaml.Value.lookup? entries key with
  | none => simp
  | some value => cases value <;> simp [Yaml.Value.isList]

theorem exists_fixIn_iff : (∃ fix, fixIn entries = .ok fix) ↔
    ∀ value ∈ Yaml.Value.lookup? entries fixKey, value.isTruth = true := by
  unfold fixIn
  cases Yaml.Value.lookup? entries fixKey with
  | none => simp
  | some value => cases value <;> simp [Yaml.Value.isTruth]

/-- Entries are taken over if the values of three keys have the right outer shape. -/
theorem exists_update_iff (base : Settings) : (∃ settings, base.update entries = .ok settings) ↔
    (∃ only, listAt entries onlyKey = .ok only) ∧
      (∃ disabled, listAt entries disabledKey = .ok disabled) ∧
      ∃ fix, fixIn entries = .ok fix := by
  constructor
  · rintro ⟨settings, h⟩
    obtain ⟨only, honly, h⟩ := exists_of_bind_ok h
    obtain ⟨disabled, hdisabled, h⟩ := exists_of_bind_ok h
    obtain ⟨fix, hfix, -⟩ := exists_of_bind_ok h
    exact ⟨⟨only, honly⟩, ⟨disabled, hdisabled⟩, fix, hfix⟩
  · rintro ⟨⟨only, honly⟩, ⟨disabled, hdisabled⟩, fix, hfix⟩
    unfold update
    rw [honly, hdisabled, hfix]
    exact ⟨_, rfl⟩

/-- **A document is accepted** if it counts as absent or is a mapping that passes the checks. -/
theorem exists_updateFromDocument_iff (base : Settings) (document : Yaml.Value) :
    (∃ settings, base.updateFromDocument path document = .ok settings) ↔
      document.isEmptyLike = true ∨ ∃ entries, document = .map entries ∧ Checked entries := by
  unfold updateFromDocument
  dsimp only
  split
  · rename_i hempty
    exact iff_of_true ⟨base, rfl⟩ (.inl hempty)
  · rename_i hempty
    rw [or_iff_right hempty]
    cases document with
    | map entries =>
        simp only [Yaml.Value.map.injEq, exists_eq_left']
        split
        · rename_i hknown
          have hkeys := unknownKeys_eq_nil_iff.1 (List.isEmpty_iff.1 hknown)
          have hupdate : (∃ settings, base.update entries = .ok settings) ↔ _ :=
            exists_update_iff base
          rw [exists_listAt_iff, exists_listAt_iff, exists_fixIn_iff] at hupdate
          constructor
          · rintro ⟨settings, h⟩
            obtain ⟨honly, hdisabled, hfix⟩ := hupdate.1 ⟨settings, ok_of_mapError h⟩
            exact ⟨hkeys, honly, hdisabled, hfix⟩
          · intro h
            obtain ⟨settings, hsettings⟩ := hupdate.2 ⟨h.only, h.disabled, h.fix⟩
            rw [hsettings]
            exact ⟨settings, rfl⟩
        · rename_i hunknown
          refine iff_of_false ?_ fun h => ?_
          · rintro ⟨settings, h⟩
            split at h
            · cases h
            · split at h <;> cases h
          · exact hunknown (List.isEmpty_iff.2 (unknownKeys_eq_nil_iff.2 h.keys))
    | _ => simp

/-- **A document is well shaped** if it is accepted and does not slip through. -/
theorem wellShaped_iff (base : Settings) (path : Path) (document : Yaml.Value) :
    WellShaped document ↔
      (∃ settings, base.updateFromDocument path document = .ok settings) ∧ ¬Slips document := by
  rw [exists_updateFromDocument_iff]
  constructor
  · rintro (_ | ⟨hshaped⟩)
    · refine ⟨.inl rfl, ?_⟩
      rintro ⟨⟨⟩⟩
    · rename_i entries
      refine ⟨.inr ⟨entries, rfl, hshaped.checked⟩, ?_⟩
      rintro (⟨⟨⟩⟩ | ⟨-, hstray⟩ | ⟨hkeys⟩)
      · exact hshaped.not_stray hstray
      · -- there is nothing to be listed, as no key is unknown
        rw [unknownKeys_eq_nil_iff.2 hshaped.keys] at hkeys
        exact not_unlistable_nil hkeys
  · rintro ⟨hempty | ⟨entries, rfl, hchecked⟩, hslips⟩
    · rcases document.isEmptyLike_iff.1 hempty with rfl | hhollow | rfl
      · exact .nothing
      · exact (hslips (.hollow hhollow)).elim
      · exact .mapping ⟨by simp, by simp [Yaml.Value.lookup?], by simp [Yaml.Value.lookup?],
          by simp [Yaml.Value.lookup?], by simp [Yaml.Value.lookup?]⟩
    · exact .mapping (shaped_iff.2 ⟨hchecked, fun hstray => hslips (.stray hchecked hstray)⟩)

/-- What is not well shaped is rejected unless it slips through. -/
theorem exists_rejected_iff (base : Settings) {document : Yaml.Value} (h : ¬WellShaped document) :
    (∃ fault, base.updateFromDocument path document = .error (.rejected ⟨path, fault⟩)) ↔
      ¬Slips document := by
  have hjudges : Judges path (base.updateFromDocument path document) ↔ _ :=
    judges_updateFromDocument_iff base document
  constructor
  · rintro ⟨fault, hfault⟩ hslips
    have hnot : ¬∃ settings, base.updateFromDocument path document = .ok settings := by
      rintro ⟨settings, hok⟩
      rw [hfault] at hok
      cases hok
    rw [exists_updateFromDocument_iff] at hnot
    cases hslips with
    | hollow hhollow => exact hnot (.inl ((document.isEmptyLike_iff).2 (.inr (.inl hhollow))))
    | stray hchecked hstray => exact hnot (.inr ⟨_, rfl, hchecked⟩)
    | unlisted hkeys => exact hjudges.1 (.inr ⟨fault, hfault⟩) ⟨_, rfl, hkeys⟩
  · intro hslips
    have hjudged : Judges path (base.updateFromDocument path document) := by
      refine hjudges.2 ?_
      rintro ⟨entries, rfl, hkeys⟩
      exact hslips (.unlisted hkeys)
    rcases hjudged with haccepted | hrejected
    · exact (h ((wellShaped_iff base path document).2 ⟨haccepted, hslips⟩)).elim
    · exact hrejected

end Settings

/-! ## The options of a run -/

open Settings

/-- The names and the pattern of the options are texts. -/
structure Options.Typed (options : Options) : Prop where
  only : ∀ item ∈ options.only, item.isSomeText = true
  disabled : ∀ item ∈ options.disabled, item.isSomeText = true
  filePattern : options.filePattern.isSomeText = true

instance (options : Options) : Decidable options.Typed :=
  decidable_of_iff
    ((∀ item ∈ options.only, item.isSomeText = true) ∧
      (∀ item ∈ options.disabled, item.isSomeText = true) ∧ options.filePattern.isSomeText = true)
    ⟨fun ⟨honly, hdisabled, hpattern⟩ => ⟨honly, hdisabled, hpattern⟩,
      fun h => ⟨h.only, h.disabled, h.filePattern⟩⟩

namespace Config

/-- What the overrides say of names and of the pattern are texts. -/
structure Overrides.Typed (overrides : Overrides) : Prop where
  only : ∀ items ∈ overrides.only, ∀ item ∈ items, item.isSomeText = true
  disabled : ∀ items ∈ overrides.disabled, ∀ item ∈ items, item.isSomeText = true
  filePattern : ∀ pattern ∈ overrides.filePattern, pattern.isSomeText = true

/-- Overrides of the right types do no harm, and they need not help. -/
theorem options_typed_iff (config : Config) :
    (∀ overrides : Overrides, overrides.Typed → (config.options overrides).Typed) ↔
      (config.options .none).Typed := by
  constructor
  · intro h
    exact h .none ⟨by simp [Overrides.none], by simp [Overrides.none], by simp [Overrides.none]⟩
  · intro h overrides hoverrides
    refine ⟨?_, ?_, ?_⟩
    · unfold options
      cases honly : overrides.only with
      | none => exact h.only
      | some items => exact hoverrides.only items honly
    · unfold options
      cases hdisabled : overrides.disabled with
      | none => exact h.disabled
      | some items => exact hoverrides.disabled items hdisabled
    · unfold options
      cases hpattern : overrides.filePattern with
      | none => exact h.filePattern
      | some pattern => exact hoverrides.filePattern pattern hpattern

/-- What is in a list that is taken over is in the list at the key. -/
theorem mem_taken_iff {found : Option Yaml.Value} {items : List Yaml.Value} {item : Yaml.Value}
    (h : .list items = found.getD (.list [])) :
    item ∈ items ↔ ∃ others, found = some (.list others) ∧ item ∈ others := by
  cases found with
  | none =>
      obtain rfl : items = [] := Yaml.Value.list.inj h
      simp
  | some value =>
      obtain rfl : .list items = value := h
      simp

/-- **The options hold texts** if no stray value was taken over. -/
theorem typed_options_iff {entries : List (Yaml.Value × Yaml.Value)} {settings : Settings}
    (h : TakenOver (Yaml.Value.lookup? entries) .default settings) (environment : Environment)
    (source : Option Path) :
    (Config.options ⟨applyEnvironment environment settings, source⟩ .none).Typed ↔
      ¬Stray entries := by
  constructor
  · rintro ⟨honly, hdisabled, hpattern⟩
    rintro (⟨rfl | rfl, hlookup, hmem, hitem⟩ | ⟨hlookup, hvalue⟩)
    · have htext := honly _ ((mem_taken_iff h.only).2 ⟨_, hlookup, hmem⟩)
      exact Bool.false_ne_true (hitem.symm.trans htext)
    · have htext := hdisabled _ ((mem_taken_iff h.disabled).2 ⟨_, hlookup, hmem⟩)
      exact Bool.false_ne_true (hitem.symm.trans htext)
    · have hpattern' := h.filePattern
      rw [hlookup] at hpattern'
      obtain rfl : settings.filePattern = _ := hpattern'
      exact Bool.false_ne_true (hvalue.symm.trans hpattern)
  · intro hstray
    refine ⟨fun item hmem => ?_, fun item hmem => ?_, ?_⟩
    · obtain ⟨items, hlookup, hmem⟩ := (mem_taken_iff h.only).1 hmem
      by_contra hitem
      exact hstray (.item (.inl rfl) hlookup hmem (by simpa using hitem))
    · obtain ⟨items, hlookup, hmem⟩ := (mem_taken_iff h.disabled).1 hmem
      by_contra hitem
      exact hstray (.item (.inr rfl) hlookup hmem (by simpa using hitem))
    · show settings.filePattern.isSomeText = true
      rw [h.filePattern]
      cases hlookup : Yaml.Value.lookup? entries filePatternKey with
      | none => rfl
      | some value =>
          by_contra hvalue
          exact hstray (.pattern hlookup (by simpa using hvalue))

/-! ## Loading -/

variable {reader : Yaml.Reader} {tree : Tree} {environment : Environment} {explicit : Option Path}
  {places : List Path}

/-- The file that settings come from is accepted. -/
theorem exists_updateFromFile {files : Config}
    (h : (loadFiles reader tree explicit places).result = .ok files) :
    ∀ path ∈ files.path, ∃ settings,
      Settings.default.updateFromFile reader tree path = .ok settings := by
  intro path hpath
  have hsource := (takenOver_of_loadFiles h).1
  rw [loadFiles_eq, ← hsource, Option.mem_def.1 hpath] at h
  obtain ⟨settings, hsettings, -⟩ := exists_of_map_ok h
  exact ⟨settings, hsettings⟩

/-- **Settings are well shaped, unless they slip through.** A well shaped document is accepted when
its file is asked for; every other one is rejected exactly if it does not slip through. Of whatever
file settings come, asked for or found, the document in it is well shaped exactly if it does not
slip through, and the options, whatever texts and lists of texts override them, hold texts exactly
if it holds no stray value. -/
theorem loadBy_shape (reader : Yaml.Reader) (tree : Tree) (environment : Environment)
    (places : List Path) :
    (∀ path document, documentAt? reader tree path = some document →
      (WellShaped document →
        ∃ config, (loadBy reader tree environment (some path) places).result = .ok config) ∧
      (¬WellShaped document →
        ((∃ fault, (loadBy reader tree environment (some path) places).result =
            .error (.rejected ⟨path, fault⟩)) ↔ ¬Slips document))) ∧
    ∀ explicit config, (loadBy reader tree environment explicit places).result = .ok config →
      (∀ path ∈ config.path, ∃ document, documentAt? reader tree path = some document ∧
        (WellShaped document ↔ ¬Slips document)) ∧
      ((∀ overrides : Overrides, overrides.Typed → (config.options overrides).Typed) ↔
        ∀ document ∈ config.path.bind (documentAt? reader tree), ¬Stray document.entries) := by
  refine ⟨fun path document hdocument => ⟨fun hshaped => ?_, fun hshaped => ?_⟩,
    fun explicit config hconfig => ?_⟩
  · obtain ⟨⟨settings, hsettings⟩, -⟩ :=
      (wellShaped_iff Settings.default path document).1 hshaped
    unfold loadBy loadFiles
    dsimp only
    rw [updateFromFile_of_documentAt? hdocument, hsettings]
    exact ⟨_, rfl⟩
  · unfold loadBy loadFiles
    simp only [map_eq_error_iff, updateFromFile_of_documentAt? hdocument]
    exact exists_rejected_iff Settings.default hshaped
  · obtain ⟨files, hfiles, rfl⟩ := exists_loadFiles hconfig
    have htaken := (takenOver_of_loadFiles hfiles).2
    rw [options_typed_iff]
    show (∀ path ∈ files.path, _) ∧ (_ ↔ ∀ document ∈ files.path.bind _, _)
    cases hpath : files.path with
    | none =>
        refine ⟨by simp, ?_⟩
        have hnothing : given? reader tree none = Yaml.Value.lookup? [] := rfl
        rw [hpath, hnothing] at htaken
        exact iff_of_true ((typed_options_iff htaken _ _).2 not_stray_nil) (by simp)
    | some path =>
        obtain ⟨settings, hsettings⟩ := exists_updateFromFile hfiles path hpath
        obtain ⟨document, hdocument, haccepted⟩ := exists_documentAt? hsettings
        have hgiven : given? reader tree (some path) = Yaml.Value.lookup? document.entries :=
          valueAt?_eq hdocument
        rw [hpath, hgiven] at htaken
        simp only [Option.mem_some_iff, forall_eq', Option.bind_some, hdocument]
        refine ⟨⟨document, rfl, ?_⟩, typed_options_iff htaken _ _⟩
        rw [wellShaped_iff Settings.default path document]
        exact and_iff_right ⟨settings, haccepted⟩

/-- A document that is an empty list, a check that is named by a number, and a file pattern that is
a number. -/
def misshapenFiles : Tree :=
  ⟨[], [(["list.yaml"], "[]\n".toUTF8), (["names.yaml"], "only_checks: [1]\n".toUTF8),
    (["pattern.yaml"], "file_pattern: 5\n".toUTF8)], []⟩

/-- None of the three files is rejected, though none of their documents is well shaped; the numbers
end up in the options. -/
theorem load_misshapenFiles :
    ((∃ config, (load misshapenFiles .empty (some (.ofString "list.yaml")) []).result =
        .ok config ∧ config.path = some (.ofString "list.yaml")) ∧
      ∃ document, documentAt? Yaml.Value.ofBytes misshapenFiles (.ofString "list.yaml") =
        some document ∧ ¬WellShaped document) ∧
    ((∃ config, (load misshapenFiles .empty (some (.ofString "names.yaml")) []).result =
        .ok config ∧ ¬(config.options .none).Typed) ∧
      ∃ document, documentAt? Yaml.Value.ofBytes misshapenFiles (.ofString "names.yaml") =
        some document ∧ ¬WellShaped document) ∧
    (∃ config, (load misshapenFiles .empty (some (.ofString "pattern.yaml")) []).result =
        .ok config ∧ ¬(config.options .none).Typed) ∧
      ∃ document, documentAt? Yaml.Value.ofBytes misshapenFiles (.ofString "pattern.yaml") =
        some document ∧ ¬WellShaped document := by
  refine ⟨⟨?_, ?_⟩, ⟨?_, ?_⟩, ?_, ?_⟩
  · exact exists_ok_of_any (by decide +kernel)
  · exact exists_some_of_any (by decide +kernel)
  · exact exists_ok_of_any (by decide +kernel)
  · exact exists_some_of_any (by decide +kernel)
  · exact exists_ok_of_any (by decide +kernel)
  · exact exists_some_of_any (by decide +kernel)

end Config

end ManifestLint
