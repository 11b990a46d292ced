import ManifestLint.Proofs.Config.Loading
import ManifestLint.Proofs.Result

set_option autoImplicit false

/-! # Where options come from

Settings are loaded from one file at most: the one that was asked for, or else the first one found
that is not rejected (`source?`). What is accepted of it is the value that it gives for each key
(`takenOver_of_file`), over the defaults. No other file has a part in it: wherever that file is read
in the same way, loading it alone comes to the same (`loadFiles_alone`).

The options of a run follow one by one (`TakenFrom`). What an override says of an option goes first;
for repairs what the environment says goes next; then what the file gives, and the default last. -/

namespace ManifestLint

open Settings

variable {reader : Yaml.Reader} {tree tree' : Tree} {path : Path}

/-! ## What a file gives -/

namespace Yaml

/-- The entries of a mapping; anything else has none. -/
def Value.entries : Value → List (Value × Value)
  | .map entries => entries
  | _ => []

theorem Value.entries_of_isEmptyLike {value : Value} (h : value.isEmptyLike = true) :
    value.entries = [] := by
  cases value with
  | map entries => exact List.isEmpty_iff.1 h
  | _ => rfl

end Yaml

namespace Settings

/-- The document in the file at a path, if there is one that can be read. -/
def documentAt? (reader : Yaml.Reader) (tree : Tree) (path : Path) : Option Yaml.Value :=
  (tree.read path).toOption.bind fun bytes => (reader bytes).toOption

/-- The value that the file at a path gives for a key. -/
def valueAt? (reader : Yaml.Reader) (tree : Tree) (path : Path) (key : String) :
    Option Yaml.Value :=
  (documentAt? reader tree path).bind fun document => Yaml.Value.lookup? document.entries key

/-- The settings are what is given for their keys, and those of `base` where nothing is. -/
structure TakenOver (given : String → Option Yaml.Value) (base settings : Settings) : Prop where
  fix : .bool settings.fix = (given fixKey).getD (.bool base.fix)
  only : .list settings.only = (given onlyKey).getD (.list base.only)
  disabled : .list settings.disabled = (given disabledKey).getD (.list base.disabled)
  filePattern : settings.filePattern = (given filePatternKey).getD base.filePattern
  logLevel : settings.logLevel = (given logLevelKey).getD base.logLevel

theorem TakenOver.of_nothing (settings : Settings) :
    TakenOver (fun _ => none) settings settings := ⟨rfl, rfl, rfl, rfl, rfl⟩

variable {entries : List (Yaml.Value × Yaml.Value)} {base settings : Settings}

theorem list_of_listAt {key : String} {items : Option (List Yaml.Value)}
    (h : listAt entries key = .ok items) (others : List Yaml.Value) :
    .list (items.getD others) = (Yaml.Value.lookup? entries key).getD (.list others) := by
  unfold listAt at h
  split at h
  · rename_i hnone
    cases h
    rw [hnone]
    rfl
  · rename_i hsome
    cases h
    rw [hsome]
    rfl
  · cases h

theorem bool_of_fixIn {fix : Option Bool} (h : fixIn entries = .ok fix) (other : Bool) :
    .bool (fix.getD other) = (Yaml.Value.lookup? entries fixKey).getD (.bool other) := by
  unfold fixIn at h
  split at h
  · rename_i hnone
    cases h
    rw [hnone]
    rfl
  · rename_i hsome
    cases h
    rw [hsome]
    rfl
  · cases h

theorem takenOver_of_update (h : base.update entries = .ok settings) :
    TakenOver (Yaml.Value.lookup? entries) base settings := by
  obtain ⟨only, honly, h⟩ := exists_of_bind_ok h
  obtain ⟨disabled, hdisabled, h⟩ := exists_of_bind_ok h
  obtain ⟨fix, hfix, h⟩ := exists_of_bind_ok h
  cases h
  exact ⟨bool_of_fixIn hfix _, list_of_listAt honly _, list_of_listAt hdisabled _, rfl, rfl⟩

theorem takenOver_of_document {document : Yaml.Value}
    (h : base.updateFromDocument path document = .ok settings) :
    TakenOver (Yaml.Value.lookup? document.entries) base settings := by
  unfold updateFromDocument at h
  dsimp only at h
  split at h
  · rename_i hempty
    cases h
    rw [Yaml.Value.entries_of_isEmptyLike hempty]
    exact .of_nothing base
  · cases document with
    | map entries =>
        dsimp only at h
        split at h
        · exact takenOver_of_update (ok_of_mapError h)
        · split at h
          · cases h
          · split at h <;> cases h
    | _ => cases h

/-- What is made of a file is what is made of the document in it. -/
theorem updateFromFile_of_documentAt? {document : Yaml.Value}
    (h : documentAt? reader tree path = some document) (base : Settings) :
    base.updateFromFile reader tree path = base.updateFromDocument path document := by
  obtain ⟨bytes, hbytes, hdocument⟩ := Option.bind_eq_some_iff.1 h
  unfold updateFromFile
  rw [ok_of_toOption hbytes]
  dsimp only
  rw [ok_of_toOption hdocument]

/-- What is accepted of a file is accepted of the document in it. -/
theorem exists_documentAt? (h : base.updateFromFile reader tree path = .ok settings) :
    ∃ document, documentAt? reader tree path = some document ∧
      base.updateFromDocument path document = .ok settings := by
  unfold updateFromFile at h
  split at h
  · cases h
  · rename_i bytes hread
    split at h
    · cases h
    · cases h
    · cases h
    · rename_i document hdocument
      exact ⟨document, by simp [documentAt?, hread, hdocument, Except.toOption], h⟩

/-- What a file gives is what stands in the document in it. -/
theorem valueAt?_eq {document : Yaml.Value} (h : documentAt? reader tree path = some document) :
    valueAt? reader tree path = Yaml.Value.lookup? document.entries := by
  funext key
  unfold valueAt?
  rw [h]
  rfl

/-- **What is accepted of a file** is what it gives for each key. -/
theorem takenOver_of_file (h : base.updateFromFile reader tree path = .ok settings) :
    TakenOver (valueAt? reader tree path) base settings := by
  obtain ⟨document, hdocument, haccepted⟩ := exists_documentAt? h
  rw [valueAt?_eq hdocument]
  exact takenOver_of_document haccepted

/-- A file is read as it is, whatever else there is. -/
theorem updateFromFile_congr (h : tree'.read path = tree.read path) (settings : Settings) :
    settings.updateFromFile reader tree' path = settings.updateFromFile reader tree path := by
  unfold updateFromFile
  rw [h]

end Settings

namespace Config

variable {environment : Environment} {explicit : Option Path} {places : List Path}
  {config : Config}

/-! ## The file that is used -/

/-- The file that settings are taken from: the one that was asked for, or else the first place at
which something is that is not rejected. -/
def source? (reader : Yaml.Reader) (tree : Tree) (explicit : Option Path) (places : List Path) :
    Option Path :=
  explicit.or (chosen? reader tree places)

/-- The value that a file gives for a key, if there is a file. -/
def given? (reader : Yaml.Reader) (tree : Tree) (source : Option Path) (key : String) :
    Option Yaml.Value :=
  source.bind fun path => valueAt? reader tree path key

/-- Loading comes to what the one file gives, or to the defaults if there is none. -/
theorem loadFiles_eq (reader : Yaml.Reader) (tree : Tree) (explicit : Option Path)
    (places : List Path) :
    (loadFiles reader tree explicit places).result =
      match source? reader tree explicit places with
      | none => .ok ⟨.default, none⟩
      | some path => (Settings.default.updateFromFile reader tree path).map fun settings =>
          ⟨settings, some path⟩ := by
  cases explicit with
  | some path => rfl
  | none =>
      show (search reader tree places).result = _
      rw [search_eq]
      rfl

theorem exists_loadFiles
    (h : (loadBy reader tree environment explicit places).result = .ok config) :
    ∃ files, (loadFiles reader tree explicit places).result = .ok files ∧
      config = { files with settings := applyEnvironment environment files.settings } := by
  obtain ⟨files, hfiles, hconfig⟩ := exists_of_map_ok h
  exact ⟨files, hfiles, hconfig.symm⟩

/-- **What files give** over the defaults. -/
theorem takenOver_of_loadFiles {files : Config}
    (h : (loadFiles reader tree explicit places).result = .ok files) :
    files.path = source? reader tree explicit places ∧
      TakenOver (given? reader tree files.path) .default files.settings := by
  rw [loadFiles_eq] at h
  cases hsource : source? reader tree explicit places with
  | none =>
      rw [hsource] at h
      cases h
      exact ⟨rfl, .of_nothing .default⟩
  | some path =>
      rw [hsource] at h
      obtain ⟨settings, hfile, rfl⟩ := exists_of_map_ok h
      exact ⟨rfl, takenOver_of_file hfile⟩

/-- The file that is used, read in the same way anywhere, is all that is needed of the files. -/
theorem loadFiles_alone {files : Config}
    (h : (loadFiles reader tree explicit places).result = .ok files)
    (hread : ∀ path ∈ files.path, tree'.read path = tree.read path) :
    (loadFiles reader tree' files.path []).result = .ok files := by
  have hpath := (takenOver_of_loadFiles h).1
  have hsource : source? reader tree' files.path [] = files.path := by
    cases files.path <;> rfl
  rw [loadFiles_eq, ← hpath] at h
  rw [loadFiles_eq, hsource]
  cases hfile : files.path with
  | none => rw [hfile] at h; exact h
  | some path =>
      rw [hfile] at h
      dsimp only at h ⊢
      rw [updateFromFile_congr (hread path hfile), h]

/-! ## Options -/

/-- The options as they follow from what is given in files, the environment, and overrides. -/
structure TakenFrom (given : String → Option Yaml.Value) (environment : Environment)
    (overrides : Overrides) (options : Options) : Prop where
  fix : .bool options.fix =
    (((overrides.fix.or (environment.fix.map isFixWord)).map Yaml.Value.bool).or
      (given fixKey)).getD (.bool false)
  only : .list options.only =
    ((overrides.only.map Yaml.Value.list).or (given onlyKey)).getD (.list [])
  disabled : .list options.disabled =
    ((overrides.disabled.map Yaml.Value.list).or (given disabledKey)).getD (.list [])
  filePattern : options.filePattern =
    (overrides.filePattern.or (given filePatternKey)).getD (.text defaultPattern)

/-- **Each option by itself** is taken from the first that says something of it. -/
theorem takenFrom_options {given : String → Option Yaml.Value} {settings : Settings}
    (h : TakenOver given .default settings) (environment : Environment) (source : Option Path)
    (overrides : Overrides) :
    TakenFrom given environment overrides
      (Config.options ⟨applyEnvironment environment settings, source⟩ overrides) where
  fix := by
    -- the environment has been put over the file before the overrides are looked at
    unfold options applyEnvironment
    cases overrides.fix with
    | some fix => simp
    | none =>
        cases environment.fix with
        | some word => simp
        | none => simpa [Settings.default] using h.fix
  only := by
    unfold options
    cases overrides.only with
    | some only => rfl
    | none => exact h.only
  disabled := by
    unfold options
    cases overrides.disabled with
    | some disabled => rfl
    | none => exact h.disabled
  filePattern := by
    unfold options
    cases overrides.filePattern with
    | some pattern => rfl
    | none => exact h.filePattern

end Config

end ManifestLint
