import ManifestLint.File.Tree
import ManifestLint.Lint.Linter
import ManifestLint.Text.Blank
import ManifestLint.Text.Upper
import ManifestLint.Yaml.Document

set_option autoImplicit false

/-! # Settings

The settings of a run come from defaults, from a file, from the environment, and from the
command line, each taking precedence over those before it.

A settings file holds one YAML mapping with keys out of a fixed set. Its shape is checked only
so far: two of the values must be lists and one a truth value; what the lists hold, and what the
other values are, is not looked at here. -/

namespace ManifestLint

/-- What is set, from whatever source. -/
structure Settings where
  fix : Bool
  only : List Yaml.Value
  disabled : List Yaml.Value
  filePattern : Yaml.Value
  logLevel : Yaml.Value
deriving Repr, Inhabited

/-- The settings when nothing is set. -/
def Settings.default : Settings := ⟨false, [], [], .text defaultPattern, .text "WARNING"⟩

/-! ## Settings files -/

namespace Settings

/-- The key of the repair setting. -/
def fixKey : String := "fix"

/-- The key of the list of the only checks to run. -/
def onlyKey : String := "only_checks"

/-- The key of the list of checks not to run. -/
def disabledKey : String := "disabled_checks"

/-- The key of the file pattern. -/
def filePatternKey : String := "file_pattern"

/-- The key of the log level. -/
def logLevelKey : String := "log_level"

/-- The keys a settings file can have. -/
def keys : List String := [fixKey, onlyKey, disabledKey, filePatternKey, logLevelKey]

end Settings

/-- What is wrong with a settings file. -/
inductive ConfigFault where
  | cannotOpen (fault : OpenFault)
  | malformed
  | notAMapping
  | unknownKeys (keys : List Yaml.Value)
  | notAList (key : String)
  | fixNotBool
deriving Repr

/-- A settings file that is rejected. -/
structure ConfigError where
  path : Path
  fault : ConfigFault
deriving Repr

/-- A rejected settings file in words. -/
def ConfigError.message (e : ConfigError) : String :=
  let detail :=
    match e.fault with
    | .cannotOpen fault => s!"{fault.description}: {Text.quoted e.path.shown}"
    | .malformed => "malformed YAML: <yaml detail>"
    | .notAMapping => "top level must be a mapping"
    | .unknownKeys keys => s!"unknown keys {(Yaml.Value.list keys).shown}"
    | .notAList key => s!"'{key}' must be a list"
    | .fixNotBool => "'fix' must be true or false"
  s!"Invalid config {e.path.shown}: " ++ detail

/-- Why settings cannot be loaded. Only a rejected file in the search list is passed over. -/
inductive LoadFault where
  /-- The file is rejected. -/
  | rejected (e : ConfigError)
  /-- The bytes of the file are not text. -/
  | undecodable
  /-- Something in the file has the form of a value and is none. -/
  | valueless
  /-- The unknown keys of the file have no order to list them in. -/
  | unsortableKeys
  /-- An unknown key of the file is a number that is too long to be written. -/
  | unwritableKeys
deriving Repr

namespace Settings

/-! ## Unknown keys -/

/-- Decides whether a key is one that a settings file can have. -/
def isKnown (key : Yaml.Value) : Bool := keys.any key.isText

/-- The keys of a mapping that a settings file cannot have. -/
def unknownKeys (entries : List (Yaml.Value × Yaml.Value)) : List Yaml.Value :=
  (entries.map Prod.fst).filter fun key => !isKnown key

/-- The keys in order, if any two of them have one. A key that stands alone needs none. -/
def sortKeys? (keys : List Yaml.Value) : Option (List Yaml.Value) :=
  if keys.length ≤ 1 then some keys
  else if keys.all fun key => keys.all fun other => (key.less? other).isSome then
    some (keys.mergeSort fun key other => other.less? key != some true)
  else none

/-! ## Reading the entries -/

/-- The list at a key, if the key is there. -/
def listAt (entries : List (Yaml.Value × Yaml.Value)) (key : String) :
    Except ConfigFault (Option (List Yaml.Value)) :=
  match Yaml.Value.lookup? entries key with
  | none => .ok none
  | some (.list items) => .ok (some items)
  | some _ => .error (.notAList key)

/-- The truth value at the key of the repair setting, if the key is there. -/
def fixIn (entries : List (Yaml.Value × Yaml.Value)) : Except ConfigFault (Option Bool) :=
  match Yaml.Value.lookup? entries fixKey with
  | none => .ok none
  | some (.bool b) => .ok (some b)
  | some _ => .error .fixNotBool

/-- The settings with those of a mapping put over them. -/
def update (settings : Settings) (entries : List (Yaml.Value × Yaml.Value)) :
    Except ConfigFault Settings := do
  let only ← listAt entries onlyKey
  let disabled ← listAt entries disabledKey
  let fix ← fixIn entries
  return {
    fix := fix.getD settings.fix
    only := only.getD settings.only
    disabled := disabled.getD settings.disabled
    filePattern := (Yaml.Value.lookup? entries filePatternKey).getD settings.filePattern
    logLevel := (Yaml.Value.lookup? entries logLevelKey).getD settings.logLevel }

/-- The settings with those of a document put over them. A document that stands for nothing, or
for something empty, changes nothing. -/
def updateFromDocument (settings : Settings) (path : Path) (document : Yaml.Value) :
    Except LoadFault Settings :=
  let reject (fault : ConfigFault) : LoadFault := .rejected ⟨path, fault⟩
  if document.isEmptyLike then .ok settings
  else
    match document with
    | .map entries =>
      if (unknownKeys entries).isEmpty then (settings.update entries).mapError reject
      else
        match sortKeys? (unknownKeys entries) with
        | none => .error .unsortableKeys
        | some sorted =>
          if (unknownKeys entries).all Yaml.Value.isWritable then
            .error (reject (.unknownKeys sorted))
          else .error .unwritableKeys
    | _ => .error (reject .notAMapping)

/-- The settings with those of a file put over them. -/
def updateFromFile (reader : Yaml.Reader) (settings : Settings) (tree : Tree) (path : Path) :
    Except LoadFault Settings :=
  match tree.read path with
  | .error fault => .error (.rejected ⟨path, .cannotOpen fault⟩)
  | .ok bytes =>
    match reader bytes with
    | .error .undecodable => .error .undecodable
    | .error .malformed => .error (.rejected ⟨path, .malformed⟩)
    | .error .valueless => .error .valueless
    | .ok document => settings.updateFromDocument path document

end Settings

end ManifestLint
