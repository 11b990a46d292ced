import ManifestLint.Config.Basic

set_option autoImplicit false

/-! # Loading the settings

A settings file that was asked for must be acceptable. Otherwise a list of places is searched:
a place where nothing is found is passed over, one whose file is rejected is logged and passed
over too, and the first one left decides. The environment has the last word on two of the
settings. -/

namespace ManifestLint

/-- The settings that were loaded, and the file they came from if there was one. -/
structure Config where
  settings : Settings
  path : Option Path
deriving Repr, Inhabited

/-- The environment variables that matter. -/
structure Environment where
  fix : Option String
  logLevel : Option String
deriving Repr, Inhabited

/-- An environment in which nothing is set. -/
def Environment.empty : Environment := ⟨none, none⟩

/-- The result of loading, and what was logged on the way whatever the result. -/
structure Loaded where
  result : Except LoadFault Config
  log : List LogEntry

namespace Config

/-- The name entries about settings files are logged under. -/
def loggerName : String := "bracelint.config"

/-- The places that are searched, given the home directory of the user. -/
def searchPaths (home : Path) : List Path :=
  [Path.ofString ".bracelint.yaml", home.descend [".bracelint", "config.yaml"]]

/-- Searches places for a settings file. -/
def search (reader : Yaml.Reader) (tree : Tree) : List Path → Loaded
  | [] => ⟨.ok ⟨.default, none⟩, []⟩
  | path :: rest =>
    if tree.has path then
      match Settings.default.updateFromFile reader tree path with
      | .ok settings => ⟨.ok ⟨settings, some path⟩, []⟩
      | .error (.rejected e) =>
        let more := search reader tree rest
        ⟨more.result, ⟨.warning, loggerName, "Ignoring config: " ++ e.message⟩ :: more.log⟩
      | .error fault => ⟨.error fault, []⟩
    else search reader tree rest

/-- The settings of the file that was asked for, or of the first acceptable one found. -/
def loadFiles (reader : Yaml.Reader) (tree : Tree) (explicit : Option Path)
    (places : List Path) : Loaded :=
  match explicit with
  | some path =>
    ⟨(Settings.default.updateFromFile reader tree path).map fun settings =>
      ⟨settings, some path⟩, []⟩
  | none => search reader tree places

/-! ## The environment -/

/-- The words that turn repairs on. -/
def fixWords : List String := ["1", "true", "yes", "on"]

/-- Decides whether a word turns repairs on: blanks around it and capitals do not matter. -/
def isFixWord (s : String) : Bool :=
  fixWords.contains (String.ofList ((Text.strip s).toList.map Char.toLower))

/-- The settings with those of the environment put over them. -/
def applyEnvironment (environment : Environment) (settings : Settings) : Settings :=
  { settings with
    fix := (environment.fix.map isFixWord).getD settings.fix
    logLevel := (environment.logLevel.map Yaml.Value.text).getD settings.logLevel }

/-- Loads the settings, reading the documents in files by the given reader. -/
def loadBy (reader : Yaml.Reader) (tree : Tree) (environment : Environment)
    (explicit : Option Path) (places : List Path) : Loaded :=
  let files := loadFiles reader tree explicit places
  ⟨files.result.map fun config =>
    { config with settings := applyEnvironment environment config.settings }, files.log⟩

/-- Loads the settings, reading documents as the program itself does. -/
def load (tree : Tree) (environment : Environment) (explicit : Option Path)
    (places : List Path) : Loaded :=
  loadBy Yaml.Value.ofBytes tree environment explicit places

/-! ## From settings to options -/

/-- The name of the log level, in capitals. -/
def logLevel (config : Config) : Except LevelFault String :=
  if config.settings.logLevel.isWritable then .ok (Text.upper config.settings.logLevel.plain)
  else .error .tooLong

/-- What the command line says about a run; what it leaves open is taken from the settings. -/
structure Overrides where
  fix : Option Bool
  only : Option (List Yaml.Value)
  disabled : Option (List Yaml.Value)
  filePattern : Option Yaml.Value
deriving Repr, Inhabited

/-- Nothing said. -/
def Overrides.none : Overrides := ⟨.none, .none, .none, .none⟩

/-- The options of a run. -/
def options (config : Config) (overrides : Overrides) : Options :=
  { fix := overrides.fix.getD config.settings.fix
    only := overrides.only.getD config.settings.only
    disabled := overrides.disabled.getD config.settings.disabled
    filePattern := overrides.filePattern.getD config.settings.filePattern }

end Config

end ManifestLint
