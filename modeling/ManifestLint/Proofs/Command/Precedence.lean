import ManifestLint.Proofs.Command.Status
import ManifestLint.Proofs.Config.Precedence

set_option autoImplicit false

/-! # Which setting wins in the lint command

The words of the lint command do not all override settings in the same way. What they come to is
said by settings, `LintRequest.absorb`: with these the same request without the words does the same
(`lintWith_bare`). Together with the way in which settings are loaded that says where each option of
a run comes from (`options_precedence`). -/

namespace ManifestLint.Command

namespace LintRequest

/-- The request without its words about the options. -/
def bare (request : LintRequest) : LintRequest :=
  { request with fix := false, only := [], disable := [] }

/-- The settings with the words of the request put into them: repairs are turned on but not off,
the checks to run are replaced if there are any, and those not to run are added at the end. -/
def absorb (request : LintRequest) (settings : Settings) : Settings :=
  { settings with
    fix := request.fix || settings.fix
    only := if request.only = [] then settings.only else requests request.only
    disabled := settings.disabled ++ requests request.disable }

theorem options_absorb (request : LintRequest) (config : Config) :
    request.options config =
      Config.options { config with settings := request.absorb config.settings } .none := by
  unfold options overrides absorb Config.options Config.Overrides.none
  cases request.fix <;> cases request.only <;> cases request.disable <;> simp [requests]

end LintRequest

/-- Words of the request and settings to the same effect are one and the same. -/
theorem lintWith_bare (tree : Tree) (request : LintRequest) (config : Config)
    (early : List String) :
    lintWith tree request config early =
      lintWith tree request.bare { config with settings := request.absorb config.settings }
        early := by
  have hoptions : request.options config =
      request.bare.options { config with settings := request.absorb config.settings } :=
    request.options_absorb config
  unfold lintWith lintAbove
  rw [hoptions]
  rfl

/-- What the command has to say of the loading of its settings. -/
def earlyLines (reader : Yaml.Reader) (surroundings : Surroundings) (request : LintRequest) :
    List String :=
  (Config.loadBy reader surroundings.tree surroundings.environment
    (request.config.map Path.ofString) (Config.searchPaths surroundings.home)).log.map LogEntry.text

/-- **Which setting wins.** Whenever settings are loaded they come from the file that was asked for
or the first one found that is not rejected, and each option is what an override says, or the
environment, or that file, or the default; the same is loaded wherever that file is read in the
same way, without any other. In the lint command repairs are turned on by the request or by the
settings, the checks to run are replaced if the request names some, and the checks that are not to
run are those of the settings and then those of the request; nothing else comes of these words. -/
theorem options_precedence (reader : Yaml.Reader) :
    (∀ (tree : Tree) (environment : Environment) (explicit : Option Path) (places : List Path)
        (config : Config),
      (Config.loadBy reader tree environment explicit places).result = .ok config →
        config.path = Config.source? reader tree explicit places ∧
        (∀ overrides, Config.TakenFrom (Config.given? reader tree config.path) environment overrides
          (config.options overrides)) ∧
        ∀ tree' : Tree, (∀ path ∈ config.path, tree'.read path = tree.read path) →
          (Config.loadBy reader tree' environment config.path []).result = .ok config) ∧
    ∀ (surroundings : Surroundings) (request : LintRequest) (config : Config),
      settingsFor reader surroundings request = .ok config →
        (request.options config).fix = (request.fix || (config.options .none).fix) ∧
        (request.options config).only =
          (if request.only = [] then (config.options .none).only
            else LintRequest.requests request.only) ∧
        (request.options config).disabled =
          (config.options .none).disabled ++ LintRequest.requests request.disable ∧
        (request.options config).filePattern = (config.options .none).filePattern ∧
        lintBy reader surroundings request = lintWith surroundings.tree request.bare
          { config with settings := request.absorb config.settings }
          (earlyLines reader surroundings request) := by
  refine ⟨fun tree environment explicit places config h => ?_,
    fun surroundings request config h => ?_⟩
  · obtain ⟨files, hfiles, rfl⟩ := Config.exists_loadFiles h
    obtain ⟨hpath, htaken⟩ := Config.takenOver_of_loadFiles hfiles
    refine ⟨hpath, fun overrides => Config.takenFrom_options htaken environment _ overrides,
      fun tree' hread => ?_⟩
    unfold Config.loadBy
    dsimp only
    rw [Config.loadFiles_alone hfiles hread]
    rfl
  · rw [request.options_absorb]
    refine ⟨rfl, rfl, rfl, rfl, ?_⟩
    unfold settingsFor at h
    unfold lintBy
    dsimp only
    rw [h]
    exact lintWith_bare surroundings.tree request config (earlyLines reader surroundings request)

/-- A file that is rejected in the working directory, one in the home directory that is not, and
the word for repairs in the environment. -/
def homeSurroundings : Surroundings :=
  ⟨⟨[["h"], ["h", ".bracelint"]], [([".bracelint.yaml"], "fix: maybe\nfile_pattern: x\n".toUTF8),
    (["h", ".bracelint", "config.yaml"], "fix: false\ndisabled_checks: [a]\n".toUTF8)], []⟩,
    ⟨some " YES ", none⟩, .ofString "/h"⟩

/-- The file in the home directory without the other one. -/
def homeAlone : Tree := { homeSurroundings.tree with files := homeSurroundings.tree.files.drop 1 }

/-- One check is not to run. -/
def homeRequest : LintRequest := ⟨["a.pp"], false, [], ["b"], false, none, false⟩

/-- The environment wins over the file in the home directory, and a check that the request names is
added to the one that the file names. -/
theorem options_precedence_home :
    ∃ config, settingsFor Yaml.Value.ofBytes homeSurroundings homeRequest = .ok config ∧
      config.path = some (.ofString "/h/.bracelint/config.yaml") ∧
      (config.options .none).fix = true ∧
      (homeRequest.options config).disabled =
        (config.options .none).disabled ++ [.text "b"] ∧
      (Config.loadBy Yaml.Value.ofBytes homeAlone homeSurroundings.environment config.path
        []).result = .ok config := by
  have hloaded : (settingsFor Yaml.Value.ofBytes homeSurroundings homeRequest).isOk = true := by
    decide +kernel
  cases hsettings : settingsFor Yaml.Value.ofBytes homeSurroundings homeRequest with
  | error fault => rw [hsettings] at hloaded; cases hloaded
  | ok config =>
      obtain ⟨hpath, htaken, halone⟩ := (options_precedence _).1 _ _ _ _ _ hsettings
      obtain ⟨-, -, hdisabled, -⟩ := (options_precedence _).2 _ _ _ hsettings
      have hsource : config.path = some (.ofString "/h/.bracelint/config.yaml") :=
        hpath.trans (by decide +kernel)
      refine ⟨config, rfl, hsource, ?_, hdisabled, halone homeAlone ?_⟩
      · have hfix := (htaken .none).fix
        rw [show homeSurroundings.environment.fix.map Config.isFixWord = some true by
          decide +kernel] at hfix
        exact Yaml.Value.bool.inj hfix
      · rw [hsource]
        rintro path ⟨⟩
        rfl

end ManifestLint.Command
