import ManifestLint.Command.Lint
import ManifestLint.Proofs.Config.Loading
import ManifestLint.Proofs.Lint.Independence

set_option autoImplicit false

/-! # The status of the lint command

The lint command ends in one of six ways (`lintBy_ends`): its settings are rejected or cannot be
loaded, there is no threshold for its log, its files cannot be linted for a cause that it has words
for or not, or all of them are linted. Files are written in the last case only, and then writing
does not fail. What the status says is read off these cases (`lint_status`): with the bundled rules
files cannot be linted only if a name is unknown, nothing is at a path, or there is no pattern for a
directory; and a repairing run leaves no error but those of files that cannot be lexed. -/

namespace ManifestLint

/-! ## Rejected settings -/

/-- Loading ends with a rejected file exactly if the file was asked for. -/
theorem Config.loadBy_rejected_iff {reader : Yaml.Reader} {tree : Tree} {environment : Environment}
    {explicit : Option Path} {places : List Path} {e : ConfigError} :
    (loadBy reader tree environment explicit places).result = .error (.rejected e) ↔
      ∃ path, explicit = some path ∧
        Settings.default.updateFromFile reader tree path = .error (.rejected e) := by
  unfold loadBy loadFiles
  rw [map_eq_error_iff]
  cases explicit with
  | some path =>
      simp only [Option.some.injEq, exists_eq_left']
      exact map_eq_error_iff
  | none =>
      refine iff_of_false ?_ (by rintro ⟨path, ⟨⟩, -⟩)
      dsimp only
      rw [search_eq]
      dsimp only
      cases hchosen : chosen? reader tree places with
      | none => rintro ⟨⟩
      | some path => exact fun h => not_rejected_of_chosen? hchosen e (map_eq_error_iff.1 h)

/-! ## Errors that are left -/

/-- The file can be read, but its text cannot be lexed. -/
def Tree.Unlexable (tree : Tree) (file : Path) : Prop :=
  ∃ bytes, tree.read file = .ok bytes ∧
    (Lexing.ofSource (Encoding.decode bytes).1).error.isSome = true

namespace Linter

variable {linter : Linter}

/-- A repairing run leaves an error exactly if the source cannot be lexed. -/
theorem exists_error_iff (hfix : linter.fix = true) (hrules : linter.Bundled)
    {source path : String} {linted : Linted} (h : linter.lintSource source path = .ok linted) :
    (∃ problem ∈ linted.report.problems, problem.outcome = .error) ↔
      (Lexing.ofSource source).error.isSome = true := by
  cases herror : (Lexing.ofSource source).error with
  | some e =>
      obtain rfl := Except.ok.inj (h.symm.trans (lintSource_of_error herror path))
      exact iff_of_true ⟨_, List.mem_singleton_self _, rfl⟩ rfl
  | none =>
      obtain ⟨lexemes, hlexes⟩ := (error_eq_none_iff _).1 herror
      obtain ⟨specs, himplements, -⟩ := exists_gapRules hrules
      obtain ⟨view, transcript, hturns, -, hproblems⟩ := runRules_turns hfix himplements path
        ⟨(Draft.ofLexemes path lexemes).entries, (Draft.ofLexemes path lexemes).pool.size⟩
      obtain ⟨linted', after, hlint, -, -, hreported⟩ := lintSource_of_turns hlexes path hturns
      obtain rfl : linted = linted' := Except.ok.inj (h.symm.trans hlint)
      refine iff_of_false ?_ (by simp)
      rintro ⟨problem, hproblem, hleft⟩
      rw [hreported] at hproblem
      rw [(hproblems problem hproblem).1] at hleft
      cases hleft

/-- The same for a file of a tree. -/
theorem exists_error_iff_of_lintsFile (hfix : linter.fix = true) (hrules : linter.Bundled)
    {tree : Tree} {file : Path} {linted : Linted} (h : linter.LintsFile tree file linted) :
    (∃ problem ∈ linted.report.problems, problem.outcome = .error) ↔ tree.Unlexable file := by
  obtain ⟨bytes, hread, hlint⟩ := h
  have hunlexable : tree.Unlexable file ↔
      (Lexing.ofSource (Encoding.decode bytes).1).error.isSome = true := by
    rw [Tree.Unlexable, hread]
    simp only [Except.ok.injEq, exists_eq_left']
  obtain ⟨text, -, htext, -⟩ := exists_text hrules (Encoding.decode bytes).1
  obtain ⟨linted', hsource, -⟩ := htext file.shown
  obtain rfl := Except.ok.inj (hlint.symm.trans (lintBytes_eq hsource))
  have hproblems := exists_error_iff hfix hrules hsource
  rw [hunlexable]
  exact hproblems

/-- A repairing run over several files leaves an error exactly if one of them cannot be lexed. -/
theorem exists_error_iff_of_lintFiles (hfix : linter.fix = true) (hrules : linter.Bundled)
    {tree : Tree} {files : List Path} {linted : List Linted}
    (h : linter.lintFiles tree files = .ok linted) :
    (∃ problem ∈ Report.allProblems (linted.map Linted.report), problem.outcome = .error) ↔
      ∃ file ∈ files, tree.Unlexable file := by
  rw [lintFiles_eq_ok_iff] at h
  induction h with
  | nil => simp [Report.allProblems]
  | @cons file one rest others hone _ ih =>
      rw [List.exists_mem_cons_iff, ← ih, ← exists_error_iff_of_lintsFile hfix hrules hone,
        List.map_cons, Report.allProblems, List.flatMap_cons]
      simp only [List.mem_append, or_and_right, exists_or]
      rfl

end Linter

/-! ## Faults -/

variable {tree : Tree}

/-- With the bundled rules paths cannot be linted only because there is no linter for the settings,
or because the paths cannot be expanded. -/
theorem lintPaths_eq_error {options : Options} {paths : List Path} {fault : LintFault}
    (h : lintPaths .bundled options tree paths = .error fault) :
    (∃ e, fault = .selection e ∧ Linter.ofOptions .bundled options = .error e) ∨
      ∃ e, fault = .expansion e ∧ expandPaths tree options.filePattern paths = .error e := by
  cases hlinter : Linter.ofOptions .bundled options with
  | error e =>
      rw [lintPaths, hlinter] at h
      exact .inl ⟨e, (Except.error.inj h).symm, rfl⟩
  | ok linter =>
      cases hfiles : expandPaths tree options.filePattern paths with
      | error e =>
          rw [lintPaths, hlinter, hfiles] at h
          exact .inr ⟨e, (Except.error.inj h).symm, rfl⟩
      | ok files =>
          obtain ⟨linted, hlinted⟩ := exists_lintPaths hlinter hfiles
          rw [hlinted] at h
          cases h

/-- Reports of bundled rules can always be written back. -/
theorem exists_writeAllFixes {linter : Linter} (hrules : linter.Bundled) {files : List Path}
    {linted : List Linted} (h : List.Forall₂ (linter.LintsFile tree) files linted)
    (tree' : Tree) :
    ∃ result, writeAllFixes tree' (linted.map Linted.report) = some result := by
  induction h generalizing tree' with
  | nil => exact ⟨_, rfl⟩
  | @cons file one rest others hone _ ih =>
      obtain ⟨bytes, -, hlint⟩ := hone
      have hfirst : ∃ written, writeFixes tree' one.report = some written := by
        unfold writeFixes
        split
        · rw [(Linter.reports_of_lintBytes hrules hlint).encode]
          exact ⟨_, rfl⟩
        · exact ⟨_, rfl⟩
      obtain ⟨first, hfirst⟩ := hfirst
      obtain ⟨more, hmore⟩ := ih first.tree
      rw [List.map_cons, writeAllFixes, hfirst]
      simp only [Option.bind_eq_bind, Option.bind_some, hmore]
      exact ⟨_, rfl⟩

namespace Command

/-! ## The ways to end -/

/-- What loading the settings comes to. -/
def settingsFor (reader : Yaml.Reader) (surroundings : Surroundings) (request : LintRequest) :
    Except LoadFault Config :=
  (Config.loadBy reader surroundings.tree surroundings.environment
    (request.config.map Path.ofString) (Config.searchPaths surroundings.home)).result

/-- The ways in which the lint command ends, and the tree that it leaves. -/
inductive Ends (reader : Yaml.Reader) (surroundings : Surroundings) (request : LintRequest) :
    Ending → Tree → Prop where
  /-- The settings are rejected. -/
  | rejected {e : ConfigError}
      (settings : settingsFor reader surroundings request = .error (.rejected e)) :
      Ends reader surroundings request (.status 2) surroundings.tree
  /-- The settings cannot be loaded. -/
  | unsettled {fault : LoadFault}
      (settings : settingsFor reader surroundings request = .error fault)
      (other : ∀ e, fault ≠ .rejected e) :
      Ends reader surroundings request (.abandoned (.settings fault)) surroundings.tree
  /-- There is no threshold for the log. -/
  | noThreshold {config : Config} {fault : LevelFault}
      (settings : settingsFor reader surroundings request = .ok config)
      (threshold : request.logThreshold config = .error fault) :
      Ends reader surroundings request (.abandoned (.logLevel fault)) surroundings.tree
  /-- The files cannot be linted, and there are words for the cause. -/
  | refused {config : Config} {fault : LintFault} {words : String}
      (settings : settingsFor reader surroundings request = .ok config)
      (lint : lintPaths .bundled (request.options config) surroundings.tree request.targets =
        .error fault)
      (complaint : complaint? fault = some words) :
      Ends reader surroundings request (.status 2) surroundings.tree
  /-- The files cannot be linted, and there are no words for the cause. -/
  | abandoned {config : Config} {fault : LintFault}
      (settings : settingsFor reader surroundings request = .ok config)
      (lint : lintPaths .bundled (request.options config) surroundings.tree request.targets =
        .error fault)
      (complaint : complaint? fault = none) :
      Ends reader surroundings request (.abandoned (.lint fault)) surroundings.tree
  /-- The files are linted, and what is to be written is written. -/
  | linted {config : Config} {linted : List Linted} {written : Written}
      (settings : settingsFor reader surroundings request = .ok config)
      (lint : lintPaths .bundled (request.options config) surroundings.tree request.targets =
        .ok linted)
      (finish : finish surroundings.tree (request.options config) (linted.map Linted.report) =
        some written) :
      Ends reader surroundings request (.status (statusOf (linted.map Linted.report))) written.tree

variable {reader : Yaml.Reader} {surroundings : Surroundings} {request : LintRequest}

/-- What is to be written at the end can be written. -/
theorem exists_finish {options : Options} {paths : List Path} {linted : List Linted}
    (h : lintPaths .bundled options tree paths = .ok linted) :
    ∃ written, finish tree options (linted.map Linted.report) = some written := by
  obtain ⟨linter, files, hlinter, -, hlinted⟩ := lintPaths_eq_ok h
  obtain ⟨result, hresult⟩ := exists_writeAllFixes (Linter.rules_of_ofOptions hlinter).2
    (Linter.lintFiles_eq_ok_iff.1 hlinted) tree
  unfold finish
  rw [hresult]
  split
  · exact ⟨_, rfl⟩
  · exact ⟨_, rfl⟩

theorem lintAbove_ends {config : Config}
    (hconfig : settingsFor reader surroundings request = .ok config) (threshold : Nat)
    (early : List String) :
    Ends reader surroundings request
      (lintAbove threshold surroundings.tree request config early).ending
      (lintAbove threshold surroundings.tree request config early).tree := by
  unfold lintAbove
  dsimp only
  cases hlint : lintPaths .bundled (request.options config) surroundings.tree request.targets with
  | error fault =>
      dsimp only
      cases hwords : complaint? fault with
      | some words => exact .refused hconfig hlint hwords
      | none => exact .abandoned hconfig hlint hwords
  | ok linted =>
      obtain ⟨written, hwritten⟩ := exists_finish hlint
      dsimp only
      rw [hwritten]
      exact .linted hconfig hlint hwritten

theorem lintWith_ends {config : Config}
    (hconfig : settingsFor reader surroundings request = .ok config) (early : List String) :
    Ends reader surroundings request (lintWith surroundings.tree request config early).ending
      (lintWith surroundings.tree request config early).tree := by
  unfold lintWith
  cases hthreshold : request.logThreshold config with
  | error fault => exact .noThreshold hconfig hthreshold
  | ok threshold => exact lintAbove_ends hconfig threshold early

/-- **The lint command ends in one of six ways.** -/
theorem lintBy_ends (reader : Yaml.Reader) (surroundings : Surroundings) (request : LintRequest) :
    Ends reader surroundings request (lintBy reader surroundings request).ending
      (lintBy reader surroundings request).tree := by
  unfold lintBy
  dsimp only
  have hsettings : settingsFor reader surroundings request = (Config.loadBy reader
      surroundings.tree surroundings.environment (request.config.map Path.ofString)
      (Config.searchPaths surroundings.home)).result := rfl
  split
  · rename_i config hconfig
    exact lintWith_ends (hsettings.trans hconfig) _
  · rename_i e he
    exact .rejected (hsettings.trans he)
  · rename_i fault hother hfault
    exact .unsettled (hsettings.trans hfault) fun e he => hother e he

/-! ## The status -/

/-- The command is refused: the settings file that was asked for is rejected, or a name in the
lists is not registered, or nothing is at a path. -/
inductive Refused (reader : Yaml.Reader) (surroundings : Surroundings) (request : LintRequest) :
    Prop where
  | settings {file : String} {e : ConfigError} (given : request.config = some file)
      (rejected : Settings.default.updateFromFile reader surroundings.tree (.ofString file) =
        .error (.rejected e))
  | unknown {config : Config} {name : Yaml.Value}
      (settings : settingsFor reader surroundings request = .ok config)
      (listed : name ∈ (request.options config).only ++ (request.options config).disabled)
      (unknown : ¬Registry.bundled.Registers name)
  | missing {path : Path} (given : path ∈ request.targets)
      (missing : surroundings.tree.has path = false)

theorem Refused.of_rejected {e : ConfigError}
    (h : settingsFor reader surroundings request = .error (.rejected e)) :
    Refused reader surroundings request := by
  obtain ⟨path, hpath, hrejected⟩ := Config.loadBy_rejected_iff.1 h
  obtain ⟨file, hfile, rfl⟩ := Option.map_eq_some_iff.1 hpath
  exact .settings hfile hrejected

/-- A fault for which there are words is a refusal. -/
theorem Refused.of_complaint {config : Config} {fault : LintFault} {words : String}
    (hsettings : settingsFor reader surroundings request = .ok config)
    (hlint : lintPaths .bundled (request.options config) surroundings.tree request.targets =
      .error fault)
    (hcomplaint : complaint? fault = some words) : Refused reader surroundings request := by
  rcases lintPaths_eq_error hlint with ⟨e, -, hselection⟩ | ⟨e, rfl, hexpansion⟩
  · obtain ⟨name, hlisted, hunknown, -⟩ := Linter.ofOptions_eq_error hselection
    exact .unknown hsettings hlisted hunknown
  · rcases expandPaths_eq_error hexpansion with ⟨path, hpath, -, hmissing⟩ | ⟨bad, rfl, -⟩
    · exact .missing hpath hmissing
    · -- for a pattern that is none there are no words
      cases hcomplaint

/-- Where files are linted nothing is refused. -/
theorem not_refused_of_lint {config : Config} {linted : List Linted}
    (hsettings : settingsFor reader surroundings request = .ok config)
    (hlint : lintPaths .bundled (request.options config) surroundings.tree request.targets =
      .ok linted) : ¬Refused reader surroundings request := by
  obtain ⟨linter, files, hlinter, hfiles, -⟩ := lintPaths_eq_ok hlint
  rintro (⟨hfile, hrejected⟩ | ⟨hsettings', hlisted, hunknown⟩ | ⟨hgiven, hmissing⟩)
  · have hload : settingsFor reader surroundings request = .error (.rejected _) :=
      Config.loadBy_rejected_iff.2 ⟨_, Option.map_eq_some_iff.2 ⟨_, hfile, rfl⟩, hrejected⟩
    rw [hsettings] at hload
    cases hload
  · obtain rfl := Except.ok.inj (hsettings.symm.trans hsettings')
    exact hunknown (Linter.exists_ofOptions_iff.1 ⟨linter, hlinter⟩ _ hlisted)
  · obtain ⟨found, hfound⟩ := exists_expandPaths_iff.1 ⟨files, hfiles⟩ _ hgiven
    rw [has_of_expandPath hfound] at hmissing
    cases hmissing

/-- The command ends without a status: the settings cannot be loaded, there is no threshold for the
log, a value in the lists cannot be a name or is an unknown one that there are no words for, or
there is no pattern for a directory. -/
inductive Unanswered (reader : Yaml.Reader) (surroundings : Surroundings) (request : LintRequest) :
    Abandonment → Prop where
  | settings {fault : LoadFault}
      (settings : settingsFor reader surroundings request = .error fault)
      (other : ∀ e, fault ≠ .rejected e) :
      Unanswered reader surroundings request (.settings fault)
  | level {config : Config} {name : String} {fault : LevelFault}
      (settings : settingsFor reader surroundings request = .ok config)
      (quiet : request.verbose = false) (level : config.logLevel = .ok name)
      (no_level : threshold name = .error fault) :
      Unanswered reader surroundings request (.logLevel fault)
  | levelWords {config : Config}
      (settings : settingsFor reader surroundings request = .ok config)
      (no_words : config.settings.logLevel.isWritable = false) :
      Unanswered reader surroundings request (.logLevel .tooLong)
  | name {config : Config} {name : Yaml.Value}
      (settings : settingsFor reader surroundings request = .ok config)
      (listed : name ∈ (request.options config).only ++ (request.options config).disabled)
      (no_key : name.isKey = false) :
      Unanswered reader surroundings request (.lint (.selection (.notAName name)))
  | nameWords {config : Config} {name : Yaml.Value}
      (settings : settingsFor reader surroundings request = .ok config)
      (listed : name ∈ (request.options config).only ++ (request.options config).disabled)
      (unknown : ¬Registry.bundled.Registers name) (no_words : name.isWritable = false) :
      Unanswered reader surroundings request (.lint (.selection (.unknownRule name)))
  | pattern {config : Config} {bad : PatternFault}
      (settings : settingsFor reader surroundings request = .ok config)
      (pattern : FilePattern.ofValue (request.options config).filePattern = .error bad) :
      Unanswered reader surroundings request (.lint (.expansion (.badPattern bad)))

/-- A fault for which there are no words leaves the command without a status. -/
theorem Unanswered.of_complaint {config : Config} {fault : LintFault}
    (hsettings : settingsFor reader surroundings request = .ok config)
    (hlint : lintPaths .bundled (request.options config) surroundings.tree request.targets =
      .error fault)
    (hcomplaint : complaint? fault = none) :
    Unanswered reader surroundings request (.lint fault) := by
  rcases lintPaths_eq_error hlint with ⟨e, rfl, hselection⟩ | ⟨e, rfl, hexpansion⟩
  · obtain ⟨name, hlisted, hunknown, rfl | ⟨rfl, hkey⟩⟩ := Linter.ofOptions_eq_error hselection
    · simp only [complaint?] at hcomplaint
      split at hcomplaint
      · cases hcomplaint
      · rename_i hwords
        exact .nameWords hsettings hlisted hunknown (Bool.not_eq_true _ ▸ hwords)
    · exact .name hsettings hlisted hkey
  · rcases expandPaths_eq_error hexpansion with ⟨path, -, rfl, -⟩ | ⟨bad, rfl, hpattern⟩
    · cases hcomplaint
    · exact .pattern hsettings hpattern

/-- A log without a threshold leaves the command without a status. -/
theorem Unanswered.of_logThreshold {config : Config} {fault : LevelFault}
    (hsettings : settingsFor reader surroundings request = .ok config)
    (hthreshold : request.logThreshold config = .error fault) :
    Unanswered reader surroundings request (.logLevel fault) := by
  unfold LintRequest.logThreshold at hthreshold
  cases hname : config.logLevel with
  | error fault' =>
      rw [hname] at hthreshold
      obtain rfl : fault' = fault := Except.error.inj hthreshold
      unfold Config.logLevel at hname
      split at hname
      · cases hname
      · rename_i hwords
        obtain rfl := Except.error.inj hname
        exact .levelWords hsettings (Bool.not_eq_true _ ▸ hwords)
  | ok name =>
      rw [hname] at hthreshold
      cases hquiet : request.verbose with
      | true =>
          rw [hquiet] at hthreshold
          cases hthreshold
      | false =>
          rw [hquiet] at hthreshold
          exact .level hsettings hquiet hname hthreshold

/-- The status after linting tells whether an error is left. -/
theorem statusOf_cases (reports : List Report) :
    (statusOf reports = 1 ∧ ∃ problem ∈ Report.allProblems reports, problem.outcome = .error) ∨
      (statusOf reports = 0 ∧
        ∀ problem ∈ Report.allProblems reports, problem.outcome ≠ .error) := by
  have hcount : Report.countAll reports .error = 0 ↔
      ∀ problem ∈ Report.allProblems reports, problem.outcome ≠ .error := by
    rw [Report.countAll, List.countP_eq_zero]
    simp only [beq_iff_eq, ne_eq]
  unfold statusOf
  by_cases hzero : Report.countAll reports .error = 0
  · exact .inr ⟨if_pos hzero, hcount.1 hzero⟩
  · refine .inl ⟨if_neg hzero, ?_⟩
    simpa using mt hcount.2 hzero

/-- **The status of the lint command, and what it writes.** If the command ends with a status, that
is 2 exactly if the command is refused. Otherwise its files are linted, and the status is 1 if an
error is among the problems that are reported and 0 if not; when repairs are asked for, it is 1
exactly if one of the files that the paths stand for cannot be lexed. If it ends without a status,
that is because the settings cannot be loaded, there is no threshold for the log, a value cannot be
a name or an unknown one cannot be written, or the pattern is none. Files are changed only when all
files have been linted: a command that is refused or abandoned leaves the tree as it is, and none is
abandoned while it writes. All this holds for every way to read documents. -/
theorem lint_status (reader : Yaml.Reader) (surroundings : Surroundings) (request : LintRequest) :
    (∀ code, (lintBy reader surroundings request).ending = .status code →
      (code = 2 ↔ Refused reader surroundings request) ∧
      (code ≠ 2 → ∃ config linted, settingsFor reader surroundings request = .ok config ∧
        lintPaths .bundled (request.options config) surroundings.tree request.targets =
          .ok linted ∧
        ((code = 1 ∧ ∃ problem ∈ Report.allProblems (linted.map Linted.report),
            problem.outcome = .error) ∨
          (code = 0 ∧ ∀ problem ∈ Report.allProblems (linted.map Linted.report),
            problem.outcome ≠ .error)) ∧
        ((request.options config).fix = true →
          ∃ files, expandPaths surroundings.tree (request.options config).filePattern
              request.targets = .ok files ∧
            (code = 1 ↔ ∃ file ∈ files, surroundings.tree.Unlexable file)))) ∧
    ((lintBy reader surroundings request).ending = .status 2 →
      (lintBy reader surroundings request).tree = surroundings.tree) ∧
    (∀ cause, (lintBy reader surroundings request).ending = .abandoned cause →
      Unanswered reader surroundings request cause ∧ cause ≠ .unwritable ∧
        (lintBy reader surroundings request).tree = surroundings.tree) := by
  have hends := lintBy_ends reader surroundings request
  generalize (lintBy reader surroundings request).ending = ending at hends
  generalize (lintBy reader surroundings request).tree = tree at hends
  -- only the last of the six ways can leave another tree, and its status is 0 or 1
  cases hends with
  | rejected hsettings =>
      refine ⟨?_, fun _ => rfl, by rintro cause ⟨⟩⟩
      rintro code ⟨⟩
      exact ⟨iff_of_true rfl (.of_rejected hsettings), fun h => absurd rfl h⟩
  | unsettled hsettings hother =>
      refine ⟨by rintro code ⟨⟩, by rintro ⟨⟩, ?_⟩
      rintro cause ⟨⟩
      exact ⟨.settings hsettings hother, by rintro ⟨⟩, rfl⟩
  | noThreshold hsettings hthreshold =>
      refine ⟨by rintro code ⟨⟩, by rintro ⟨⟩, ?_⟩
      rintro cause ⟨⟩
      exact ⟨.of_logThreshold hsettings hthreshold, by rintro ⟨⟩, rfl⟩
  | refused hsettings hlint hcomplaint =>
      refine ⟨?_, fun _ => rfl, by rintro cause ⟨⟩⟩
      rintro code ⟨⟩
      exact ⟨iff_of_true rfl (.of_complaint hsettings hlint hcomplaint), fun h => absurd rfl h⟩
  | abandoned hsettings hlint hcomplaint =>
      refine ⟨by rintro code ⟨⟩, by rintro ⟨⟩, ?_⟩
      rintro cause ⟨⟩
      exact ⟨.of_complaint hsettings hlint hcomplaint, by rintro ⟨⟩, rfl⟩
  | @linted config linted written hsettings hlint hfinish =>
      have hcases := statusOf_cases (linted.map Linted.report)
      have hne : statusOf (linted.map Linted.report) ≠ 2 := by
        rcases hcases with ⟨hone, -⟩ | ⟨hzero, -⟩
        · rw [hone]
          decide
        · rw [hzero]
          decide
      refine ⟨?_, fun h => absurd (Ending.status.inj h) hne, by rintro cause ⟨⟩⟩
      rintro code ⟨⟩
      refine ⟨iff_of_false hne (not_refused_of_lint hsettings hlint), fun _ =>
        ⟨config, linted, hsettings, hlint, hcases, fun hfix => ?_⟩⟩
      obtain ⟨linter, files, hlinter, hfiles, hlinted⟩ := lintPaths_eq_ok hlint
      obtain ⟨hfix', hrules⟩ := Linter.rules_of_ofOptions hlinter
      refine ⟨files, hfiles, ?_⟩
      rw [← Linter.exists_error_iff_of_lintFiles (hfix'.trans hfix) hrules hlinted]
      rcases hcases with ⟨hone, herror⟩ | ⟨hzero, hnone⟩
      · exact iff_of_true hone herror
      · refine iff_of_false (by rw [hzero]; decide) ?_
        rintro ⟨problem, hproblem, herror⟩
        exact hnone problem hproblem herror

/-- Decides whether a command ended with the given status. -/
def Ending.isStatus (ending : Ending) (code : Nat) : Bool :=
  match ending with
  | .status n => n == code
  | _ => false

theorem Ending.eq_status {ending : Ending} {code : Nat} (h : ending.isStatus code = true) :
    ending = .status code := by
  unfold isStatus at h
  split at h
  · rw [beq_iff_eq.1 h]
  · cases h

/-- A user without settings, among the files with the quote that is never closed. -/
def sharedSurroundings : Surroundings := ⟨sharedFiles, .empty, .ofString "home"⟩

/-- Repairs are asked for, and nothing else is. -/
def repairRequest (paths : List String) : LintRequest := ⟨paths, true, [], [], false, none, false⟩

/-- A repairing run over the file with the quote ends with status 1, as that file cannot be lexed;
one over a path at which nothing is ends with status 2, and the file named before it stays as it
is. -/
theorem lint_status_shared :
    (lint sharedSurroundings (repairRequest ["d/b.pp", "c.pp"])).ending = .status 1 ∧
    (∃ config files,
      expandPaths sharedFiles ((repairRequest ["d/b.pp", "c.pp"]).options config).filePattern
        (repairRequest ["d/b.pp", "c.pp"]).targets = .ok files ∧
      ∃ file ∈ files, sharedFiles.Unlexable file) ∧
    (lint sharedSurroundings (repairRequest ["c.pp", "e.pp"])).ending = .status 2 ∧
    Refused Yaml.Value.ofBytes sharedSurroundings (repairRequest ["c.pp", "e.pp"]) ∧
    (lint sharedSurroundings (repairRequest ["c.pp", "e.pp"])).tree = sharedFiles := by
  have hone : (lint sharedSurroundings (repairRequest ["d/b.pp", "c.pp"])).ending = .status 1 :=
    Ending.eq_status (by decide +kernel)
  have htwo : (lint sharedSurroundings (repairRequest ["c.pp", "e.pp"])).ending = .status 2 :=
    Ending.eq_status (by decide +kernel)
  obtain ⟨config, -, -, -, -, hfix⟩ := ((lint_status Yaml.Value.ofBytes _ _).1 1 hone).2 (by decide)
  obtain ⟨files, hfiles, hiff⟩ := hfix rfl
  obtain ⟨hrefused, -⟩ := (lint_status Yaml.Value.ofBytes _ _).1 2 htwo
  exact ⟨hone, ⟨config, files, hfiles, hiff.1 rfl⟩, htwo, hrefused.1 rfl,
    (lint_status Yaml.Value.ofBytes _ _).2.1 htwo⟩

end Command

end ManifestLint
