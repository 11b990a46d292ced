import Mathlib.Data.List.Nodup
import ManifestLint.Lint.Linter
import ManifestLint.Proofs.Result

set_option autoImplicit false

/-! # Selections

The rules of a linter are registered ones (`rules_of_ofOptions`), and there is a linter for the
settings of a run exactly if every name in their two lists is registered
(`exists_ofOptions_iff`). Where the lists hold texts, as they should, all that the selection does is
to look names up: it stops at the first that is not registered, or else gives the rules that are
named (`select_texts`). -/

namespace ManifestLint

namespace Registry

variable {registry : Registry} {only disabled : List Yaml.Value} {rules : List Rule}

/-! ## The rules that are selected -/

/-- The rules that are named, or all of them if none is. -/
def namedBy (registry : Registry) (only : List Yaml.Value) : Except SelectionError (List Rule) :=
  if only.isEmpty then .ok registry.rules else registry.lookupAll only

/-- Both lists are looked up before any rule is left out. -/
theorem select_eq (registry : Registry) (only disabled : List Yaml.Value) :
    registry.select only disabled = registry.namedBy only >>= fun named =>
      (registry.lookupAll disabled).map fun _ =>
        named.filter fun rule => !disabled.any fun request => request.isText rule.name := by
  unfold select namedBy
  dsimp only
  split
  · cases registry.lookupAll disabled with
    | error e => rfl
    | ok others => rfl
  · cases registry.lookupAll only with
    | error e => rfl
    | ok named =>
        cases registry.lookupAll disabled with
        | error e => rfl
        | ok others => rfl

/-- A selection takes the named rules, or all of them, and leaves out those that are disabled; all
names on both lists have to be registered. -/
theorem select_eq_ok_iff : registry.select only disabled = .ok rules ↔
    ∃ named others, registry.namedBy only = .ok named ∧ registry.lookupAll disabled = .ok others ∧
      rules = named.filter fun rule => !disabled.any fun request => request.isText rule.name := by
  rw [select_eq]
  cases registry.namedBy only with
  | error e => exact iff_of_false (by rintro ⟨⟩) (by simp)
  | ok named =>
      cases registry.lookupAll disabled with
      | error e => exact iff_of_false (by rintro ⟨⟩) (by simp)
      | ok others =>
          show Except.ok _ = Except.ok rules ↔ _
          simp [eq_comm]

theorem mem_of_lookup {request : Yaml.Value} {rule : Rule}
    (h : registry.lookup request = .ok rule) : rule ∈ registry.rules := by
  unfold lookup at h
  split at h
  · split at h
    · rename_i found hfind
      cases h
      exact List.mem_of_find?_eq_some hfind
    · cases h
  · split at h <;> cases h

theorem mem_of_lookupAll {requests : List Yaml.Value}
    (h : registry.lookupAll requests = .ok rules) : ∀ rule ∈ rules, rule ∈ registry.rules := by
  induction requests generalizing rules with
  | nil =>
      cases h
      simp
  | cons request rest ih =>
      unfold lookupAll at h
      obtain ⟨rule, hrule, h⟩ := exists_of_bind_ok h
      obtain ⟨others, hothers, h⟩ := exists_of_bind_ok h
      cases h
      exact List.forall_mem_cons.2 ⟨mem_of_lookup hrule, ih hothers⟩

theorem mem_of_select (h : registry.select only disabled = .ok rules) :
    ∀ rule ∈ rules, rule ∈ registry.rules := by
  obtain ⟨named, others, hnamed, -, rfl⟩ := select_eq_ok_iff.1 h
  have hregistered : ∀ rule ∈ named, rule ∈ registry.rules := by
    unfold namedBy at hnamed
    split at hnamed
    · cases hnamed
      exact fun rule hrule => hrule
    · exact mem_of_lookupAll hnamed
  exact fun rule hrule => hregistered rule (List.mem_of_mem_filter hrule)

/-! ## Names that are registered -/

/-- The request is the name of a registered rule. -/
def Registers (registry : Registry) (request : Yaml.Value) : Prop :=
  ∃ rule ∈ registry.rules, request = .text rule.name

theorem exists_lookup_iff {request : Yaml.Value} :
    (∃ rule, registry.lookup request = .ok rule) ↔ registry.Registers request := by
  cases request with
  | text name =>
      have hfind : (registry.find? name).isSome = true ↔ registry.Registers (.text name) := by
        rw [find?, List.find?_isSome]
        simp only [Registers, beq_iff_eq, Yaml.Value.text.injEq, eq_comm (b := name)]
      rw [← hfind, lookup]
      cases registry.find? name with
      | none => exact iff_of_false (by rintro ⟨rule, ⟨⟩⟩) (by simp)
      | some rule => exact iff_of_true ⟨rule, rfl⟩ rfl
  | _ =>
      refine iff_of_false ?_ (by rintro ⟨rule, -, ⟨⟩⟩)
      rintro ⟨rule, h⟩
      unfold lookup at h
      dsimp only at h
      split at h <;> cases h

theorem exists_lookupAll_iff {requests : List Yaml.Value} :
    (∃ rules, registry.lookupAll requests = .ok rules) ↔
      ∀ request ∈ requests, registry.Registers request := by
  induction requests with
  | nil => simp [lookupAll]
  | cons request rest ih =>
      rw [List.forall_mem_cons, ← exists_lookup_iff, ← ih, lookupAll]
      constructor
      · rintro ⟨rules, h⟩
        obtain ⟨rule, hrule, h⟩ := exists_of_bind_ok h
        obtain ⟨others, hothers, -⟩ := exists_of_bind_ok h
        exact ⟨⟨rule, hrule⟩, others, hothers⟩
      · rintro ⟨⟨rule, hrule⟩, others, hothers⟩
        rw [hrule, hothers]
        exact ⟨_, rfl⟩

theorem exists_select_iff : (∃ rules, registry.select only disabled = .ok rules) ↔
    ∀ request ∈ only ++ disabled, registry.Registers request := by
  have honly : (∃ named, registry.namedBy only = .ok named) ↔
      ∀ request ∈ only, registry.Registers request := by
    rw [← exists_lookupAll_iff]
    cases only with
    | nil => exact iff_of_true ⟨registry.rules, rfl⟩ ⟨[], rfl⟩
    | cons request rest => rfl
  rw [List.forall_mem_append, ← honly, ← exists_lookupAll_iff]
  simp only [select_eq_ok_iff]
  constructor
  · rintro ⟨-, named, others, hnamed, hothers, -⟩
    exact ⟨⟨named, hnamed⟩, others, hothers⟩
  · rintro ⟨⟨named, hnamed⟩, others, hothers⟩
    exact ⟨_, named, others, hnamed, hothers, rfl⟩

/-! ## Names that are not -/

theorem lookup_eq_error {request : Yaml.Value} {e : SelectionError}
    (h : registry.lookup request = .error e) : ¬registry.Registers request ∧
      (e = .unknownRule request ∨ e = .notAName request ∧ request.isKey = false) := by
  refine ⟨fun hregisters => ?_, ?_⟩
  · obtain ⟨rule, hrule⟩ := exists_lookup_iff.2 hregisters
    rw [h] at hrule
    cases hrule
  · unfold lookup at h
    split at h
    · split at h
      · cases h
      · exact .inl (Except.error.inj h).symm
    · split at h
      · exact .inl (Except.error.inj h).symm
      · rename_i hkey
        exact .inr ⟨(Except.error.inj h).symm, Bool.not_eq_true _ ▸ hkey⟩

theorem lookupAll_eq_error {requests : List Yaml.Value} {e : SelectionError}
    (h : registry.lookupAll requests = .error e) :
    ∃ request ∈ requests, registry.lookup request = .error e := by
  induction requests with
  | nil => cases h
  | cons request rest ih =>
      rw [lookupAll] at h
      cases hfirst : registry.lookup request with
      | error e' =>
          rw [hfirst] at h
          obtain rfl : e' = e := Except.error.inj h
          exact ⟨request, List.mem_cons_self, hfirst⟩
      | ok rule =>
          rw [hfirst] at h
          cases hrest : registry.lookupAll rest with
          | error e' =>
              rw [hrest] at h
              obtain rfl : e' = e := Except.error.inj h
              obtain ⟨bad, hbad, hlookup⟩ := ih hrest
              exact ⟨bad, List.mem_cons_of_mem request hbad, hlookup⟩
          | ok rules =>
              rw [hrest] at h
              cases h

theorem select_eq_error {e : SelectionError} (h : registry.select only disabled = .error e) :
    ∃ request ∈ only ++ disabled, registry.lookup request = .error e := by
  rw [select_eq] at h
  cases hnamed : registry.namedBy only with
  | error e' =>
      rw [hnamed] at h
      obtain rfl : e' = e := Except.error.inj h
      unfold namedBy at hnamed
      split at hnamed
      · cases hnamed
      · obtain ⟨request, hmem, hlookup⟩ := lookupAll_eq_error hnamed
        exact ⟨request, List.mem_append_left disabled hmem, hlookup⟩
  | ok named =>
      rw [hnamed] at h
      obtain ⟨request, hmem, hlookup⟩ := lookupAll_eq_error (map_eq_error_iff.1 h)
      exact ⟨request, List.mem_append_right only hmem, hlookup⟩

/-! ## Rules by their names -/

/-- The names of the rules, in the order of their registration. -/
def names (registry : Registry) : List String := registry.rules.map Rule.name

theorem find?_eq_none_iff {name : String} :
    registry.find? name = none ↔ name ∉ registry.names := by
  simp [find?, names]

/-- A name finds the rule that has it, if no other rule does. -/
theorem find?_of_mem {rule : Rule} (hnodup : registry.names.Nodup) (h : rule ∈ registry.rules) :
    registry.find? rule.name = some rule := by
  cases hfind : registry.find? rule.name with
  | none => exact (find?_eq_none_iff.1 hfind (List.mem_map_of_mem h)).elim
  | some other =>
      have hname : other.name = rule.name := by simpa using List.find?_some hfind
      have hother : other ∈ registry.rules := List.mem_of_find?_eq_some hfind
      exact congrArg some (List.inj_on_of_nodup_map hnodup hother h hname)

/-- The first of some names that is not registered. -/
def unknown? (registry : Registry) (names : List String) : Option String :=
  names.find? fun name => !registry.names.contains name

theorem unknown?_eq_none_iff {names : List String} :
    registry.unknown? names = none ↔ ∀ name ∈ names, name ∈ registry.names := by
  simp [unknown?]

theorem map_name_filterMap_find? {names : List String} (h : ∀ name ∈ names, name ∈ registry.names) :
    (names.filterMap registry.find?).map Rule.name = names := by
  induction names with
  | nil => rfl
  | cons name rest ih =>
      rw [List.forall_mem_cons] at h
      cases hfind : registry.find? name with
      | none => exact (find?_eq_none_iff.1 hfind h.1).elim
      | some rule =>
          have hname : rule.name = name := by simpa using List.find?_some hfind
          rw [List.filterMap_cons_some hfind, List.map_cons, hname, ih h.2]

/-- Names are looked up until one is not registered. -/
theorem lookupAll_texts (registry : Registry) (names : List String) :
    registry.lookupAll (names.map .text) =
      match registry.unknown? names with
      | some name => .error (.unknownRule (.text name))
      | none => .ok (names.filterMap registry.find?) := by
  induction names with
  | nil => rfl
  | cons name rest ih =>
      rw [List.map_cons, lookupAll, lookup, ih]
      cases hfind : registry.find? name with
      | none =>
          have hunknown : registry.unknown? (name :: rest) = some name :=
            List.find?_cons_of_pos (by simpa using find?_eq_none_iff.1 hfind)
          rw [hunknown]
          rfl
      | some rule =>
          have hmem : name ∈ registry.names := by
            by_contra hnot
            rw [find?_eq_none_iff.2 hnot] at hfind
            cases hfind
          have hunknown : registry.unknown? (name :: rest) = registry.unknown? rest :=
            List.find?_cons_of_neg (by simpa using hmem)
          rw [hunknown, List.filterMap_cons_some hfind]
          cases registry.unknown? rest with
          | none => rfl
          | some other => rfl

/-- **Selecting by names** stops at the first name that is not registered. If there is none, it
gives the rules that are named, or all of them, less those that are disabled. -/
theorem select_texts (registry : Registry) (only disabled : List String) :
    registry.select (only.map .text) (disabled.map .text) =
      match registry.unknown? (only ++ disabled) with
      | some name => .error (.unknownRule (.text name))
      | none => .ok ((if only = [] then registry.rules else only.filterMap registry.find?).filter
          fun rule => !disabled.contains rule.name) := by
  have hdisabled : (fun rule : Rule => !(disabled.map Yaml.Value.text).any fun request =>
      request.isText rule.name) = fun rule => !disabled.contains rule.name := by
    funext rule
    rw [List.any_map, List.contains_eq_any_beq]
    congr 2
    funext name
    exact Bool.beq_comm
  have happend : registry.unknown? (only ++ disabled) =
      (registry.unknown? only).or (registry.unknown? disabled) := List.find?_append
  rw [select_eq, hdisabled, lookupAll_texts, happend]
  unfold namedBy
  cases only with
  | nil =>
      simp only [List.map_nil, List.isEmpty_nil, if_true]
      cases registry.unknown? disabled with
      | none => rfl
      | some name => rfl
  | cons first rest =>
      rw [lookupAll_texts]
      simp only [List.map_cons, List.isEmpty_cons, Bool.false_eq_true, if_false,
        List.cons_ne_nil]
      cases registry.unknown? (first :: rest) with
      | some name => rfl
      | none =>
          cases registry.unknown? disabled with
          | none => rfl
          | some name => rfl

end Registry

namespace Linter

variable {registry : Registry} {options : Options}

/-- The linter of given settings runs rules of the registry only. -/
theorem rules_of_ofOptions {linter : Linter} (h : ofOptions registry options = .ok linter) :
    linter.fix = options.fix ∧ ∀ rule ∈ linter.rules, rule ∈ registry.rules := by
  unfold ofOptions at h
  obtain ⟨rules, hrules, h⟩ := exists_of_bind_ok h
  cases h
  exact ⟨rfl, Registry.mem_of_select hrules⟩

/-- **There is a linter for given settings** exactly if every name in their lists is registered. -/
theorem exists_ofOptions_iff : (∃ linter, ofOptions registry options = .ok linter) ↔
    ∀ request ∈ options.only ++ options.disabled, registry.Registers request := by
  rw [← Registry.exists_select_iff, ofOptions]
  cases registry.select options.only options.disabled with
  | error e => exact iff_of_false (by rintro ⟨linter, ⟨⟩⟩) (by rintro ⟨rules, ⟨⟩⟩)
  | ok rules => exact iff_of_true ⟨_, rfl⟩ ⟨rules, rfl⟩

/-- Where there is no linter, the cause is a name that is not registered. -/
theorem ofOptions_eq_error {e : SelectionError} (h : ofOptions registry options = .error e) :
    ∃ request ∈ options.only ++ options.disabled, ¬registry.Registers request ∧
      (e = .unknownRule request ∨ e = .notAName request ∧ request.isKey = false) := by
  unfold ofOptions at h
  cases hselect : registry.select options.only options.disabled with
  | error e' =>
      rw [hselect] at h
      obtain rfl : e' = e := Except.error.inj h
      obtain ⟨request, hmem, hlookup⟩ := Registry.select_eq_error hselect
      exact ⟨request, hmem, Registry.lookup_eq_error hlookup⟩
  | ok rules =>
      rw [hselect] at h
      cases h

/-! ## Linters by the names of their rules -/

end Linter

/-- Options whose lists hold the given names. -/
def Options.naming (fix : Bool) (only disabled : List String) (filePattern : Yaml.Value) :
    Options :=
  ⟨fix, only.map .text, disabled.map .text, filePattern⟩

namespace Linter

/-- Linters are made of the rules of a registry by their names. -/
structure SelectsByName (registry : Registry) : Prop where
  /-- There is no linter if some name is not registered. -/
  unknown_iff : ∀ fix only disabled filePattern,
    (∃ request, ofOptions registry (.naming fix only disabled filePattern) =
        .error (.unknownRule request)) ↔ ∃ name ∈ only ++ disabled, name ∉ registry.names
  /-- Nothing else can go wrong, and the error is about the first such name. -/
  unknown_eq : ∀ fix only disabled filePattern e,
    ofOptions registry (.naming fix only disabled filePattern) = .error e →
      ∃ name, (only ++ disabled).find? (fun name => decide (name ∉ registry.names)) = some name ∧
        e = .unknownRule (.text name)
  /-- The rules are those that are named, in this order and as often as they are named, or all if
  none is named, without those that are disabled. -/
  rules_eq : ∀ fix only disabled filePattern, (∀ name ∈ only ++ disabled, name ∈ registry.names) →
    ∃ linter, ofOptions registry (.naming fix only disabled filePattern) = .ok linter ∧
      linter.fix = fix ∧ (∀ rule ∈ linter.rules, rule ∈ registry.rules) ∧
      linter.rules.map Rule.name =
        (if only = [] then registry.names else only).filter (fun name => decide (name ∉ disabled))

theorem ofOptions_naming (registry : Registry) (fix : Bool) (only disabled : List String)
    (filePattern : Yaml.Value) :
    ofOptions registry (.naming fix only disabled filePattern) =
      match registry.unknown? (only ++ disabled) with
      | some name => .error (.unknownRule (.text name))
      | none => .ok ⟨fix, (if only = [] then registry.rules
          else only.filterMap registry.find?).filter fun rule => !disabled.contains rule.name⟩ := by
  unfold ofOptions Options.naming
  dsimp only
  rw [Registry.select_texts]
  cases registry.unknown? (only ++ disabled) with
  | none => rfl
  | some name => rfl

/-- **Every registry** has its rules selected by their names. -/
theorem selectsByName (registry : Registry) : SelectsByName registry where
  unknown_iff fix only disabled filePattern := by
    rw [ofOptions_naming]
    cases hunknown : registry.unknown? (only ++ disabled) with
    | none =>
        have hall := Registry.unknown?_eq_none_iff.1 hunknown
        refine iff_of_false (by rintro ⟨request, ⟨⟩⟩) ?_
        rintro ⟨name, hname, hnot⟩
        exact hnot (hall name hname)
    | some name =>
        refine iff_of_true ⟨_, rfl⟩ ⟨name, List.mem_of_find?_eq_some hunknown, ?_⟩
        simpa using List.find?_some hunknown
  unknown_eq fix only disabled filePattern e h := by
    rw [ofOptions_naming] at h
    have hfind : registry.unknown? (only ++ disabled) =
        (only ++ disabled).find? fun name => decide (name ∉ registry.names) := by
      simp [Registry.unknown?]
    cases hunknown : registry.unknown? (only ++ disabled) with
    | none =>
        rw [hunknown] at h
        cases h
    | some name =>
        rw [hunknown] at h
        exact ⟨name, hfind.symm.trans hunknown, (Except.error.inj h).symm⟩
  rules_eq fix only disabled filePattern h := by
    have hnone := Registry.unknown?_eq_none_iff.2 h
    have hlinter := ofOptions_naming registry fix only disabled filePattern
    rw [hnone] at hlinter
    refine ⟨_, hlinter, rfl, (rules_of_ofOptions hlinter).2, ?_⟩
    have hnamed : (if only = [] then registry.rules else only.filterMap registry.find?).map
        Rule.name = if only = [] then registry.names else only := by
      split
      · rfl
      · exact Registry.map_name_filterMap_find? fun name hname =>
          h name (List.mem_append_left disabled hname)
    dsimp only
    rw [← hnamed, List.filter_map]
    congr 2
    funext rule
    simp

end Linter

end ManifestLint
