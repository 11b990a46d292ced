import ManifestLint.Proofs.Lint.Selection

set_option autoImplicit false

/-! # The registry over time

A registry is changed by two sorts of calls: a check is registered under a name, which returns a
handle, and a repair is attached through a handle that was returned before. However the calls
follow on one another, what the registry holds can be read off the list of them (`Records`): the
names in the order in which they were registered first, to each name the check that was registered
first, and the repair that was attached last. -/

namespace ManifestLint

/-! ## Calls -/

/-- What a registry can be asked for. -/
inductive RegistryCall where
  | register (name : String) (check : Edit (List Finding))
  | attach (handle : CheckHandle) (fix : Finding → Edit Unit)

namespace RegistryCall

/-- The check that a call wants to register, under its name. -/
def registered? : RegistryCall → Option CheckHandle
  | register name check => some ⟨name, check⟩
  | attach _ _ => none

/-- The repair that a call attaches to the rule of a name. -/
def attached? (name : String) : RegistryCall → Option (Finding → Edit Unit)
  | register _ _ => none
  | attach handle fix => if handle.name = name then some fix else none

end RegistryCall

/-- The handle of a rule. -/
def Rule.handle (rule : Rule) : CheckHandle := ⟨rule.name, rule.check⟩

/-- A registry with the handles that it returned. -/
structure RegistryUse where
  registry : Registry
  handles : List CheckHandle

namespace RegistryUse

/-- A registry whose rules were registered before, so that there is a handle for each of them. -/
def start (registry : Registry) : RegistryUse := ⟨registry, registry.rules.map Rule.handle⟩

/-- Carries a call out. -/
def run (state : RegistryUse) : RegistryCall → Except NameTaken Unit × RegistryUse
  | .register name check =>
    match state.registry.register name check with
    | .ok (registry, handle) => (.ok (), ⟨registry, state.handles ++ [handle]⟩)
    | .error e => (.error e, state)
  | .attach handle fix => (.ok (), ⟨state.registry.attachFix handle fix, state.handles⟩)

/-- Carries calls out one after another. -/
def after (state : RegistryUse) : List RegistryCall → RegistryUse
  | [] => state
  | call :: rest => after (state.run call).2 rest

/-- A call can be made: the handle that it goes through was returned. -/
def Allows (state : RegistryUse) : RegistryCall → Prop
  | .register _ _ => True
  | .attach handle _ => handle ∈ state.handles

/-- Every call can be made when it is its turn. -/
def AllowsAll (state : RegistryUse) : List RegistryCall → Prop
  | [] => True
  | call :: rest => state.Allows call ∧ AllowsAll (state.run call).2 rest

end RegistryUse

/-! ## One call -/

namespace Registry

variable {registry : Registry} {name : String} {check : Edit (List Finding)} {handle : CheckHandle}
  {fix : Finding → Edit Unit} {front back : List Rule} {rule : Rule}

theorem register_of_mem (h : name ∈ registry.names) (check : Edit (List Finding)) :
    registry.register name check = .error ⟨name⟩ := by
  unfold register
  cases hfind : registry.find? name with
  | none => exact (find?_eq_none_iff.1 hfind h).elim
  | some rule => rfl

theorem register_of_notMem (h : name ∉ registry.names) (check : Edit (List Finding)) :
    registry.register name check =
      .ok (⟨registry.rules ++ [⟨name, check, none⟩]⟩, ⟨name, check⟩) := by
  unfold register
  rw [find?_eq_none_iff.2 h]

/-- Attaching a repair replaces one rule where it stands. -/
theorem attachFix_of_split (hnodup : registry.names.Nodup)
    (h : registry.rules = front ++ rule :: back) (hname : rule.name = handle.name) :
    registry.attachFix handle fix = ⟨front ++ { rule with fix := some fix } :: back⟩ := by
  unfold names at hnodup
  rw [h, List.map_append, List.map_cons, List.nodup_middle, List.nodup_cons,
    ← List.map_append] at hnodup
  -- a name stands once only, so that the rules on both sides have other names
  have hkeep : ∀ part : List Rule, (∀ other ∈ part, other ∈ front ++ back) →
      part.map (fun other => if other.name = handle.name then { other with fix := some fix }
        else other) = part := by
    intro part hpart
    refine (List.map_congr_left (g := id) fun other hother => ?_).trans (List.map_id part)
    have hne : other.name ≠ handle.name := by
      intro heq
      apply hnodup.1
      rw [hname, ← heq]
      exact List.mem_map_of_mem (hpart other hother)
    exact if_neg hne
  unfold attachFix
  rw [h, List.map_append, List.map_cons, if_pos hname,
    hkeep front fun other hother => List.mem_append_left back hother,
    hkeep back fun other hother => List.mem_append_right front hother]

theorem names_attachFix (registry : Registry) (handle : CheckHandle) (fix : Finding → Edit Unit) :
    (registry.attachFix handle fix).names = registry.names := by
  unfold names attachFix
  rw [List.map_map]
  refine List.map_congr_left fun rule _ => ?_
  show (if rule.name = handle.name then _ else rule : Rule).name = rule.name
  split <;> rfl

end Registry

namespace RegistryUse

variable {base : Registry} {calls : List RegistryCall} {state : RegistryUse} {name : String}
  {check : Edit (List Finding)} {handle : CheckHandle} {fix : Finding → Edit Unit}

theorem run_register_of_mem (h : name ∈ state.registry.names) (check : Edit (List Finding)) :
    state.run (.register name check) = (.error ⟨name⟩, state) := by
  unfold run
  simp only [Registry.register_of_mem h]

theorem run_register_of_notMem (h : name ∉ state.registry.names) (check : Edit (List Finding)) :
    state.run (.register name check) = (.ok (), ⟨⟨state.registry.rules ++ [⟨name, check, none⟩]⟩,
      state.handles ++ [⟨name, check⟩]⟩) := by
  unfold run
  simp only [Registry.register_of_notMem h]

/-! ## What calls come to -/

/-- The checks that were registered before, and those that calls wanted to register then. -/
def registrations (base : Registry) (calls : List RegistryCall) : List CheckHandle :=
  base.rules.map Rule.handle ++ calls.filterMap RegistryCall.registered?

/-- The repair that calls attached last to the rule of a name, or else the one it had before. -/
def lastFix (base : Registry) (calls : List RegistryCall) (name : String) :
    Option (Finding → Edit Unit) :=
  (calls.filterMap (RegistryCall.attached? name)).getLast?.or ((base.find? name).bind Rule.fix)

/-- What the registry holds can be read off the calls. -/
structure Records (base : Registry) (calls : List RegistryCall) (state : RegistryUse) : Prop where
  /-- No name stands twice. -/
  nodup : state.registry.names.Nodup
  /-- The names stand in the order in which they were registered first. -/
  names_eq : state.registry.names = ((registrations base calls).map CheckHandle.name).eraseDups
  /-- A rule has the check that was registered first under its name. -/
  check_eq : ∀ rule ∈ state.registry.rules,
    (registrations base calls).find? (fun handle => handle.name == rule.name) = some rule.handle
  /-- A rule has the repair that was attached to it last. -/
  fix_eq : ∀ rule ∈ state.registry.rules, rule.fix = lastFix base calls rule.name
  /-- A handle that was returned is the handle of a rule. -/
  handle_mem : ∀ handle ∈ state.handles, ∃ rule ∈ state.registry.rules, rule.handle = handle
  /-- No repair was attached to a rule that there is not. -/
  attached_eq : ∀ name, name ∉ state.registry.names →
    calls.filterMap (RegistryCall.attached? name) = []

section Calls

variable (base : Registry) (calls : List RegistryCall) (handle : CheckHandle)
  (fix : Finding → Edit Unit) (name : String) (check : Edit (List Finding))

theorem registrations_register :
    registrations base (calls ++ [RegistryCall.register name check]) =
      registrations base calls ++ [⟨name, check⟩] := by
  unfold registrations
  rw [List.filterMap_append, List.append_assoc]
  rfl

theorem registrations_attach :
    registrations base (calls ++ [RegistryCall.attach handle fix]) = registrations base calls := by
  unfold registrations
  rw [List.filterMap_append]
  exact congrArg _ (List.append_nil _)

theorem attached_register (other : String) :
    (calls ++ [RegistryCall.register name check]).filterMap (RegistryCall.attached? other) =
      calls.filterMap (RegistryCall.attached? other) := by
  rw [List.filterMap_append]
  exact List.append_nil _

theorem attached_attach_of_ne (h : handle.name ≠ name) :
    (calls ++ [RegistryCall.attach handle fix]).filterMap (RegistryCall.attached? name) =
      calls.filterMap (RegistryCall.attached? name) := by
  rw [List.filterMap_append]
  simp [RegistryCall.attached?, h]

theorem lastFix_register (other : String) :
    lastFix base (calls ++ [RegistryCall.register name check]) other =
      lastFix base calls other := by
  unfold lastFix
  rw [attached_register]

/-- The repair that is attached now is the last one; other rules keep theirs. -/
theorem lastFix_attach : lastFix base (calls ++ [RegistryCall.attach handle fix]) name =
    if handle.name = name then some fix else lastFix base calls name := by
  unfold lastFix
  split
  · rename_i h
    rw [List.filterMap_append]
    simp [RegistryCall.attached?, h]
  · rename_i h
    rw [attached_attach_of_ne calls handle fix name h]

end Calls

theorem eraseDups_of_nodup {names : List String} (h : names.Nodup) : names.eraseDups = names := by
  induction names with
  | nil => rfl
  | cons name rest ih =>
      rw [List.nodup_cons] at h
      have hkeep : rest.filter (fun other => !other == name) = rest := by
        refine List.filter_eq_self.2 fun other hother => ?_
        have hne : other ≠ name := by
          rintro rfl
          exact h.1 hother
        simpa using hne
      rw [List.eraseDups_cons, hkeep, ih h.2]

/-- A name at the end counts if it has not occurred before. -/
theorem eraseDups_concat (names : List String) (name : String) :
    (names ++ [name]).eraseDups =
      if name ∈ names then names.eraseDups else names.eraseDups ++ [name] := by
  rw [List.eraseDups_append]
  by_cases h : name ∈ names
  · simp [List.removeAll, h]
  · simp [List.removeAll, h, List.eraseDups_cons]

namespace Records

/-- A registry whose names are distinct is what no calls come to. -/
theorem start (hnodup : base.names.Nodup) : Records base [] (.start base) where
  nodup := hnodup
  names_eq := by
    unfold registrations
    rw [List.filterMap_nil, List.append_nil, List.map_map]
    exact (eraseDups_of_nodup hnodup).symm
  check_eq rule hrule := by
    have hfind := Registry.find?_of_mem hnodup hrule
    unfold registrations
    rw [List.filterMap_nil, List.append_nil, List.find?_map]
    exact congrArg (Option.map Rule.handle) hfind
  fix_eq rule hrule := by
    show rule.fix = (base.find? rule.name).bind Rule.fix
    rw [Registry.find?_of_mem hnodup hrule]
    rfl
  handle_mem handle hhandle := List.mem_map.1 hhandle
  attached_eq name _ := rfl

/-- A name is registered as soon as it was to be registered once. -/
theorem mem_names_iff (h : Records base calls state) :
    name ∈ state.registry.names ↔ name ∈ (registrations base calls).map CheckHandle.name := by
  rw [h.names_eq, List.mem_eraseDups]

/-- A registration under a name that is taken changes nothing, and is not the first one. -/
theorem register_of_mem (h : Records base calls state) (hmem : name ∈ state.registry.names)
    (check : Edit (List Finding)) : Records base (calls ++ [.register name check]) state where
  nodup := h.nodup
  names_eq := by
    rw [registrations_register, List.map_append, List.map_singleton, eraseDups_concat,
      if_pos (h.mem_names_iff.1 hmem), h.names_eq]
  check_eq rule hrule := by
    rw [registrations_register, List.find?_append, h.check_eq rule hrule]
    rfl
  fix_eq rule hrule := by
    rw [lastFix_register]
    exact h.fix_eq rule hrule
  handle_mem := h.handle_mem
  attached_eq other hother := by
    rw [attached_register]
    exact h.attached_eq other hother

/-- A registration under a new name puts a rule at the end. -/
theorem register_of_notMem (h : Records base calls state) (hmem : name ∉ state.registry.names)
    (check : Edit (List Finding)) :
    Records base (calls ++ [.register name check])
      ⟨⟨state.registry.rules ++ [⟨name, check, none⟩]⟩, state.handles ++ [⟨name, check⟩]⟩ where
  nodup := by
    unfold Registry.names
    rw [List.map_append]
    exact List.nodup_append.2 ⟨h.nodup, List.nodup_singleton name, fun other hother _ hlast => by
      obtain rfl := List.mem_singleton.1 hlast
      rintro rfl
      exact hmem hother⟩
  names_eq := by
    rw [registrations_register, List.map_append, List.map_singleton, eraseDups_concat,
      if_neg fun hold => hmem (h.mem_names_iff.2 hold), ← h.names_eq]
    exact List.map_append
  check_eq rule hrule := by
    rw [registrations_register, List.find?_append]
    rcases List.mem_append.1 hrule with hold | hnew
    · rw [h.check_eq rule hold]
      rfl
    · -- the name is not registered, so that nobody wanted to register it before
      obtain rfl := List.mem_singleton.1 hnew
      have hnone : (registrations base calls).find? (fun handle => handle.name == name) = none := by
        rw [List.find?_eq_none]
        intro handle hhandle heq
        obtain rfl : handle.name = name := by simpa using heq
        exact hmem (h.mem_names_iff.2 (List.mem_map_of_mem hhandle))
      rw [hnone]
      simp [Rule.handle]
  fix_eq rule hrule := by
    rw [lastFix_register]
    rcases List.mem_append.1 hrule with hold | hnew
    · exact h.fix_eq rule hold
    · -- nothing was attached under the name, neither by the calls nor before
      obtain rfl := List.mem_singleton.1 hnew
      have hbase : base.find? name = none := by
        rw [Registry.find?_eq_none_iff]
        intro hold
        refine hmem (h.mem_names_iff.2 ?_)
        unfold registrations
        rw [List.map_append, List.map_map]
        exact List.mem_append_left _ hold
      unfold lastFix
      rw [h.attached_eq name hmem, hbase]
      rfl
  handle_mem handle hhandle := by
    rcases List.mem_append.1 hhandle with hold | hnew
    · obtain ⟨rule, hrule, rfl⟩ := h.handle_mem handle hold
      exact ⟨rule, List.mem_append_left _ hrule, rfl⟩
    · obtain rfl := List.mem_singleton.1 hnew
      exact ⟨_, List.mem_append_right _ (List.mem_singleton.2 rfl), rfl⟩
  attached_eq other hother := by
    rw [attached_register]
    refine h.attached_eq other fun hold => hother ?_
    unfold Registry.names
    rw [List.map_append]
    exact List.mem_append_left _ hold

/-- Attaching a repair to a rule leaves everything else as it is. -/
theorem attach (h : Records base calls state) (hmem : handle ∈ state.handles)
    (fix : Finding → Edit Unit) :
    Records base (calls ++ [.attach handle fix])
      ⟨state.registry.attachFix handle fix, state.handles⟩ where
  nodup := by
    rw [Registry.names_attachFix]
    exact h.nodup
  names_eq := by
    rw [Registry.names_attachFix, registrations_attach]
    exact h.names_eq
  check_eq rule hrule := by
    rw [registrations_attach]
    obtain ⟨old, hold, rfl⟩ := List.mem_map.1 hrule
    have hcheck := h.check_eq old hold
    split
    · exact hcheck
    · exact hcheck
  fix_eq rule hrule := by
    rw [lastFix_attach]
    obtain ⟨old, hold, rfl⟩ := List.mem_map.1 hrule
    by_cases hname : old.name = handle.name
    · simp [hname]
    · simp [hname, Ne.symm hname, h.fix_eq old hold]
  handle_mem other hother := by
    obtain ⟨rule, hrule, rfl⟩ := h.handle_mem other hother
    refine ⟨_, List.mem_map_of_mem hrule, ?_⟩
    split <;> rfl
  attached_eq other hother := by
    rw [Registry.names_attachFix] at hother
    -- the handle was returned, so that its name is registered and is not the other one
    obtain ⟨rule, hrule, hhandle⟩ := h.handle_mem handle hmem
    have hne : handle.name ≠ other := by
      rintro rfl
      rw [← hhandle] at hother
      exact hother (List.mem_map_of_mem hrule)
    rw [attached_attach_of_ne calls handle fix other hne]
    exact h.attached_eq other hother

/-- **One call** is recorded. -/
theorem run (h : Records base calls state) {call : RegistryCall} (hcall : state.Allows call) :
    Records base (calls ++ [call]) (state.run call).2 := by
  cases call with
  | register name check =>
      by_cases hmem : name ∈ state.registry.names
      · rw [run_register_of_mem hmem]
        exact h.register_of_mem hmem check
      · rw [run_register_of_notMem hmem]
        exact h.register_of_notMem hmem check
  | attach handle fix => exact h.attach hcall fix

/-- Calls are recorded one after another. -/
theorem after (h : Records base calls state) {more : List RegistryCall}
    (hmore : state.AllowsAll more) : Records base (calls ++ more) (state.after more) := by
  induction more generalizing calls state with
  | nil =>
      rw [List.append_nil]
      exact h
  | cons call rest ih =>
      rw [← List.singleton_append, ← List.append_assoc]
      exact ih (h.run hmore.1) hmore.2

end Records

/-! ## What a registry answers -/

/-- What the next call comes to. -/
structure Answers (state : RegistryUse) : Prop where
  /-- A name that is taken is refused, and nothing changes. -/
  taken : ∀ name check, name ∈ state.registry.names →
    state.run (.register name check) = (.error ⟨name⟩, state)
  /-- A new name comes last, and has no repair yet. -/
  fresh : ∀ name check, name ∉ state.registry.names →
    state.run (.register name check) =
      (.ok (), ⟨⟨state.registry.rules ++ [⟨name, check, none⟩]⟩, state.handles ++ [⟨name, check⟩]⟩)
  /-- A repair takes the place of the one that the rule of the handle had; all else stays. -/
  attached : ∀ handle ∈ state.handles, ∀ fix, ∃ front rule back,
    state.registry.rules = front ++ rule :: back ∧ rule.handle = handle ∧
      state.run (.attach handle fix) =
        (.ok (), ⟨⟨front ++ { rule with fix := some fix } :: back⟩, state.handles⟩)

/-- A registry answers as it should whatever calls were made. -/
theorem Records.answers (h : Records base calls state) : state.Answers where
  taken _ check hmem := run_register_of_mem hmem check
  fresh _ check hmem := run_register_of_notMem hmem check
  attached handle hhandle fix := by
    obtain ⟨rule, hrule, rfl⟩ := h.handle_mem handle hhandle
    obtain ⟨front, back, hsplit⟩ := List.append_of_mem hrule
    have hattach : state.registry.attachFix rule.handle fix =
        ⟨front ++ { rule with fix := some fix } :: back⟩ :=
      Registry.attachFix_of_split h.nodup hsplit rfl
    refine ⟨front, rule, back, hsplit, rfl, ?_⟩
    rw [← hattach]
    rfl

/-- **The registry after any calls** on top of the bundled rules. What it holds can be read off the
calls: the names, none of them twice, in the order in which they were registered first, and for each
name the first check and the last repair. A name that is taken is refused and changes nothing, a
repair replaces that of its own rule only. Linters are made of the rules by their names. -/
theorem registry_after_calls (calls : List RegistryCall)
    (h : (start .bundled).AllowsAll calls) :
    Records .bundled calls ((start .bundled).after calls) ∧
      ((start .bundled).after calls).Answers ∧
      Linter.SelectsByName ((start .bundled).after calls).registry := by
  have hstart : Records .bundled [] (start .bundled) := .start (by decide)
  have hrecords := hstart.after h
  rw [List.nil_append] at hrecords
  exact ⟨hrecords, hrecords.answers, Linter.selectsByName _⟩

/-- A check that finds nothing. -/
def findsNothing : Edit (List Finding) := pure []

/-- A repair that does nothing. -/
def doesNothing : Finding → Edit Unit := fun _ => pure ()

/-- A check is registered, refused when it is registered again, and given a repair twice; a bundled
rule is given another repair in between. -/
def scratchCalls : List RegistryCall :=
  [.register "scratch" findsNothing, .register "scratch" OpeningBrace.beforeRule.check,
    .attach ⟨"scratch", findsNothing⟩ OpeningBrace.fixBefore,
    .attach OpeningBrace.afterRule.handle doesNothing,
    .attach ⟨"scratch", findsNothing⟩ doesNothing]

theorem registry_after_scratchCalls :
    (start .bundled).AllowsAll scratchCalls ∧
      ((start .bundled).after scratchCalls).registry.names =
        Registry.bundled.names ++ ["scratch"] ∧
      ∀ rule ∈ ((start .bundled).after scratchCalls).registry.rules, rule.name = "scratch" →
        rule.check = findsNothing ∧ rule.fix = some doesNothing := by
  have hscratch : ⟨"scratch", findsNothing⟩ ∈
      (start .bundled).handles ++ [⟨"scratch", findsNothing⟩] :=
    List.mem_append_right _ List.mem_cons_self
  have hbundled : OpeningBrace.afterRule.handle ∈
      (start .bundled).handles ++ [⟨"scratch", findsNothing⟩] :=
    List.mem_append_left _ (List.mem_cons_of_mem _ List.mem_cons_self)
  have hallowed : (start .bundled).AllowsAll scratchCalls :=
    ⟨trivial, trivial, hscratch, hbundled, hscratch, trivial⟩
  obtain ⟨hrecords, -, -⟩ := registry_after_calls scratchCalls hallowed
  refine ⟨hallowed, hrecords.names_eq.trans (by decide), fun rule hrule hname => ⟨?_, ?_⟩⟩
  · have hcheck := hrecords.check_eq rule hrule
    rw [hname] at hcheck
    exact (congrArg CheckHandle.check (Option.some.inj hcheck)).symm
  · rw [hrecords.fix_eq rule hrule, hname]
    rfl

end RegistryUse

end ManifestLint
