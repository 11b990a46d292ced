import ManifestLint.Command.Word

set_option autoImplicit false

/-! # What a command line asks for

The first word that is no option names the command, and all words after it belong to the
command. The arguments of a command stand together: once they have been read, further ones are
not understood. Options take effect in the order in which they stand, so that asking for help
wins over a mistake that comes later, but not over one that comes before it. -/

namespace ManifestLint.Command

/-- What the lint command is to do. -/
structure LintRequest where
  paths : List String
  fix : Bool
  only : List String
  disable : List String
  json : Bool
  config : Option String
  verbose : Bool
deriving DecidableEq, Repr

/-- What a command line asks for. -/
inductive Invocation where
  /-- To be told how the program is used, because that was asked for or nothing was. -/
  | help
  /-- Nothing that can be understood. -/
  | misuse
  /-- The version of the program. -/
  | version
  | lint (request : LintRequest)
  | checks
  | tokens (file : String)
deriving DecidableEq, Repr

/-! ## Options in effect -/

/-- An option with its value, which is empty if it takes none. -/
abbrev Effect := Switch × List Char

/-- Why reading a command line ends early. -/
inductive Stop where
  | help
  | version
  | misuse
deriving DecidableEq, Repr

/-- What was read of the words of a command. -/
structure Parsed where
  /-- The options that take effect, in order. -/
  effects : List Effect
  /-- The arguments, once they have been read. -/
  arguments : Option (List (List Char))
  /-- Some words were not understood. -/
  leftovers : Bool

/-- Nothing read. -/
def Parsed.empty : Parsed := ⟨[], none, false⟩

/-- Puts options into effect; help and version end the reading. -/
def takeEffects (parsed : Parsed) : List Effect → Except Stop Parsed
  | [] => .ok parsed
  | (.help, _) :: _ => .error .help
  | (.version, _) :: _ => .error .version
  | effect :: rest => takeEffects { parsed with effects := parsed.effects ++ [effect] } rest

/-- The options that are run together behind a short one, and whether the last of them is not
known. -/
def cluster (switches : Switches) (spelling : List Char) (switch : Switch) :
    List Char → Except Stop (List Effect × Bool)
  | [] => .ok ([(switch, [])], false)
  | c :: rest =>
    if spelling.take 2 = ['-', '-'] ∨ c = '-' then .error .misuse
    else
      match switches.lookup ['-', c] with
      | none => .ok ([(switch, [])], true)
      | some next =>
        if rest.head? = some '=' then .error .misuse
        else do
          let (effects, unknown) ← cluster switches ['-', c] next rest
          return ((switch, []) :: effects, unknown)

/-- Reads an option: what takes effect, whether something is left over, and how many of the words
after it are used up. -/
def readSwitch (switches : Switches) (spelling : List Char) (switch : Switch)
    (joined : Option Joined) (following : List Word) :
    Except Stop (List Effect × Bool × Nat) :=
  match switch.takesValue, joined with
  | true, some j => .ok ([(switch, j.text)], false, 0)
  | true, none =>
    match following with
    | .plain text :: _ => .ok ([(switch, text)], false, 1)
    | _ => .error .misuse
  | false, none => .ok ([(switch, [])], false, 0)
  | false, some j =>
    if j.byEquals ∨ j.text = [] then .error .misuse
    else do
      let (effects, unknown) ← cluster switches spelling switch j.text
      return (effects, unknown, 0)

/-! ## Arguments of a command -/

/-- How many arguments a command takes. -/
inductive Arity where
  | zero
  | one
  | many
deriving DecidableEq, Repr

/-- The words at the front that are read as the arguments of a command; nothing if they cannot
be. -/
def argumentsAt (arity : Arity) (words : List Word) : Option (List (List Char) × List Word) :=
  let text (word : Word) : Option (List Char) :=
    match word with
    | .plain cs => some cs
    | _ => none
  match arity with
  | .zero => none
  | .one =>
    match words.dropWhile (· == .separator) with
    | .plain cs :: rest => some ([cs], rest.dropWhile (· == .separator))
    | _ => none
  | .many =>
    let front := words.takeWhile Word.isArgument
    match front.filterMap text with
    | [] => none
    | texts => some (texts, words.dropWhile Word.isArgument)

theorem length_dropWhile_le {α : Type} (p : α → Bool) (l : List α) :
    (l.dropWhile p).length ≤ l.length :=
  (List.dropWhile_suffix p).length_le

/-- Arguments that are read use up words. -/
theorem argumentsAt_length {arity : Arity} {words after : List Word} {texts : List (List Char)}
    (h : argumentsAt arity words = some (texts, after)) : after.length < words.length := by
  cases arity with
  | zero => simp [argumentsAt] at h
  | one =>
    simp only [argumentsAt] at h
    have hle := length_dropWhile_le (· == Word.separator) words
    split at h
    · rename_i cs rest heq
      have hrest := length_dropWhile_le (· == Word.separator) rest
      simp only [Option.some.injEq, Prod.mk.injEq] at h
      rw [heq, List.length_cons] at hle
      rw [← h.2]
      omega
    · exact absurd h (by simp)
  | many =>
    simp only [argumentsAt] at h
    split at h
    · exact absurd h (by simp)
    · rename_i hne
      simp only [Option.some.injEq, Prod.mk.injEq] at h
      have hsum := congrArg List.length (List.takeWhile_append_dropWhile (p := Word.isArgument) (l := words))
      have hpos : words.takeWhile Word.isArgument ≠ [] := fun hnil => hne (by rw [hnil]; rfl)
      have := List.length_pos_iff.mpr hpos
      rw [List.length_append] at hsum
      rw [← h.2]
      omega

/-- Reads the words of a command. -/
def parseWords (switches : Switches) (arity : Arity) (parsed : Parsed) :
    List Word → Except Stop Parsed
  | [] => .ok parsed
  | .unknown _ :: rest => parseWords switches arity { parsed with leftovers := true } rest
  | .switch spelling which joined :: rest => do
    let (effects, leftovers, used) ← readSwitch switches spelling which joined rest
    let parsed ← takeEffects { parsed with leftovers := parsed.leftovers || leftovers } effects
    parseWords switches arity parsed (rest.drop used)
  | word :: rest =>
    match parsed.arguments, h : argumentsAt arity (word :: rest) with
    | none, some (texts, after) =>
      have := argumentsAt_length h
      parseWords switches arity { parsed with arguments := some texts } after
    | _, _ => parseWords switches arity { parsed with leftovers := true } rest
termination_by words => words.length
decreasing_by
  · exact Nat.lt_succ_self _
  · exact Nat.lt_succ_of_le (List.length_drop ▸ Nat.sub_le _ _)
  · exact this
  · exact Nat.lt_succ_self _

/-- Reads the words of a command, all of which have to be understood in the end. -/
def parseCommand (switches : Switches) (arity : Arity) (words : List (List Char)) :
    Except Stop Parsed := do
  let words ← (Word.classifyAll switches words).mapError fun _ => Stop.misuse
  let parsed ← parseWords switches arity .empty words
  if arity ≠ .zero ∧ parsed.arguments.isNone then .error .misuse
  else return parsed

/-! ## The commands -/

/-- The options before the command. -/
def mainSwitches : Switches :=
  [("-h".toList, .help), ("--help".toList, .help), ("--version".toList, .version)]

/-- The options of a command that has none of its own. -/
def helpSwitches : Switches := [("-h".toList, .help), ("--help".toList, .help)]

/-- The options of the lint command. -/
def lintSwitches : Switches :=
  helpSwitches ++
    [("--fix".toList, .fix), ("--only".toList, .only), ("--disable".toList, .disable),
     ("--json".toList, .json), ("--config".toList, .config), ("-v".toList, .verbose),
     ("--verbose".toList, .verbose)]

/-- The values that were given to an option, in order. -/
def Parsed.valuesOf (parsed : Parsed) (switch : Switch) : List String :=
  parsed.effects.filterMap fun effect =>
    if effect.1 = switch then some (String.ofList effect.2) else none

/-- Decides whether an option was given. -/
def Parsed.has (parsed : Parsed) (switch : Switch) : Bool :=
  parsed.effects.any fun effect => effect.1 == switch

/-- What the lint command was asked to do. -/
def Parsed.lintRequest (parsed : Parsed) : LintRequest :=
  { paths := (parsed.arguments.getD []).map String.ofList
    fix := parsed.has .fix
    only := parsed.valuesOf .only
    disable := parsed.valuesOf .disable
    json := parsed.has .json
    config := (parsed.valuesOf .config).getLast?
    verbose := parsed.has .verbose }

/-- The command of a name with the words after it, and whether some were not understood. -/
def parseNamed (name : List Char) (words : List (List Char)) :
    Except Stop (Invocation × Bool) := do
  match String.ofList name with
  | "lint" =>
    let parsed ← parseCommand lintSwitches .many words
    return (.lint parsed.lintRequest, parsed.leftovers)
  | "checks" =>
    let parsed ← parseCommand helpSwitches .zero words
    return (.checks, parsed.leftovers)
  | "tokens" =>
    let parsed ← parseCommand helpSwitches .one words
    return (.tokens (String.ofList ((parsed.arguments.getD []).headD [])), parsed.leftovers)
  | _ => .error .misuse

/-- Reads the options before the command, and the command. `raw` are the words as they were
given. -/
def parseMain : List Word → List (List Char) → Bool → Except Stop Invocation
  | .unknown _ :: words, _ :: raw, _ => parseMain words raw true
  | .switch spelling which joined :: words, _ :: raw, leftovers => do
    let (effects, more, _) ← readSwitch mainSwitches spelling which joined words
    let _ ← takeEffects .empty effects
    parseMain words raw (leftovers || more)
  | .plain name :: _, _ :: raw, leftovers => do
    let (invocation, more) ← parseNamed name raw
    if leftovers || more then .error .misuse else return invocation
  | [], _, leftovers => .error (if leftovers then .misuse else .help)
  | _, _, _ => .error .misuse

/-- What a command line asks for. -/
def Invocation.ofArguments (arguments : List String) : Invocation :=
  let raw := arguments.map String.toList
  let result := do
    let words ← (Word.classifyAll mainSwitches raw).mapError fun _ => Stop.misuse
    parseMain words raw false
  match result with
  | .ok invocation => invocation
  | .error .help => .help
  | .error .version => .version
  | .error .misuse => .misuse

end ManifestLint.Command
