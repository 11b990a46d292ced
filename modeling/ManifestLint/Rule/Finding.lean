import ManifestLint.Stream.Edit

set_option autoImplicit false

/-! # Findings

A finding is one violation of a rule. Its position is a copy made when the rule was checked, so
that it stays what it was when the token is moved or taken out later. The token is the anchor
that a repair starts from; only an error of the lexing has none, as there is no stream then. -/

namespace ManifestLint

/-- How serious a finding is. -/
inductive Severity where
  | error
  | warning
deriving DecidableEq, Repr, Inhabited

/-- The word for a severity. -/
def Severity.name : Severity → String
  | error => "error"
  | warning => "warning"

/-- One violation of a rule. -/
structure Finding where
  check : String
  severity : Severity
  message : String
  position : Position
  token : Option TokenId
deriving DecidableEq, Repr

namespace Finding

/-- A finding as one line of text. -/
def shown (finding : Finding) : String :=
  s!"{finding.position.line}:{finding.position.column}: {finding.severity.name}: " ++
    s!"{finding.message} [{finding.check}]"

/-- The refusal to repair a finding, in words. -/
def refusalMessage (finding : Finding) (reason : String) : String :=
  let message := s!"no safe fix for {finding.check} at " ++
    s!"{finding.position.line}:{finding.position.column}"
  if reason = "" then message else message ++ ": " ++ reason

end Finding

/-- A finding at a token, at the position the token has. -/
def Edit.findingAt (check : String) (t : TokenId) (message : String) (severity : Severity) :
    Edit Finding := do
  return ⟨check, severity, message, (← token t).position, some t⟩

/-- Applies a check to each element of a list and collects what it finds, in order. -/
def Edit.collect {α β : Type} (f : α → Edit (Option β)) : List α → Edit (List β)
  | [] => return []
  | a :: rest => do
    match ← f a with
    | none => collect f rest
    | some b => return b :: (← collect f rest)

/-- The anchor of a finding; a repair cannot start without one. -/
def Edit.anchor (finding : Finding) : Edit TokenId :=
  match finding.token with
  | none => throw .noToken
  | some t => return t

end ManifestLint
