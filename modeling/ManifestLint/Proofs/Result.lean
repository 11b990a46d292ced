import Mathlib.Logic.Basic

set_option autoImplicit false

/-! # Results

Many functions either succeed or stop at an error. Here is what the success or the error of a
composed one says of its parts; proofs take them apart by these lemmas in place of the cases of each
part. -/

namespace ManifestLint

variable {ε ε' α β : Type}

theorem exists_of_bind_ok {e : Except ε α} {f : α → Except ε β} {b : β}
    (h : (e >>= f) = .ok b) : ∃ a, e = .ok a ∧ f a = .ok b := by
  cases e with
  | error error => cases h
  | ok a => exact ⟨a, rfl, h⟩

theorem exists_of_map_ok {e : Except ε α} {f : α → β} {b : β} (h : e.map f = .ok b) :
    ∃ a, e = .ok a ∧ f a = b := by
  cases e with
  | error error => cases h
  | ok a => exact ⟨a, rfl, Except.ok.inj h⟩

theorem ok_of_mapError {e : Except ε α} {f : ε → ε'} {a : α} (h : e.mapError f = .ok a) :
    e = .ok a := by
  cases e with
  | error error => cases h
  | ok b => rw [Except.ok.inj h]

theorem ok_of_toOption {e : Except ε α} {a : α} (h : e.toOption = some a) : e = .ok a := by
  cases e with
  | error error => cases h
  | ok b => exact congrArg Except.ok (Option.some.inj h)

theorem map_eq_error_iff {f : α → β} {result : Except ε α} {fault : ε} :
    result.map f = .error fault ↔ result = .error fault := by
  cases result with
  | error other =>
      show Except.error other = .error fault ↔ Except.error other = .error fault
      rw [Except.error.injEq, Except.error.injEq]
  | ok a => exact iff_of_false (by rintro ⟨⟩) (by rintro ⟨⟩)

/-- A result that passes a test is there and has the property that was tested. -/
theorem exists_some_of_any {o : Option α} {p : α → Prop} [DecidablePred p]
    (h : o.any (fun a => decide (p a)) = true) : ∃ a, o = some a ∧ p a := by
  cases o with
  | none => cases h
  | some a => exact ⟨a, rfl, of_decide_eq_true h⟩

theorem exists_ok_of_any {e : Except ε α} {p : α → Prop} [DecidablePred p]
    (h : e.toOption.any (fun a => decide (p a)) = true) : ∃ a, e = .ok a ∧ p a := by
  cases e with
  | error error => cases h
  | ok a => exact ⟨a, rfl, of_decide_eq_true h⟩

end ManifestLint
