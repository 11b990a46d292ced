import Mathlib.Tactic.ByContra
import ManifestLint.Text.Letter
import ManifestLint.Text.Numeral

set_option autoImplicit false

/-! # Letters and digits

No character is a letter and a digit: in ASCII by comparison, and above it because no interval of
the one class overlaps one of the other. -/

namespace ManifestLint.Text

/-- Decides whether no interval of the one list overlaps one of the other. -/
def areApart (xs ys : List (Nat × Nat)) : Bool :=
  xs.all fun x => ys.all fun y => x.2.blt y.1 || y.2.blt x.1

theorem inRanges_of_areApart {xs ys : List (Nat × Nat)} (h : areApart xs ys = true) {n : Nat}
    (hn : inRanges xs n = true) : inRanges ys n = false := by
  by_contra hother
  rw [Bool.not_eq_false, inRanges_iff] at hother
  rw [inRanges_iff] at hn
  obtain ⟨x, hxmem, hx⟩ := hn
  obtain ⟨y, hymem, hy⟩ := hother
  have hapart := List.all_eq_true.1 (List.all_eq_true.1 h x hxmem) y hymem
  rw [Bool.or_eq_true, Nat.blt_eq, Nat.blt_eq] at hapart
  omega

theorem areApart_digits_letters : areApart (decimalRanges ++ digitRanges) letterRanges = true := by
  decide +kernel

theorem not_isAlpha_of_isDigit {c : Char} (h : c.isDigit = true) : c.isAlpha = false := by
  have hdigit : (decide (c.val ≥ '0'.val) && decide (c.val ≤ '9'.val)) = true := h
  have hupper : c.isUpper = decide (c.val ≥ 'A'.val ∧ c.val ≤ 'Z'.val) := rfl
  have hlower : c.isLower = (decide (c.val ≥ 'a'.val) && decide (c.val ≤ 'z'.val)) := rfl
  show (c.isUpper || c.isLower) = false
  rw [hupper, hlower]
  grind

/-- A digit is no letter. -/
theorem not_isLetter_of_isDigit {c : Char} (h : isDigit c = true) : isLetter c = false := by
  by_cases hascii : c.toNat < 128
  · rw [isDigit_of_ascii c hascii] at h
    rw [isLetter_of_ascii c hascii]
    exact not_isAlpha_of_isDigit h
  · have hdigit : inRanges (decimalRanges ++ digitRanges) c.toNat = true := by
      rw [inRanges_append]
      simpa [isDigit, isDecimal, hascii, Nat.le_of_not_lt hascii] using h
    rw [isLetter, if_neg hascii]
    exact inRanges_of_areApart areApart_digits_letters hdigit

end ManifestLint.Text
