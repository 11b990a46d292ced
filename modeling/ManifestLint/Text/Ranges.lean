set_option autoImplicit false

/-! # Intervals of code points

A class of characters is written as a list of closed intervals of code points. Membership is
membership in one of the intervals; the order of the list does not matter for the result. -/

namespace ManifestLint.Text

/-- Decides whether `n` lies in one of the closed intervals. -/
def inRanges (ranges : List (Nat × Nat)) (n : Nat) : Bool :=
  ranges.any fun r => decide (r.1 ≤ n) && decide (n ≤ r.2)

theorem inRanges_iff (ranges : List (Nat × Nat)) (n : Nat) :
    inRanges ranges n = true ↔ ∃ r ∈ ranges, r.1 ≤ n ∧ n ≤ r.2 := by
  simp [inRanges]

theorem inRanges_append (first second : List (Nat × Nat)) (n : Nat) :
    inRanges (first ++ second) n = (inRanges first n || inRanges second n) := by
  simp [inRanges]

end ManifestLint.Text
