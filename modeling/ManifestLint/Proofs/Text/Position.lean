import Mathlib.Data.List.Induction
import ManifestLint.Text.Position

set_option autoImplicit false

/-! # Where a text ends

The position behind a text can be read off the text as a whole: the line is one more than the
number of line feeds, and the column is one more than the number of characters after the last of
them (`start_after`). Of all the beginnings of a text no two end at the same position
(`endOf_inj`), so that a position tells how much of a text comes before it. -/

namespace ManifestLint.Position

/-- The characters after the last line feed, the last one first. -/
def lastLine (cs : List Char) : List Char := cs.reverse.takeWhile (· != '\n')

/-- The position behind a text that begins at the start. -/
def endOf (cs : List Char) : Position := ⟨1 + cs.count '\n', 1 + (lastLine cs).length⟩

@[simp] theorem lastLine_nil : lastLine [] = [] := rfl

theorem lastLine_concat (cs : List Char) (c : Char) :
    lastLine (cs ++ [c]) = if c = '\n' then [] else c :: lastLine cs := by
  rw [lastLine, List.reverse_append, List.reverse_singleton, List.singleton_append,
    List.takeWhile_cons]
  by_cases hc : c = '\n'
  · rw [if_pos hc, if_neg (by simp [hc])]
  · rw [if_neg hc, if_pos (by simpa using hc)]
    rfl

theorem endOf_concat (cs : List Char) (c : Char) :
    endOf (cs ++ [c]) = (endOf cs).step c := by
  unfold endOf step
  rw [List.count_append, List.count_singleton, lastLine_concat]
  by_cases hc : c = '\n'
  · -- a line feed opens a line, and the next column is the first
    rw [if_pos hc, if_pos hc, hc, beq_self_eq_true, if_pos rfl]
    have hline : 1 + ((cs.count '\n' + 1 : Nat) : Int) = 1 + cs.count '\n' + 1 := by omega
    rw [hline]
    rfl
  · have hbeq : (c == '\n') = false := by simpa using hc
    rw [if_neg hc, if_neg hc, hbeq, if_neg Bool.false_ne_true, Nat.add_zero, List.length_cons]
    have hcolumn : 1 + (((lastLine cs).length + 1 : Nat) : Int) =
        1 + (lastLine cs).length + 1 := by omega
    rw [hcolumn]

/-- **Counting step by step** comes to the same as counting in the text as a whole. -/
theorem start_after (cs : List Char) : start.after cs = endOf cs := by
  induction cs using List.reverseRecOn with
  | nil => rfl
  | append_singleton cs c ih =>
      calc start.after (cs ++ [c]) = (start.after cs).step c := after_append start cs [c]
        _ = (endOf cs).step c := by rw [ih]
        _ = endOf (cs ++ [c]) := (endOf_concat cs c).symm

/-! ## Beginnings of a text -/

theorem length_lastLine_append {more : List Char} (h : '\n' ∉ more) (cs : List Char) :
    (lastLine (cs ++ more)).length = (lastLine cs).length + more.length := by
  have hall : ∀ c ∈ more.reverse, (c != '\n') = true := by
    intro c hc
    rw [bne_iff_ne]
    rintro rfl
    exact h (List.mem_reverse.1 hc)
  rw [lastLine, List.reverse_append, List.takeWhile_append_of_pos hall, List.length_append,
    List.length_reverse, Nat.add_comm]
  rfl

/-- A longer text ends somewhere else. -/
theorem eq_nil_of_endOf_append {cs more : List Char} (h : endOf (cs ++ more) = endOf cs) :
    more = [] := by
  have hline : 1 + ((cs ++ more).count '\n' : Int) = 1 + (cs.count '\n' : Int) :=
    congrArg Position.line h
  have hcolumn : 1 + ((lastLine (cs ++ more)).length : Int) = 1 + ((lastLine cs).length : Int) :=
    congrArg Position.column h
  -- the same line: then all that was added stands on it, and moves the column on
  have hcount : more.count '\n' = 0 := by
    rw [List.count_append] at hline
    omega
  have hlength := length_lastLine_append (List.count_eq_zero.1 hcount) cs
  exact List.eq_nil_of_length_eq_zero (by omega)

/-- **Beginnings of a text** that end at the same position are the same. -/
theorem endOf_inj {xs ys text : List Char} (hx : xs <+: text) (hy : ys <+: text)
    (h : endOf xs = endOf ys) : xs = ys := by
  rcases List.prefix_or_prefix_of_prefix hx hy with ⟨more, rfl⟩ | ⟨more, rfl⟩
  · rw [eq_nil_of_endOf_append h.symm, List.append_nil]
  · rw [eq_nil_of_endOf_append h, List.append_nil]

end ManifestLint.Position
