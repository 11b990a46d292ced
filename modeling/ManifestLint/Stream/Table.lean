set_option autoImplicit false

/-! # Tables

A table maps small numbers to values. It is kept as an array of optional cells that grows when
a number beyond its end is written. The three equations `get?_empty`, `get?_insert` and
`get?_erase` say all that is to be known about it. -/

namespace ManifestLint

/-- A finite map from numbers to values. -/
structure Table (α : Type) where
  cells : Array (Option α)
deriving Repr

namespace Table

variable {α : Type}

/-- The table without entries. -/
def empty : Table α := ⟨#[]⟩

instance : Inhabited (Table α) := ⟨empty⟩

/-- The value at a number. -/
def get? (table : Table α) (key : Nat) : Option α := table.cells.getD key none

/-- The table with a value written at a number. -/
def insert (table : Table α) (key : Nat) (value : α) : Table α :=
  if key < table.cells.size then ⟨table.cells.setIfInBounds key (some value)⟩
  else ⟨(table.cells ++ Array.replicate (key - table.cells.size) none).push (some value)⟩

/-- The table without the value at a number. -/
def erase (table : Table α) (key : Nat) : Table α := ⟨table.cells.setIfInBounds key none⟩

@[simp] theorem get?_empty (key : Nat) : (empty : Table α).get? key = none := rfl

theorem get?_insert (table : Table α) (key : Nat) (value : α) (other : Nat) :
    (table.insert key value).get? other = if other = key then some value else table.get? other := by
  unfold insert get?
  split
  · rename_i h
    simp only [Array.getD_eq_getD_getElem?, Array.getElem?_setIfInBounds]
    by_cases hk : key = other
    · subst hk
      simp [h]
    · simp [hk, Ne.symm hk]
  · rename_i h
    simp only [Array.getD_eq_getD_getElem?, Array.getElem?_push, Array.size_append,
      Array.size_replicate, Array.getElem?_append, Array.getElem?_replicate]
    have hsize : table.cells.size + (key - table.cells.size) = key := by omega
    rw [hsize]
    by_cases hk : other = key
    · simp [hk]
    · simp only [hk, if_false]
      split
      · rfl
      · rename_i hlt
        rw [Array.getElem?_eq_none (Nat.le_of_not_lt hlt)]
        split <;> rfl

theorem get?_erase (table : Table α) (key other : Nat) :
    (table.erase key).get? other = if other = key then none else table.get? other := by
  unfold erase get?
  simp only [Array.getD_eq_getD_getElem?, Array.getElem?_setIfInBounds]
  by_cases hk : key = other
  · subst hk
    by_cases hlt : key < table.cells.size
    · simp [hlt]
    · simp [hlt]
  · simp [hk, Ne.symm hk]

end Table

end ManifestLint
