import Mathlib.Data.List.Basic
import ManifestLint.File.Tree

set_option autoImplicit false

/-! # Reading after writing

Writing a file changes the bytes at its location and nothing else: the same locations are files and
directories, so that every path leads where it led before. A file that was written is read as what
was written (`read_write`). -/

namespace ManifestLint.Tree

/-- Two trees have the same places: the same directories, and files at the same locations. -/
structure SamePlaces (tree tree' : Tree) : Prop where
  directories : tree'.directories = tree.directories
  workingDirectory : tree'.workingDirectory = tree.workingDirectory
  isSome_bytesAt? : ∀ location,
    (tree'.bytesAt? location).isSome = (tree.bytesAt? location).isSome

namespace SamePlaces

variable {tree tree' : Tree}

theorem isDirectory (h : tree.SamePlaces tree') (location : Location) :
    tree'.isDirectory location = tree.isDirectory location := by
  simp only [Tree.isDirectory, h.directories]

theorem follow (h : tree.SamePlaces tree') (location : Location) (parts : List String) :
    tree'.follow location parts = tree.follow location parts := by
  induction parts generalizing location with
  | nil => rfl
  | cons part rest ih => simp only [Tree.follow, h.isDirectory, h.isSome_bytesAt?, ih]

theorem locate (h : tree.SamePlaces tree') (path : Path) :
    tree'.locate path = tree.locate path := by
  simp only [Tree.locate, Tree.startOf, h.workingDirectory, h.follow]

end SamePlaces

theorem lookup_cons_eq (l : Location) (b : ByteArray) (files : List (Location × ByteArray))
    (other : Location) :
    ((l, b) :: files).lookup other = if other = l then some b else files.lookup other := by
  rw [List.lookup_cons]
  by_cases h : other = l
  · rw [if_pos h, h, beq_self_eq_true]
  · rw [if_neg h, beq_false_of_ne h]

theorem lookup_putBytes (location : Location) (bytes : ByteArray)
    (files : List (Location × ByteArray)) (other : Location) :
    (putBytes location bytes files).lookup other =
      if other = location then (files.lookup other).map fun _ => bytes
      else files.lookup other := by
  induction files with
  | nil => simp [putBytes]
  | cons file rest ih =>
      obtain ⟨l, b⟩ := file
      rw [putBytes]
      by_cases hl : l = location
      · subst hl
        rw [if_pos rfl, lookup_cons_eq, lookup_cons_eq, ih]
        by_cases hother : other = l
        · simp [hother]
        · simp [hother]
      · rw [if_neg hl, lookup_cons_eq, lookup_cons_eq, ih]
        by_cases hother : other = l
        · simp [hother, hl]
        · simp [hother]

variable {tree : Tree} {path : Path} {location : Location}

theorem write_of_locate (h : tree.locate path = .ok location) (bytes : ByteArray) :
    tree.write path bytes = { tree with files := putBytes location bytes tree.files } := by
  simp only [write, h]

theorem bytesAt?_write (h : tree.locate path = .ok location) (bytes : ByteArray)
    (other : Location) : (tree.write path bytes).bytesAt? other =
      if other = location then (tree.bytesAt? other).map fun _ => bytes
      else tree.bytesAt? other := by
  rw [write_of_locate h]
  exact lookup_putBytes location bytes tree.files other

/-- Writing leaves all places as they are. -/
theorem samePlaces_write (tree : Tree) (path : Path) (bytes : ByteArray) :
    tree.SamePlaces (tree.write path bytes) := by
  cases h : tree.locate path with
  | error fault =>
      have hwrite : tree.write path bytes = tree := by simp only [write, h]
      rw [hwrite]
      exact ⟨rfl, rfl, fun _ => rfl⟩
  | ok location =>
      refine ⟨?_, ?_, fun other => ?_⟩
      · rw [write_of_locate h]
      · rw [write_of_locate h]
      · rw [bytesAt?_write h]
        split
        · rw [Option.isSome_map]
        · rfl

/-- A path that can be read leads to a file. -/
theorem read_eq_ok {bytes : ByteArray} (h : tree.read path = .ok bytes) :
    ∃ location, tree.locate path = .ok location ∧ tree.isDirectory location = false ∧
      tree.bytesAt? location = some bytes := by
  unfold read at h
  cases hlocate : tree.locate path with
  | error fault =>
      rw [hlocate] at h
      cases h
  | ok location =>
      rw [hlocate] at h
      replace h : tree.readAt location = .ok bytes := h
      unfold readAt at h
      split at h
      · cases h
      · rename_i hdirectory
        split at h
        · rename_i hbytes
          cases h
          exact ⟨location, rfl, by simpa using hdirectory, hbytes⟩
        · cases h

/-- **What was written is read**, if there was a file before. -/
theorem read_write {bytes : ByteArray} (h : tree.read path = .ok bytes) (stored : ByteArray) :
    (tree.write path stored).read path = .ok stored := by
  obtain ⟨location, hlocate, hdirectory, hbytes⟩ := read_eq_ok h
  have hplaces := tree.samePlaces_write path stored
  have hread : (tree.write path stored).read path =
      (tree.write path stored).readAt location := by
    unfold read
    rw [hplaces.locate, hlocate]
    rfl
  rw [hread]
  unfold readAt
  rw [hplaces.isDirectory, if_neg (by simp [hdirectory]), bytesAt?_write hlocate, if_pos rfl,
    hbytes]
  rfl

end ManifestLint.Tree
