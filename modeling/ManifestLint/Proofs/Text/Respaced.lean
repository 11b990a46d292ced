import ManifestLint.Proofs.Text.Utf8
import ManifestLint.Proofs.Token.Stable

set_option autoImplicit false

/-! # Respaced texts

A text is *respaced* when spaces, tabs and line ends are put into it or replaced by others, but
nowhere taken away altogether. That brings in no character that the text had not but ASCII ones,
and none at its beginning (`Respaced.head?_eq`). And if the characters are written as one byte
each, then the bytes are UTF-8 after it only if they were before (`Respaced.isText`): the new
separators can only take apart what was together. -/

namespace ManifestLint

/-- The second text is the first with some gaps replaced. A gap consists of separators; the old
one may be empty, the new one is not. -/
inductive Respaced : List Char → List Char → Prop
  | nil : Respaced [] []
  | keep (c : Char) {old new : List Char} : Respaced old new → Respaced (c :: old) (c :: new)
  | gap {old new gap gap' : List Char} (hgap : ∀ c ∈ gap, isSeparator c = true)
      (hgap' : ∀ c ∈ gap', isSeparator c = true) (hne : gap' ≠ []) :
      Respaced old new → Respaced (gap ++ old) (gap' ++ new)

/-- The byte of a character that is written as one byte. -/
def byteOf (c : Char) : UInt8 := UInt8.ofNat c.toNat

theorem isSeparator_iff {c : Char} :
    isSeparator c = true ↔ c = ' ' ∨ c = '\t' ∨ c = '\r' ∨ c = '\n' := by
  simp only [isSeparator, Bool.or_eq_true, beq_iff_eq, or_assoc]

theorem isAscii_of_isSeparator {c : Char} (h : isSeparator c = true) :
    Utf8.IsAscii (byteOf c) := by
  rcases isSeparator_iff.1 h with rfl | rfl | rfl | rfl <;> decide

theorem lt_of_isSeparator {c : Char} (h : isSeparator c = true) : c.toNat < 256 := by
  rcases isSeparator_iff.1 h with rfl | rfl | rfl | rfl <;> decide

namespace Respaced

variable {old new : List Char}

theorem refl (cs : List Char) : Respaced cs cs := by
  induction cs with
  | nil => exact .nil
  | cons c rest ih => exact .keep c ih

theorem append_left (front : List Char) (h : Respaced old new) :
    Respaced (front ++ old) (front ++ new) := by
  induction front with
  | nil => exact h
  | cons c rest ih => exact .keep c ih

/-- A character that is no separator stands at the beginning only if it stood there before. -/
theorem head?_eq (h : Respaced old new) {c : Char} (hc : isSeparator c = false)
    (hhead : new.head? = some c) : old.head? = some c := by
  cases h with
  | nil => exact hhead
  | keep c' hrest => exact hhead
  | @gap old new gap gap' hgap hgap' hne hrest =>
      obtain ⟨d, rest, rfl⟩ := List.exists_cons_of_ne_nil hne
      have hd := hgap' d List.mem_cons_self
      cases hhead
      rw [hc] at hd
      cases hd

/-- If the old characters can be written as one byte each, so can the new ones. -/
theorem lt (h : Respaced old new) (hold : ∀ c ∈ old, c.toNat < 256) :
    ∀ c ∈ new, c.toNat < 256 := by
  induction h with
  | nil => exact hold
  | keep c _ ih =>
      rw [List.forall_mem_cons] at hold ⊢
      exact ⟨hold.1, ih hold.2⟩
  | gap hgap hgap' hne _ ih =>
      rw [List.forall_mem_append] at hold ⊢
      exact ⟨fun c hc => lt_of_isSeparator (hgap' c hc), ih hold.2⟩

/-- **Respacing makes no UTF-8.** The bytes of the characters, behind any others, are text only if
they were before. -/
theorem isText (h : Respaced old new) (front : List UInt8)
    (htext : Utf8.IsText (front ++ new.map byteOf)) :
    Utf8.IsText (front ++ old.map byteOf) := by
  have hascii : ∀ {gap : List Char}, (∀ c ∈ gap, isSeparator c = true) →
      ∀ b ∈ gap.map byteOf, Utf8.IsAscii b := by
    intro gap hgap b hb
    obtain ⟨c, hc, rfl⟩ := List.mem_map.1 hb
    exact isAscii_of_isSeparator (hgap c hc)
  induction h generalizing front with
  | nil => exact htext
  | @keep c old new _ ih =>
      have hkeep : ∀ cs : List Char,
          front ++ (c :: cs).map byteOf = (front ++ [byteOf c]) ++ cs.map byteOf := by
        intro cs
        rw [List.map_cons, List.append_assoc]
        rfl
      rw [hkeep] at htext ⊢
      exact ih _ htext
  | @gap old new gap gap' hgap hgap' hne _ ih =>
      rw [List.map_append, ← List.append_assoc] at htext ⊢
      have hne' : gap'.map byteOf ≠ [] := fun hnil => hne (List.map_eq_nil_iff.1 hnil)
      -- the new gap cuts the bytes in two texts, whatever the old one did
      obtain ⟨hfront, hback⟩ := (Utf8.isText_gap_iff (hascii hgap') hne').1 htext
      have hold : Utf8.IsText (old.map byteOf) := ih [] hback
      by_cases hnil : gap = []
      · rw [hnil, List.map_nil, List.append_nil]
        exact hfront.append hold
      · have hgapNe : gap.map byteOf ≠ [] := fun hempty => hnil (List.map_eq_nil_iff.1 hempty)
        exact (Utf8.isText_gap_iff (hascii hgap) hgapNe).2 ⟨hfront, hold⟩

end Respaced

end ManifestLint
