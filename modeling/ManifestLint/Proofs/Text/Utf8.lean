import Mathlib.Data.List.Basic

set_option autoImplicit false

/-! # UTF-8

Bytes are *text* when they are what some characters are written as. The bytes of a character other
than an ASCII one are all different from the bytes of ASCII characters, so that text can be cut at
each ASCII byte: what comes before it and what comes after it are text as well
(`isText_cut_iff`). Whether bytes are text therefore does not depend on which ASCII characters
stand in a gap of them, as long as there are some. -/

namespace ManifestLint.Utf8

open String (utf8EncodeChar)

/-- The bytes that characters are written as. -/
def encode (cs : List Char) : List UInt8 := cs.flatMap utf8EncodeChar

/-- The bytes are what some characters are written as. -/
def IsText (bytes : List UInt8) : Prop := ∃ cs, bytes = encode cs

@[simp] theorem encode_nil : encode [] = [] := rfl

@[simp] theorem encode_cons (c : Char) (cs : List Char) :
    encode (c :: cs) = utf8EncodeChar c ++ encode cs := rfl

theorem encode_append (cs ds : List Char) : encode (cs ++ ds) = encode cs ++ encode ds :=
  List.flatMap_append

theorem toList_utf8Encode (cs : List Char) : cs.utf8Encode.data.toList = encode cs :=
  List.toList_data_toByteArray

theorem toList_toUTF8 (text : String) : text.toUTF8.data.toList = encode text.toList := by
  have hbytes : text.toUTF8 = text.toList.utf8Encode := by
    rw [← String.toByteArray_ofList, String.ofList_toList]
    rfl
  rw [hbytes, toList_utf8Encode]

theorem bytes_ext {a b : ByteArray} (h : a.data.toList = b.data.toList) : a = b :=
  ByteArray.ext (Array.toList_inj.1 h)

/-- Validity of a byte array is about the list of its bytes. -/
theorem isValidUTF8_iff (bytes : ByteArray) : bytes.IsValidUTF8 ↔ IsText bytes.data.toList := by
  constructor
  · rintro ⟨cs, rfl⟩
    exact ⟨cs, toList_utf8Encode cs⟩
  · rintro ⟨cs, hcs⟩
    refine ⟨cs, bytes_ext ?_⟩
    rw [hcs, toList_utf8Encode]

/-! ## Putting text together -/

theorem isText_encode (cs : List Char) : IsText (encode cs) := ⟨cs, rfl⟩

theorem isText_encodeChar (c : Char) : IsText (utf8EncodeChar c) := by
  have hone := isText_encode [c]
  rwa [encode_cons, encode_nil, List.append_nil] at hone

theorem IsText.append {xs ys : List UInt8} (hxs : IsText xs) (hys : IsText ys) :
    IsText (xs ++ ys) := by
  obtain ⟨cs, rfl⟩ := hxs
  obtain ⟨ds, rfl⟩ := hys
  exact ⟨cs ++ ds, (encode_append cs ds).symm⟩

/-- Behind the bytes of characters there is text if all of it is. -/
theorem isText_encode_append_iff (cs : List Char) (bytes : List UInt8) :
    IsText (encode cs ++ bytes) ↔ IsText bytes := by
  have hone : ∀ (c : Char) (rest : List UInt8),
      IsText (utf8EncodeChar c ++ rest) ↔ IsText rest := by
    intro c rest
    have hiff := ByteArray.isValidUTF8_utf8Encode_singleton_append_iff
      (b := rest.toByteArray) (c := c)
    rw [isValidUTF8_iff, isValidUTF8_iff, ByteArray.data_append, Array.toList_append,
      toList_utf8Encode, List.toList_data_toByteArray] at hiff
    simpa using hiff
  induction cs with
  | nil => rfl
  | cons c rest ih =>
      rw [encode_cons, List.append_assoc]
      exact (hone c _).trans ih

/-! ## Cutting text -/

/-- A byte that stands for an ASCII character: its highest bit is clear. -/
def IsAscii (b : UInt8) : Prop := b &&& 128 = 0

instance (b : UInt8) : Decidable (IsAscii b) := inferInstanceAs (Decidable (_ = _))

theorem not_isAscii_or {mask : UInt8} (hmask : mask = 192 ∨ mask = 224 ∨ mask = 240)
    (b : UInt8) : ¬IsAscii (b ||| mask) := by
  have hall : ∀ n < 256, ¬IsAscii (UInt8.ofNat n ||| 192) ∧ ¬IsAscii (UInt8.ofNat n ||| 224) ∧
      ¬IsAscii (UInt8.ofNat n ||| 240) := by decide +kernel
  obtain ⟨htwo, hthree, hfour⟩ := hall b.toNat (UInt8.toNat_lt b)
  rw [UInt8.ofNat_toNat] at htwo hthree hfour
  rcases hmask with rfl | rfl | rfl
  · exact htwo
  · exact hthree
  · exact hfour

/-- A character whose first byte is an ASCII one has no more bytes. -/
theorem eq_nil_of_isAscii {c : Char} {b : UInt8} {bs : List UInt8}
    (h : utf8EncodeChar c = b :: bs) (hb : IsAscii b) : bs = [] := by
  rcases Char.utf8Size_eq c with hsize | hsize | hsize | hsize
  · rw [String.utf8EncodeChar_eq_singleton hsize] at h
    exact (List.cons.inj h).2.symm
  · rw [String.utf8EncodeChar_eq_cons_cons hsize] at h
    rw [← (List.cons.inj h).1] at hb
    exact absurd hb (not_isAscii_or (by simp) _)
  · rw [String.utf8EncodeChar_eq_cons_cons_cons hsize] at h
    rw [← (List.cons.inj h).1] at hb
    exact absurd hb (not_isAscii_or (by simp) _)
  · rw [String.utf8EncodeChar_eq_cons_cons_cons_cons hsize] at h
    rw [← (List.cons.inj h).1] at hb
    exact absurd hb (not_isAscii_or (by simp) _)

/-- An ASCII byte among those of a character is the only one. -/
theorem eq_nil_of_encodeChar {c : Char} {xs bs : List UInt8} {b : UInt8}
    (h : utf8EncodeChar c = xs ++ b :: bs) (hb : IsAscii b) : xs = [] ∧ bs = [] := by
  have hlt : xs.length < (utf8EncodeChar c).length := by
    rw [h, List.length_append, List.length_cons]
    omega
  have hget : (utf8EncodeChar c)[xs.length] = b := by simp [h]
  have hfirst : (utf8EncodeChar c)[xs.length].IsUTF8FirstByte := by
    rw [hget]
    exact .inl hb
  have hxs : xs = [] :=
    List.length_eq_zero_iff.1 (UInt8.isUTF8FirstByte_getElem_utf8EncodeChar.1 hfirst)
  subst hxs
  exact ⟨rfl, eq_nil_of_isAscii h hb⟩

/-- Characters can be cut at an ASCII byte. -/
theorem exists_cut {cs : List Char} {xs ys : List UInt8} {b : UInt8} (hb : IsAscii b)
    (h : encode cs = xs ++ b :: ys) : IsText xs ∧ IsText ys := by
  induction cs generalizing xs with
  | nil => simp at h
  | cons c rest ih =>
      rw [encode_cons, List.append_eq_append_iff] at h
      -- the byte comes after the bytes of the first character, or is one of them
      rcases h with ⟨as, rfl, hrest⟩ | ⟨bs, hchar, hbytes⟩
      · obtain ⟨hfront, hback⟩ := ih hrest
        exact ⟨(isText_encodeChar c).append hfront, hback⟩
      · cases bs with
        | nil =>
            rw [List.append_nil] at hchar
            obtain ⟨-, hback⟩ := @ih [] hbytes.symm
            exact ⟨hchar ▸ isText_encodeChar c, hback⟩
        | cons b' bs =>
            obtain ⟨rfl, hys⟩ := List.cons.inj hbytes
            obtain ⟨rfl, rfl⟩ := eq_nil_of_encodeChar hchar hb
            exact ⟨isText_encode [], hys ▸ isText_encode rest⟩

theorem isText_of_isAscii {b : UInt8} (hb : IsAscii b) : IsText [b] := by
  have hall : ∀ n < 256, IsAscii (UInt8.ofNat n) →
      [UInt8.ofNat n] = utf8EncodeChar (Char.ofNat n) := by decide +kernel
  have hone := hall b.toNat (UInt8.toNat_lt b)
  rw [UInt8.ofNat_toNat] at hone
  refine ⟨[Char.ofNat b.toNat], ?_⟩
  rw [hone hb, encode_cons, encode_nil, List.append_nil]

/-- **Text can be cut at an ASCII byte**, and put together there. -/
theorem isText_cut_iff {xs ys : List UInt8} {b : UInt8} (hb : IsAscii b) :
    IsText (xs ++ b :: ys) ↔ IsText xs ∧ IsText ys := by
  constructor
  · rintro ⟨cs, hcs⟩
    exact exists_cut hb hcs.symm
  · rintro ⟨hxs, hys⟩
    have hback : IsText ([b] ++ ys) := (isText_of_isAscii hb).append hys
    exact hxs.append hback

/-- The bytes of a gap that is not empty do not matter. -/
theorem isText_gap_iff {xs gap ys : List UInt8} (hgap : ∀ b ∈ gap, IsAscii b) (hne : gap ≠ []) :
    IsText (xs ++ gap ++ ys) ↔ IsText xs ∧ IsText ys := by
  induction gap generalizing xs with
  | nil => exact absurd rfl hne
  | cons b rest ih =>
      rw [List.forall_mem_cons] at hgap
      rw [List.append_assoc, List.cons_append, isText_cut_iff hgap.1]
      cases rest with
      | nil => rfl
      | cons b' others =>
          have hrest := @ih [] hgap.2 (List.cons_ne_nil _ _)
          rw [List.nil_append] at hrest
          rw [hrest]
          exact and_congr_right fun _ => and_iff_right (isText_encode [])

end ManifestLint.Utf8
