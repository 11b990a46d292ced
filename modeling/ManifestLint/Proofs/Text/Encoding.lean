import ManifestLint.Proofs.Text.Respaced
import ManifestLint.Text.Encoding

set_option autoImplicit false

/-! # Encodings

What the bytes of a file are read as, and what the text is written back as. Bytes that are UTF-8
are read as that, behind a mark if they begin with one, and all others as Latin-1
(`decode_cases`). What was read is written back as the same bytes (`encode?_decode`), and a
respaced text is written as bytes that are read as that text in the same encoding
(`decode_encode?_of_respaced`). -/

namespace ManifestLint.Encoding

/-! ## Bytes and texts -/

/-- The character whose bytes are the byte order mark. -/
def markChar : Char := '\uFEFF'

theorem toList_mark : mark.data.toList = Utf8.encode [markChar] := by decide +kernel

theorem fromUTF8?_eq_some {bytes : ByteArray} {text : String}
    (h : bytes.data.toList = Utf8.encode text.toList) : String.fromUTF8? bytes = some text := by
  have hbytes : bytes = text.toUTF8 := Utf8.bytes_ext (h.trans (Utf8.toList_toUTF8 text).symm)
  have hvalid : bytes.IsValidUTF8 := (Utf8.isValidUTF8_iff bytes).2 ⟨_, h⟩
  unfold String.fromUTF8?
  rw [dif_pos hvalid, Option.some.injEq, ← String.toByteArray_inj]
  exact hbytes

theorem fromUTF8?_eq_none {bytes : ByteArray} (h : ¬Utf8.IsText bytes.data.toList) :
    String.fromUTF8? bytes = none := by
  unfold String.fromUTF8?
  exact dif_neg fun hvalid => h ((Utf8.isValidUTF8_iff bytes).1 hvalid)

theorem encode_inj {cs ds : List Char} (h : Utf8.encode cs = Utf8.encode ds) : cs = ds := by
  have hbytes : (String.ofList cs).toUTF8 = (String.ofList ds).toUTF8 := by
    apply Utf8.bytes_ext
    rw [Utf8.toList_toUTF8, Utf8.toList_toUTF8, String.toList_ofList, String.toList_ofList, h]
  exact String.ofList_injective (String.toByteArray_inj.1 hbytes)

theorem toList_extract_front (bytes : ByteArray) :
    (bytes.extract 0 3).data.toList = bytes.data.toList.take 3 := by
  simp [ByteArray.data_extract]

theorem toList_extract_back (bytes : ByteArray) :
    (bytes.extract 3 bytes.size).data.toList = bytes.data.toList.drop 3 := by
  have hsize : bytes.size = bytes.data.toList.length := by simp
  rw [ByteArray.data_extract, Array.toList_extract, List.extract_eq_take_drop, hsize,
    List.take_of_length_le (by simp)]

/-! ## Reading -/

/-- Bytes that begin with the mark are the mark and a rest. -/
theorem eq_mark_append {bytes : List UInt8} (h : bytes.take 3 = mark.data.toList) :
    bytes = Utf8.encode [markChar] ++ bytes.drop 3 := by
  rw [← toList_mark, ← h, List.take_append_drop]

theorem decode_of_utf8 {bytes : ByteArray} {text : String}
    (h : bytes.data.toList = Utf8.encode text.toList) (hhead : text.toList.head? ≠ some markChar) :
    decode bytes = (text, utf8) := by
  have hmark : (bytes.extract 0 3).data.toList ≠ mark.data.toList := by
    rw [toList_extract_front]
    intro htake
    have hbytes := eq_mark_append htake
    have htext : Utf8.IsText (Utf8.encode [markChar] ++ bytes.data.toList.drop 3) :=
      hbytes ▸ ⟨_, h⟩
    obtain ⟨cs, hcs⟩ := (Utf8.isText_encode_append_iff _ _).1 htext
    rw [hcs, ← Utf8.encode_append, h] at hbytes
    rw [encode_inj hbytes] at hhead
    exact hhead rfl
  unfold decode
  rw [if_neg hmark, fromUTF8?_eq_some h]

theorem decode_of_marked {bytes : ByteArray} {text : String}
    (h : bytes.data.toList = Utf8.encode (markChar :: text.toList)) :
    decode bytes = (text, utf8Marked) := by
  have hsplit : bytes.data.toList = mark.data.toList ++ Utf8.encode text.toList := by
    rw [h, toList_mark, ← Utf8.encode_append]
    rfl
  have hmark : (bytes.extract 0 3).data.toList = mark.data.toList := by
    rw [toList_extract_front, hsplit]
    rfl
  have hback : (bytes.extract 3 bytes.size).data.toList = Utf8.encode text.toList := by
    rw [toList_extract_back, hsplit]
    rfl
  unfold decode
  rw [if_pos hmark, fromUTF8?_eq_some hback]

theorem decode_of_not_isText {bytes : ByteArray} (h : ¬Utf8.IsText bytes.data.toList) :
    decode bytes = (decodeLatin1 bytes, latin1) := by
  unfold decode
  split
  · rename_i hmark
    rw [toList_extract_front] at hmark
    -- behind the mark there is no text either
    have hback : ¬Utf8.IsText (bytes.extract 3 bytes.size).data.toList := by
      rw [toList_extract_back, ← Utf8.isText_encode_append_iff [markChar], ← eq_mark_append hmark]
      exact h
    rw [fromUTF8?_eq_none hback]
  · rw [fromUTF8?_eq_none h]

/-- **What bytes are read as.** -/
theorem decode_cases (bytes : ByteArray) :
    (∃ text, decode bytes = (text, utf8) ∧ bytes.data.toList = Utf8.encode text.toList ∧
      text.toList.head? ≠ some markChar) ∨
    (∃ text, decode bytes = (text, utf8Marked) ∧
      bytes.data.toList = Utf8.encode (markChar :: text.toList)) ∨
    (decode bytes = (decodeLatin1 bytes, latin1) ∧ ¬Utf8.IsText bytes.data.toList) := by
  by_cases htext : Utf8.IsText bytes.data.toList
  · obtain ⟨cs, hcs⟩ := htext
    have hlist : ∀ ds : List Char, (String.ofList ds).toList = ds := fun ds => String.toList_ofList
    by_cases hhead : cs.head? = some markChar
    · obtain ⟨rest, rfl⟩ := List.head?_eq_some_iff.1 hhead
      refine .inr (.inl ⟨String.ofList rest, decode_of_marked ?_, ?_⟩)
      · rw [hlist, hcs]
      · rw [hlist, hcs]
    · refine .inl ⟨String.ofList cs, decode_of_utf8 ?_ ?_, ?_, ?_⟩
      · rw [hlist, hcs]
      · rwa [hlist]
      · rw [hlist, hcs]
      · rwa [hlist]
  · exact .inr (.inr ⟨decode_of_not_isText htext, htext⟩)

/-! ## Latin-1 -/

/-- The bytes of characters that are written as one byte each. -/
theorem toList_decodeLatin1 (bytes : ByteArray) :
    (decodeLatin1 bytes).toList = bytes.data.toList.map fun b => Char.ofNat b.toNat :=
  String.toList_ofList

theorem toNat_ofNat_byte (b : UInt8) : (Char.ofNat b.toNat).toNat = b.toNat := by
  have hall : ∀ n < 256, (Char.ofNat n).toNat = n := by decide +kernel
  exact hall b.toNat (UInt8.toNat_lt b)

theorem byteOf_ofNat (b : UInt8) : byteOf (Char.ofNat b.toNat) = b := by
  rw [byteOf, toNat_ofNat_byte, UInt8.ofNat_toNat]

theorem lt_of_mem_decodeLatin1 (bytes : ByteArray) :
    ∀ c ∈ (decodeLatin1 bytes).toList, c.toNat < 256 := by
  rw [toList_decodeLatin1]
  intro c hc
  obtain ⟨b, -, rfl⟩ := List.mem_map.1 hc
  rw [toNat_ofNat_byte]
  exact UInt8.toNat_lt b

theorem map_byteOf_decodeLatin1 (bytes : ByteArray) :
    (decodeLatin1 bytes).toList.map byteOf = bytes.data.toList := by
  rw [toList_decodeLatin1, List.map_map]
  calc bytes.data.toList.map (byteOf ∘ fun b => Char.ofNat b.toNat)
      = bytes.data.toList.map id := List.map_congr_left fun b _ => byteOf_ofNat b
    _ = bytes.data.toList := List.map_id _

theorem ofNat_byteOf {c : Char} (h : c.toNat < 256) : Char.ofNat (byteOf c).toNat = c := by
  have hbyte : (byteOf c).toNat = c.toNat := by
    rw [byteOf, UInt8.toNat_ofNat']
    omega
  rw [hbyte, Char.ofNat_toNat]

theorem decodeLatin1_map_byteOf {text : String} (h : ∀ c ∈ text.toList, c.toNat < 256) :
    decodeLatin1 ⟨(text.toList.map byteOf).toArray⟩ = text := by
  have hmap : (text.toList.map byteOf).map (fun b => Char.ofNat b.toNat) = text.toList := by
    rw [List.map_map]
    calc text.toList.map ((fun b => Char.ofNat b.toNat) ∘ byteOf)
        = text.toList.map id := List.map_congr_left fun c hc => ofNat_byteOf (h c hc)
      _ = text.toList := List.map_id _
  show String.ofList ((text.toList.map byteOf).map fun b => Char.ofNat b.toNat) = text
  rw [hmap, String.ofList_toList]

theorem encode?_latin1 {text : String} (h : ∀ c ∈ text.toList, c.toNat < 256) :
    encode? latin1 text = some ⟨(text.toList.map byteOf).toArray⟩ := by
  have hall : (text.toList.all fun c => decide (c.toNat < 256)) = true := by
    rw [List.all_eq_true]
    intro c hc
    exact decide_eq_true (h c hc)
  simp only [encode?, hall, if_true]
  rfl

/-! ## Writing back -/

theorem toList_mark_append (text : String) :
    (mark ++ text.toUTF8).data.toList = Utf8.encode (markChar :: text.toList) := by
  rw [ByteArray.data_append, Array.toList_append, toList_mark, Utf8.toList_toUTF8,
    ← Utf8.encode_append]
  rfl

/-- **What was read is written back as the same bytes.** -/
theorem encode?_decode (bytes : ByteArray) :
    encode? (decode bytes).2 (decode bytes).1 = some bytes := by
  rcases decode_cases bytes with ⟨text, hdecode, hbytes, -⟩ | ⟨text, hdecode, hbytes⟩ |
    ⟨hdecode, -⟩
  · rw [hdecode]
    exact congrArg some (Utf8.bytes_ext ((Utf8.toList_toUTF8 text).trans hbytes.symm))
  · rw [hdecode]
    exact congrArg some (Utf8.bytes_ext ((toList_mark_append text).trans hbytes.symm))
  · rw [hdecode]
    show encode? latin1 (decodeLatin1 bytes) = some bytes
    rw [encode?_latin1 (lt_of_mem_decodeLatin1 bytes), map_byteOf_decodeLatin1]

/-- **A respaced text is written in the encoding of the old one**, as bytes that are read as the
new text in that encoding. -/
theorem decode_encode?_of_respaced {bytes : ByteArray} {text : String}
    (h : Respaced (decode bytes).1.toList text.toList) :
    ∃ stored, encode? (decode bytes).2 text = some stored ∧
      decode stored = (text, (decode bytes).2) := by
  rcases decode_cases bytes with ⟨old, hdecode, -, hhead⟩ | ⟨old, hdecode, -⟩ |
    ⟨hdecode, hnot⟩
  · rw [hdecode] at h ⊢
    refine ⟨text.toUTF8, rfl, decode_of_utf8 (Utf8.toList_toUTF8 text) fun hnew => ?_⟩
    exact hhead (h.head?_eq (by decide) hnew)
  · rw [hdecode]
    exact ⟨mark ++ text.toUTF8, rfl, decode_of_marked (toList_mark_append text)⟩
  · rw [hdecode] at h ⊢
    have hlt := h.lt (lt_of_mem_decodeLatin1 bytes)
    refine ⟨_, encode?_latin1 hlt, ?_⟩
    have hlatin : ¬Utf8.IsText (text.toList.map byteOf) := by
      intro htext
      apply hnot
      have hold := h.isText [] htext
      rwa [List.nil_append, map_byteOf_decodeLatin1] at hold
    rw [decode_of_not_isText hlatin, decodeLatin1_map_byteOf hlt]

end ManifestLint.Encoding
