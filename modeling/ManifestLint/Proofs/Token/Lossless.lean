import ManifestLint.Proofs.Text.Position
import ManifestLint.Proofs.Token.Lexes

set_option autoImplicit false

/-! # Lexing loses nothing

The values of the lexemes, one after another, are the text that was read. A lexing without an
error reads all of it and closes with one empty lexeme; an error stops the lexing, and what was
read before it is the text up to the position of the error (`ofChars_lossless`). -/

namespace ManifestLint

/-- A lexeme that stands for characters of the text; the closing one does not. -/
structure Lexeme.Proper (lexeme : Lexeme) : Prop where
  kind_ne : lexeme.kind ≠ .endOfFile
  value_ne : lexeme.value ≠ ""

namespace Lexing

/-- The values of the lexemes, one after another. -/
def text (lexing : Lexing) : String := String.join (lexing.lexemes.map Lexeme.value)

theorem text_eq (lexing : Lexing) : lexing.text = Piece.text lexing.pieces := by
  rw [text, Piece.text, pieces, List.map_map]
  rfl

theorem toList_text (lexing : Lexing) : lexing.text.toList = Piece.charsOf lexing.pieces := by
  rw [text_eq, Piece.toList_text]

theorem proper_of_scan {context : Context} {c : Char} {cs : List Char} {s : Scanned}
    (h : scan context c cs = .ok s) (position : Position) :
    (Lexeme.mk s.kind (String.ofList s.text) position).Proper where
  kind_ne := (fits_of_scan h).kind_ne_endOfFile
  value_ne := by
    intro hempty
    have htext : s.text = "".toList := by rw [← hempty, String.toList_ofList]
    exact scan_ne_nil h htext

/-- **Nothing of a text is lost.** It is what the lexemes say and a rest. If nothing is left over
the lexing is closed by one empty lexeme at the end; otherwise there is an error, and it is placed
where the rest begins. -/
theorem ofChars_lossless (context : Context) (position : Position) (cs : List Char) :
    ∃ front rest, (∀ lexeme ∈ front, lexeme.Proper) ∧
      Piece.charsOf (front.map Lexeme.piece) ++ rest = cs ∧
      ((rest = [] ∧ ofChars context position cs =
          ⟨front ++ [⟨.endOfFile, "", position.after cs⟩], none⟩) ∨
        (rest ≠ [] ∧ ∃ fault, ofChars context position cs =
          ⟨front, some ⟨fault,
            position.after (Piece.charsOf (front.map Lexeme.piece))⟩⟩)) := by
  induction context, position, cs using ofChars.induct with
  | case1 context position =>
      refine ⟨[], [], by simp, rfl, .inl ⟨rfl, ?_⟩⟩
      exact ofChars_nil context position
  | case2 context position c cs fault hscan =>
      refine ⟨[], c :: cs, by simp, rfl, .inr ⟨List.cons_ne_nil c cs, fault, ?_⟩⟩
      exact ofChars_error hscan
  | case3 context position c cs s hscan _ ih =>
      obtain ⟨front, rest, hproper, hrest, hlexing⟩ := ih
      have happend := scan_append hscan
      -- the scanned lexeme goes in front of those of the rest
      have hchars : Piece.charsOf ((⟨s.kind, String.ofList s.text, position⟩ :: front).map
          Lexeme.piece) = s.text ++ Piece.charsOf (front.map Lexeme.piece) := by
        rw [List.map_cons, Piece.charsOf_cons]
        congr 1
        exact String.toList_ofList
      refine ⟨⟨s.kind, String.ofList s.text, position⟩ :: front, rest,
        List.forall_mem_cons.2 ⟨proper_of_scan hscan position, hproper⟩, ?_, ?_⟩
      · rw [hchars, List.append_assoc, hrest, happend]
      · rw [ofChars_ok hscan, hchars, Position.after_append, ← happend, Position.after_append]
        rcases hlexing with ⟨hnil, hclosed⟩ | ⟨hne, fault, hbroken⟩
        · refine .inl ⟨hnil, ?_⟩
          rw [hclosed]
          rfl
        · refine .inr ⟨hne, fault, ?_⟩
          rw [hbroken]
          rfl

end Lexing

end ManifestLint
