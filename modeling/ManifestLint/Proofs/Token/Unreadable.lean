import ManifestLint.Proofs.Token.Readers
import ManifestLint.Proofs.Token.RegexOrSlash

set_option autoImplicit false

/-! # Where no token can be read

A text cannot be read on at a quote that is never closed, and at a character that begins no token;
at every other character a token begins (`scan_eq_error_iff`). So a source is read to its end, or
up to the first such place behind the tokens before it, and it is that place that the error names
(`ofSource_error_iff`). -/

namespace ManifestLint

/-- Why nothing can be read at the character `c` that is followed by `cs`: it is a quote, and each
quote of its sort behind it is escaped, or it is none of the characters that begin a token. -/
inductive Unreadable (c : Char) (cs : List Char) : LexFault → Prop
  | unterminated :
      c = '"' ∨ c = '\'' → AllEscaped (· = c) cs → Unreadable c cs .unterminatedText
  | unexpected :
      c ∉ [' ', '\t', '\r', '\n', '#', '"', '\'', '$', '-'] → Text.isDigit c = false →
      Span.startsName c = false → (∀ entry ∈ operators, entry.1.head? ≠ some c) →
      Unreadable c cs (.unexpected c)

/-! ## Quotes -/

theorem allEscaped_backslash {p : Char → Prop} (h : ¬p '\\') : AllEscaped p ['\\'] := by
  intro front c back hsplit hc
  cases front with
  | nil =>
      obtain ⟨rfl, -⟩ := List.cons.inj hsplit
      exact absurd hc h
  | cons d front => simp at hsplit

/-- A quote is not closed if all quotes behind it are escaped. -/
theorem quotedTail_eq_none_iff {quote : Char} (hquote : quote ≠ '\\') {cs : List Char} :
    Span.quotedTail quote cs = none ↔ AllEscaped (· = quote) cs := by
  fun_induction Span.quotedTail quote cs with
  | case1 => exact iff_of_true rfl (allEscaped_nil _)
  | case2 => exact iff_of_true rfl (allEscaped_backslash hquote.symm)
  | case3 d rest ih =>
      rw [Option.map_eq_none_iff, allEscaped_escape hquote.symm]
      exact ih
  | case4 cs hc =>
      rw [allEscaped_cons hc]
      exact iff_of_false (by simp) fun h => h.1 rfl
  | case5 c cs hc hmark ih =>
      rw [Option.map_eq_none_iff, allEscaped_cons hc, ih]
      exact (and_iff_right hmark).symm

/-! ## Characters that begin no token -/

/-- Each character that begins an operator is one. -/
theorem operatorAt?_eq_none_iff (c : Char) (cs : List Char) :
    operatorAt? (c :: cs) = none ↔ ∀ entry ∈ operators, entry.1.head? ≠ some c := by
  have hsingle : ∀ entry ∈ operators,
      (entry.1.head?.all fun d => operators.any fun single => single.1 == [d]) = true := by decide
  rw [operatorAt?, List.find?_eq_none]
  constructor
  · intro hnone entry hentry hhead
    have hc := hsingle entry hentry
    rw [hhead, Option.all_some, List.any_eq_true] at hc
    obtain ⟨single, hmem, htext⟩ := hc
    apply hnone single hmem
    rw [List.isPrefixOf_iff_prefix, beq_iff_eq.1 htext]
    exact ⟨cs, rfl⟩
  · intro hheads entry hentry hfits
    rw [List.isPrefixOf_iff_prefix] at hfits
    obtain ⟨d, text, hentry'⟩ := List.exists_cons_of_ne_nil (operators_nonempty entry hentry)
    apply hheads entry hentry
    rw [hentry'] at hfits ⊢
    rw [(List.cons_prefix_cons.1 hfits).1]
    rfl

theorem scanWordOrOperator_eq_error_iff {c : Char} {cs : List Char} {fault : LexFault} :
    scanWordOrOperator c cs = .error fault ↔
      (Span.startsName c = false ∧ ∀ entry ∈ operators, entry.1.head? ≠ some c) ∧
        .unexpected c = fault := by
  unfold scanWordOrOperator
  by_cases hcolons : c = ':' ∧ cs.head? = some ':'
  · rw [if_pos hcolons]
    refine iff_of_false (by simp) fun h => ?_
    exact h.1.2 ([':'], .colon) (by decide) (by rw [hcolons.1]; rfl)
  rw [if_neg hcolons]
  by_cases hname : Span.startsName c = true
  · rw [if_pos hname]
    exact iff_of_false (by simp) fun h => by simp [hname] at h
  rw [if_neg hname, ← operatorAt?_eq_none_iff c cs]
  rw [Bool.not_eq_true] at hname
  cases operatorAt? (c :: cs) with
  | none => simp [hname]
  | some entry => simp

/-- A token begins at each mark that is no quote. -/
theorem exists_scan_of_mark {c : Char} (hmark : c ∈ marks) (hquote : ¬(c = '"' ∨ c = '\''))
    (context : Context) (cs : List Char) : ∃ s, scan context c cs = .ok s := by
  simp only [marks, List.mem_cons, List.not_mem_nil, or_false] at hmark
  rcases hmark with rfl | rfl | rfl | rfl | rfl | rfl | rfl | rfl | rfl | rfl
  · exact ⟨_, rfl⟩
  · exact ⟨_, rfl⟩
  · -- a carriage return is a blank or the beginning of a line end
    rw [scan_eq]
    split
    · exact ⟨_, rfl⟩
    · exact ⟨_, rfl⟩
  · exact ⟨_, rfl⟩
  · exact ⟨_, scan_comment context cs⟩
  · exact absurd (.inl rfl) hquote
  · exact absurd (.inr rfl) hquote
  · exact ⟨_, scan_dollar context cs⟩
  · exact ⟨_, scan_minus context cs⟩
  · exact ⟨_, scan_slash context cs⟩

namespace Unreadable

variable {c : Char} {cs : List Char} {fault : LexFault}

/-- At a quote the text cannot be read on exactly if the quote is not closed. -/
theorem iff_of_quote (hquote : c = '"' ∨ c = '\'') :
    Unreadable c cs fault ↔ AllEscaped (· = c) cs ∧ .unterminatedText = fault := by
  constructor
  · intro h
    cases h with
    | unterminated _ hall => exact ⟨hall, rfl⟩
    | unexpected hmark _ _ _ => rcases hquote with rfl | rfl <;> simp at hmark
  · rintro ⟨hall, rfl⟩
    exact .unterminated hquote hall

/-- At any other character it cannot be read on exactly if no token begins with it. -/
theorem iff_of_not_quote (hquote : ¬(c = '"' ∨ c = '\'')) :
    Unreadable c cs fault ↔
      (c ∉ marks ∧ Text.isDigit c = false) ∧
        (Span.startsName c = false ∧ ∀ entry ∈ operators, entry.1.head? ≠ some c) ∧
          .unexpected c = fault := by
  constructor
  · intro h
    cases h with
    | unterminated hyes _ => exact absurd hyes hquote
    | unexpected hmark hdigit hname hop =>
        -- the one mark that is not named is the slash, an operator
        have hslash : c ≠ '/' := by
          rintro rfl
          exact hop (['/'], .slash) (by decide) rfl
        refine ⟨⟨?_, hdigit⟩, ⟨hname, hop⟩, rfl⟩
        simpa [marks, hslash] using hmark
  · rintro ⟨⟨hmark, hdigit⟩, ⟨hname, hop⟩, rfl⟩
    refine .unexpected ?_ hdigit hname hop
    simp only [marks, List.mem_cons, List.not_mem_nil, or_false, not_or] at hmark ⊢
    tauto

end Unreadable

/-- **Where no token begins.** -/
theorem scan_eq_error_iff {context : Context} {c : Char} {cs : List Char} {fault : LexFault} :
    scan context c cs = .error fault ↔ Unreadable c cs fault := by
  by_cases hquote : c = '"' ∨ c = '\''
  · rw [scan_quote hquote, Unreadable.iff_of_quote hquote,
      ← quotedTail_eq_none_iff (ne_backslash_of_quote hquote)]
    cases Span.quotedTail c cs with
    | none => simp
    | some split => simp
  rw [Unreadable.iff_of_not_quote hquote]
  by_cases hmark : c ∈ marks
  · obtain ⟨s, hscan⟩ := exists_scan_of_mark hmark hquote context cs
    rw [hscan]
    exact iff_of_false (by simp) fun h => h.1.1 hmark
  cases hdigit : Text.isDigit c with
  | true =>
      rw [scan_of_isDigit hdigit]
      simp
  | false =>
      rw [scan_of_not_mark hmark hdigit, scanWordOrOperator_eq_error_iff]
      exact (and_iff_right ⟨hmark, rfl⟩).symm

/-! ## Lexings -/

namespace Lexing

/-- A lexing breaks off at the first place behind its lexemes where nothing can be read. -/
theorem ofChars_error_iff {context : Context} {position : Position} {cs : List Char}
    {fault : LexFault} {place : Position} :
    (ofChars context position cs).error = some ⟨fault, place⟩ ↔
      ∃ front c rest, front <+: (ofChars context position cs).lexemes ∧
        cs = Piece.charsOf (front.map Lexeme.piece) ++ c :: rest ∧ Unreadable c rest fault ∧
        place = position.after (Piece.charsOf (front.map Lexeme.piece)) := by
  constructor
  · intro herror
    obtain ⟨front, rest, -, hcs, ⟨-, hclosed⟩ | ⟨hne, fault', hbroken⟩⟩ :=
      ofChars_lossless context position cs
    · rw [hclosed] at herror
      cases herror
    · obtain ⟨c, rest, rfl⟩ := List.exists_cons_of_ne_nil hne
      have hfront : front <+: (ofChars context position cs).lexemes := by
        simp [hbroken]
      refine ⟨front, c, rest, hfront, hcs.symm, ?_, ?_⟩
      · -- behind its lexemes the lexing has no more of them, so that the scan has failed
        have hsplit := ofChars_eq_behind hfront hcs.symm hne
        cases hscan : scan ((front.map Lexeme.piece).foldl Context.afterPiece context) c rest with
        | ok s =>
            rw [hbroken, ofChars_ok hscan] at hsplit
            have hlexemes : front = front ++ _ := congrArg lexemes hsplit
            simp at hlexemes
        | error fault'' =>
            rw [ofChars_error hscan] at hsplit
            rw [hsplit] at herror
            cases herror
            exact scan_eq_error_iff.1 hscan
      · rw [hbroken] at herror
        cases herror
        rfl
  · rintro ⟨front, c, rest, hfront, hcs, hunreadable, rfl⟩
    rw [ofChars_eq_behind hfront hcs (List.cons_ne_nil c rest),
      ofChars_error (scan_eq_error_iff.2 hunreadable)]
    rfl

/-- Without an error a lexing is closed by the one lexeme for the end, and only then. -/
theorem ofSource_closed_iff (source : String) :
    (ofSource source).error = none ↔
      ∃ front position, (ofSource source).lexemes = front ++ [⟨.endOfFile, "", position⟩] := by
  obtain ⟨front, rest, hproper, -, ⟨-, hclosed⟩ | ⟨-, fault, hbroken⟩⟩ :=
    ofChars_lossless .start .start source.toList
  · have hlexing : ofSource source = _ := hclosed
    rw [hlexing]
    exact iff_of_true rfl ⟨front, _, rfl⟩
  · have hlexing : ofSource source = _ := hbroken
    rw [hlexing]
    refine iff_of_false (by simp) ?_
    rintro ⟨others, position, rfl⟩
    exact (hproper _ (List.mem_append_right _ List.mem_cons_self)).kind_ne rfl

/-- **Lexing errors.** A source is read to its end, where its lexemes are closed, or there is an
error. There is one exactly if, behind some of the lexemes, a quote stands that is never closed or
a character with which no token begins; then it is about that quote or character, and names the
line and the column at which it stands. -/
theorem ofSource_error_iff (source : String) :
    ((ofSource source).error = none ↔
        ∃ front position, (ofSource source).lexemes = front ++ [⟨.endOfFile, "", position⟩]) ∧
      (∀ fault position, (ofSource source).error = some ⟨fault, position⟩ ↔
        ∃ front c rest, front <+: (ofSource source).lexemes ∧
          source.toList = Piece.charsOf (front.map Lexeme.piece) ++ c :: rest ∧
          Unreadable c rest fault ∧
          position = Position.endOf (Piece.charsOf (front.map Lexeme.piece))) ∧
      ∀ e ∈ (ofSource source).error,
        e.fault.message = "Unterminated string" ∧ e.fault = .unterminatedText ∨
          ∃ c, e.fault.message = "Unexpected character " ++ Text.quoted (String.singleton c) ∧
            e.fault = .unexpected c := by
  refine ⟨ofSource_closed_iff source, fun fault position => ?_, ?_⟩
  · simp only [← Position.start_after]
    exact ofChars_error_iff
  · rintro ⟨fault, position⟩ -
    cases fault with
    | unterminatedText => exact .inl ⟨rfl, rfl⟩
    | unexpected c => exact .inr ⟨c, rfl, rfl⟩

end Lexing

end ManifestLint
