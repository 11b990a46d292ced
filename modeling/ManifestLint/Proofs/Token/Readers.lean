import ManifestLint.Proofs.Text.Letter
import ManifestLint.Proofs.Token.Lexes

set_option autoImplicit false

/-! # The reader that is called

The first character of a text decides which reader `scan` calls for it. The characters that decide
that alone are the *marks*; all others are a digit, the first character of a name, or the first
character of an operator, and no character is a digit and the first character of a name. -/

namespace ManifestLint

/-- The characters that decide alone which reader is called. -/
def marks : List Char := [' ', '\t', '\r', '\n', '#', '"', '\'', '$', '-', '/']

theorem scan_of_not_mark {c : Char} (hmark : c ∉ marks) (hdigit : Text.isDigit c = false)
    (context : Context) (cs : List Char) : scan context c cs = scanWordOrOperator c cs := by
  simp only [marks, List.mem_cons, List.not_mem_nil, or_false, not_or] at hmark
  obtain ⟨hspace, htab, hreturn, hline, hcomment, hdouble, hsingle, hdollar, hminus, hslash⟩ :=
    hmark
  have hseparator : isSeparator c = false := by
    simp [isSeparator, hspace, htab, hreturn, hline]
  rw [scan_of_not_separator hseparator, scanCode, if_neg hcomment,
    if_neg (not_or.2 ⟨hdouble, hsingle⟩), if_neg hdollar, if_neg hminus,
    if_neg (by simp [hdigit]), if_neg hslash]

theorem not_mark_of_startsName {c : Char} (h : Span.startsName c = true) : c ∉ marks := by
  have hmarks : (marks.all fun d => !Span.startsName d) = true := by decide +kernel
  intro hmem
  have hc := List.all_eq_true.1 hmarks c hmem
  rw [h] at hc
  cases hc

theorem not_isDigit_of_startsName {c : Char} (h : Span.startsName c = true) :
    Text.isDigit c = false := by
  by_contra hdigit
  rw [Bool.not_eq_false] at hdigit
  rw [Span.startsName, Text.not_isLetter_of_isDigit hdigit, Bool.or_false, beq_iff_eq] at h
  rw [h] at hdigit
  cases hdigit

theorem scan_of_startsName {c : Char} (h : Span.startsName c = true) (context : Context)
    (cs : List Char) : scan context c cs = .ok (scanWord c cs) := by
  have hcolon : c ≠ ':' := by
    rintro rfl
    exact absurd h (by decide +kernel)
  rw [scan_of_not_mark (not_mark_of_startsName h) (not_isDigit_of_startsName h), scanWordOrOperator,
    if_neg (fun hcolons => hcolon hcolons.1), if_pos h]

theorem scan_of_isDigit {c : Char} (h : Text.isDigit c = true) (context : Context)
    (cs : List Char) :
    scan context c cs = .ok (.ofSplit .number [] (Span.number (c :: cs))) := by
  have hmark : ∀ d ∈ marks, c ≠ d := by
    have hmarks : (marks.all fun d => !Text.isDigit d) = true := by decide +kernel
    rintro d hd rfl
    have hc := List.all_eq_true.1 hmarks c hd
    rw [h] at hc
    cases hc
  rw [scan_of_not_separator (isSeparator_of_isDigit h), scanCode, if_neg (hmark '#' (by decide)),
    if_neg (not_or.2 ⟨hmark '"' (by decide), hmark '\'' (by decide)⟩),
    if_neg (hmark '$' (by decide)), if_neg (hmark '-' (by decide)), if_pos h]

theorem scan_colons (context : Context) (cs : List Char) :
    scan context ':' (':' :: cs) = .ok (.ofSplit .identifier [':', ':'] (Span.name cs)) := by
  rw [scan_of_not_mark (by decide) (by decide +kernel), scanWordOrOperator, if_pos ⟨rfl, rfl⟩]
  rfl

theorem ne_backslash_of_quote {quote : Char} (h : quote = '"' ∨ quote = '\'') :
    quote ≠ '\\' := by
  rcases h with rfl | rfl
  · decide
  · decide

theorem scan_quote {quote : Char} (h : quote = '"' ∨ quote = '\'') (context : Context)
    (cs : List Char) :
    scan context quote cs = match Span.quotedTail quote cs with
      | some split => .ok (.ofSplit .quotedText [quote] split)
      | none => .error .unterminatedText := by
  rcases h with rfl | rfl
  · rfl
  · rfl

theorem scan_comment (context : Context) (cs : List Char) :
    scan context '#' cs = .ok (.ofSplit .comment [] (Span.comment ('#' :: cs))) := rfl

theorem scan_dollar (context : Context) (cs : List Char) :
    scan context '$' cs = .ok (.ofSplit .variableName ['$'] (Span.name cs)) := rfl

theorem scan_minus (context : Context) (cs : List Char) :
    scan context '-' cs = .ok (scanMinus cs) := rfl

end ManifestLint
