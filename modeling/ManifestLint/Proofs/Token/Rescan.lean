import ManifestLint.Proofs.Token.Stable

set_option autoImplicit false

/-! # Scanning a token again

What is scanned at the front of a text is scanned there again when the text after it is replaced
by one that agrees with it. There are two exceptions. A comment goes on to the end of its line,
so that the new text has to begin in the same way. And a slash that opened no regular expression
may open one in the new text, as that is decided by the rest of the line. -/

namespace ManifestLint

/-- The token at the front of a text that does not begin with spacing, or why there is none. -/
def scanCode (context : Context) (c : Char) (cs : List Char) : Except LexFault Scanned :=
  if c = '#' then .ok (.ofSplit .comment [] (Span.comment (c :: cs)))
  else if c = '"' ∨ c = '\'' then
    match Span.quotedTail c cs with
    | some split => .ok (.ofSplit .quotedText [c] split)
    | none => .error .unterminatedText
  else if c = '$' then .ok (.ofSplit .variableName [c] (Span.name cs))
  else if c = '-' then .ok (scanMinus cs)
  else if Text.isDigit c then .ok (.ofSplit .number [] (Span.number (c :: cs)))
  else if c = '/' then
    match scanRegex? context cs with
    | some scanned => .ok scanned
    | none => scanWordOrOperator c cs
  else scanWordOrOperator c cs

/-- A token is blanks, a line end, or something else. -/
theorem scan_eq (context : Context) (c : Char) (cs : List Char) :
    scan context c cs =
      if Span.startsBlank c cs then
        .ok (.ofSplit (if context.atLineStart then .indent else .whitespace) []
          (Span.blanks (c :: cs)))
      else if c = '\n' then .ok ⟨.newline, [c], cs⟩
      else if c = '\r' then .ok ⟨.newline, c :: cs.take 1, cs.drop 1⟩
      else scanCode context c cs := rfl

/-! ## Kinds -/

/-- Decides whether a kind is neither spacing nor the end of a source. -/
def Kind.isCode (kind : Kind) : Bool := !kind.isSpace && kind != .endOfFile

theorem Kind.isSpace_of_isCode {kind : Kind} (h : kind.isCode = true) : kind.isSpace = false := by
  cases kind <;> first
    | rfl
    | cases h

theorem Kind.ne_endOfFile_of_isCode {kind : Kind} (h : kind.isCode = true) :
    kind ≠ .endOfFile := by
  rintro rfl
  cases h

theorem isCode_operators : ∀ entry ∈ operators, entry.2.isCode = true := by decide

theorem isCode_wordKind (text : List Char) : (wordKind text).isCode = true := by
  unfold wordKind
  split
  · rfl
  · split
    · rfl
    · split <;> rfl

theorem isCode_scanWordOrOperator {c : Char} {cs : List Char} {s : Scanned}
    (h : scanWordOrOperator c cs = .ok s) : s.kind.isCode = true := by
  unfold scanWordOrOperator at h
  split at h
  · cases h
    rfl
  split at h
  · cases h
    exact isCode_wordKind _
  split at h
  · rename_i hop
    cases h
    exact isCode_operators _ (List.mem_of_find?_eq_some hop)
  · cases h

theorem isCode_scanMinus (cs : List Char) : (scanMinus cs).kind.isCode = true := by
  unfold scanMinus
  split
  · rfl
  · split
    · rfl
    · split
      · rfl
      · rfl

theorem kind_scanRegex? {context : Context} {cs : List Char} {s : Scanned}
    (h : scanRegex? context cs = some s) : s.kind = .regex := by
  unfold scanRegex? at h
  split at h
  · obtain ⟨split, -, rfl⟩ := Option.map_eq_some_iff.1 h
    rfl
  · cases h

theorem isCode_scanCode {context : Context} {c : Char} {cs : List Char} {s : Scanned}
    (h : scanCode context c cs = .ok s) : s.kind.isCode = true := by
  unfold scanCode at h
  split at h
  · cases h
    rfl
  split at h
  · split at h
    · cases h
      rfl
    · cases h
  split at h
  · cases h
    rfl
  split at h
  · cases h
    exact isCode_scanMinus cs
  split at h
  · cases h
    rfl
  split at h
  · split at h
    · rename_i hs
      cases h
      rw [kind_scanRegex? hs]
      rfl
    · exact isCode_scanWordOrOperator h
  · exact isCode_scanWordOrOperator h

/-! ## Stability -/

theorem scanMinus_of_stop {rest : List Char}
    (h : ∀ d ∈ rest.head?, Text.isDigit d = false ∧ d ≠ '>') :
    scanMinus rest = ⟨.minus, ['-'], rest⟩ := by
  cases rest with
  | nil => rfl
  | cons d others =>
      obtain ⟨hdigit, hne⟩ := h d rfl
      unfold scanMinus
      simp only
      rw [if_neg (by simp [hdigit]), if_neg hne]

theorem scanMinus_stable {cs text rest' : List Char}
    (htext : (scanMinus cs).text = '-' :: text) (h : Agrees (scanMinus cs).rest rest') :
    scanMinus (text ++ rest') = ⟨(scanMinus cs).kind, '-' :: text, rest'⟩ := by
  -- a minus sign alone: no digit and no angle has come behind it
  have hstop : ∀ rest : List Char, Agrees rest rest' →
      (∀ d ∈ rest.head?, Text.isDigit d = false ∧ d ≠ '>') →
      scanMinus rest' = ⟨.minus, ['-'], rest'⟩ := by
    intro rest hagrees hrest
    refine scanMinus_of_stop fun d hd => ⟨?_, ?_⟩
    · by_contra hdigit
      rw [Bool.not_eq_false] at hdigit
      have hhead := hagrees.head?_eq (isSeparator_of_isDigit hdigit) hd
      rw [(hrest d hhead).1] at hdigit
      cases hdigit
    · rintro rfl
      exact (hrest '>' (hagrees.head?_eq rfl hd)).2 rfl
  cases cs with
  | nil =>
      obtain rfl : text = [] := by simpa [scanMinus] using htext.symm
      exact hstop [] h (by simp)
  | cons d others =>
      unfold scanMinus at htext h ⊢
      simp only at htext h ⊢
      by_cases hdigit : Text.isDigit d = true
      · rw [if_pos hdigit] at htext h ⊢
        obtain rfl : (Span.number (d :: others)).1 = text := by
          simpa [Scanned.ofSplit] using htext
        -- a negative number: its digits are read again
        have hnumber := Span.number_stable h
        have happend := Span.number_append (d :: others)
        cases hfirst : (Span.number (d :: others)).1 with
        | nil => exact absurd hfirst (number_ne_nil hdigit)
        | cons e digits =>
            rw [hfirst] at hnumber happend
            obtain rfl : e = d := (List.cons.inj happend).1
            rw [List.cons_append] at hnumber ⊢
            simp only
            rw [if_pos hdigit, hnumber]
            rfl
      · rw [if_neg hdigit] at htext h ⊢
        by_cases harrow : d = '>'
        · subst harrow
          rw [if_pos rfl] at htext h ⊢
          obtain rfl : text = ['>'] := by simpa using htext.symm
          rfl
        · rw [if_neg harrow] at htext h ⊢
          obtain rfl : text = [] := by simpa using htext.symm
          refine hstop (d :: others) h ?_
          rintro e ⟨⟩
          exact ⟨by simpa using hdigit, harrow⟩

theorem scanWordOrOperator_stable {c : Char} {cs text rest' : List Char} {s : Scanned}
    (h : scanWordOrOperator c cs = .ok s) (htext : s.text = c :: text)
    (hagrees : Agrees s.rest rest') :
    scanWordOrOperator c (text ++ rest') = .ok ⟨s.kind, s.text, rest'⟩ := by
  have happend := scanWordOrOperator_append h
  unfold scanWordOrOperator at h
  split at h
  · -- a name that begins with a double colon
    rename_i hcolons
    obtain ⟨rfl, hhead⟩ := hcolons
    obtain ⟨others, rfl⟩ := List.head?_eq_some_iff.1 hhead
    cases h
    have htext' : text = ':' :: (Span.name others).1 := by
      simpa [Scanned.ofSplit] using htext.symm
    subst htext'
    have hname := Span.name_stable hagrees
    unfold scanWordOrOperator
    rw [if_pos ⟨rfl, rfl⟩]
    simp only [List.cons_append, List.take_succ_cons, List.take_zero, List.drop_succ_cons,
      List.drop_zero, Scanned.ofSplit] at hname ⊢
    rw [hname]
  · rename_i hcolons
    rw [htext, List.cons_append, List.cons.injEq, and_iff_right rfl] at happend
    have hcolons' : ¬(c = ':' ∧ (text ++ rest').head? = some ':') := by
      rintro ⟨rfl, hhead⟩
      apply hcolons
      refine ⟨rfl, ?_⟩
      rw [← happend]
      cases text with
      | nil => exact hagrees.head?_eq rfl hhead
      | cons d others => exact hhead
    unfold scanWordOrOperator
    rw [if_neg hcolons']
    split at h
    · -- a word
      rename_i hstart
      cases h
      have hname := Span.name_stable hagrees
      have hfirst : (Span.name (c :: cs)).1 = c :: text := htext
      rw [if_pos hstart, scanWord]
      rw [show (scanWord c cs).text = c :: text from hfirst, scanWord]
      rw [hfirst, List.cons_append] at hname
      rw [hname, hfirst]
    · rename_i hstart
      rw [if_neg hstart]
      split at h
      · -- an operator
        rename_i op kind hop
        cases h
        have htext' : op = c :: text := htext
        subst htext'
        have hcs : c :: cs = (c :: text) ++ (c :: cs).drop (c :: text).length := by
          rw [List.cons_append]
          exact congrArg (List.cons c) happend.symm
        rw [← List.cons_append, operatorAt?_stable hop hcs hagrees]
        simp
      · cases h

theorem slash_operators :
    ∀ entry ∈ operators, ['/'] <+: entry.1 → entry = (['/'], .slash) := by decide

/-- What begins with a slash and is no regular expression is a slash. -/
theorem scanned_of_slash {cs : List Char} {s : Scanned} (h : scanWordOrOperator '/' cs = .ok s) :
    s.kind = .slash ∧ s.text = ['/'] := by
  unfold scanWordOrOperator at h
  rw [if_neg (by simp), if_neg (by decide +kernel)] at h
  split at h
  · rename_i text kind hop
    cases h
    obtain ⟨d, others, rfl⟩ := List.exists_cons_of_ne_nil (operatorAt?_ne_nil hop)
    obtain ⟨rest, hrest⟩ := operatorAt?_isPrefix hop
    obtain rfl : d = '/' := (List.cons.inj hrest).1
    have hentry := slash_operators _ (List.mem_of_find?_eq_some hop) ⟨others, rfl⟩
    exact ⟨congrArg Prod.snd hentry, congrArg Prod.fst hentry⟩
  · cases h

/-- A slash is read as a regular expression if it opens one. -/
theorem scanCode_slash_of_some {context : Context} {cs : List Char} {regex : Scanned}
    (h : scanRegex? context cs = some regex) : scanCode context '/' cs = .ok regex := by
  unfold scanCode
  rw [if_neg (by decide), if_neg (by decide), if_neg (by decide), if_neg (by decide),
    if_neg (by decide +kernel), if_pos rfl, h]

/-- A slash is read as a word or an operator if it opens no regular expression. -/
theorem scanCode_slash_of_none {context : Context} {cs : List Char}
    (h : scanRegex? context cs = none) : scanCode context '/' cs = scanWordOrOperator '/' cs := by
  unfold scanCode
  rw [if_neg (by decide), if_neg (by decide), if_neg (by decide), if_neg (by decide),
    if_neg (by decide +kernel), if_pos rfl, h]

/-- **A token that is no spacing** is scanned again before a text that agrees with the one after
it, or it is a slash and a regular expression is scanned in its place. -/
theorem scanCode_stable {context context' : Context} {c : Char} {cs text rest' : List Char}
    {s : Scanned} (h : scanCode context c cs = .ok s) (htext : s.text = c :: text)
    (hcontext : context'.regexAllowed = context.regexAllowed) (hagrees : Agrees s.rest rest')
    (hcomment : s.kind = .comment → rest'.head? = s.rest.head?) :
    scanCode context' c (text ++ rest') = .ok ⟨s.kind, s.text, rest'⟩ ∨
      (s.kind = .slash ∧ s.text = ['/']) ∧
        ∃ regex, scanCode context' c (text ++ rest') = .ok regex ∧ regex.kind = .regex := by
  unfold scanCode at h ⊢
  split at h
  · -- a comment
    rename_i hc
    cases h
    have hread := Span.comment_stable (hcomment rfl)
    rw [show (Span.comment (c :: cs)).1 = c :: text from htext] at hread
    rw [if_pos hc, ← List.cons_append, hread, htext]
    exact Or.inl rfl
  rename_i hc
  rw [if_neg hc]
  split at h
  · -- a quoted text
    rename_i hquote
    split at h
    · rename_i split hsplit
      cases h
      obtain rfl : split.1 = text := by simpa [Scanned.ofSplit] using htext
      rw [if_pos hquote, Span.quotedTail_stable hsplit]
      exact Or.inl rfl
    · cases h
  rename_i hquote
  rw [if_neg hquote]
  split at h
  · -- a variable
    rename_i hdollar
    cases h
    obtain rfl : (Span.name cs).1 = text := by simpa [Scanned.ofSplit] using htext
    rw [if_pos hdollar, Span.name_stable hagrees]
    exact Or.inl rfl
  rename_i hdollar
  rw [if_neg hdollar]
  split at h
  · -- a minus sign, or what begins with one
    rename_i hminus
    cases h
    subst hminus
    rw [if_pos rfl, scanMinus_stable htext hagrees, htext]
    exact Or.inl rfl
  rename_i hminus
  rw [if_neg hminus]
  split at h
  · -- a number
    rename_i hdigit
    cases h
    have hread := Span.number_stable hagrees
    rw [show (Span.number (c :: cs)).1 = c :: text from htext] at hread
    rw [if_pos hdigit, ← List.cons_append, hread, htext]
    exact Or.inl rfl
  rename_i hdigit
  rw [if_neg hdigit]
  split at h
  · rename_i hslash
    subst hslash
    rw [if_pos rfl]
    split at h
    · -- a regular expression is closed on its line, and stays one
      rename_i scanned hscanned
      cases h
      unfold scanRegex? at hscanned ⊢
      rw [hcontext]
      split at hscanned
      · rename_i hallowed
        obtain ⟨split, hsplit, rfl⟩ := Option.map_eq_some_iff.1 hscanned
        obtain rfl : split.1 = text := by simpa [Scanned.ofSplit] using htext
        rw [if_pos hallowed, Span.regexTail_stable hsplit]
        exact Or.inl rfl
      · cases hscanned
    · -- a bare slash stays one unless the new text closes a regular expression
      cases hregex : scanRegex? context' (text ++ rest') with
      | none => exact Or.inl (scanWordOrOperator_stable h htext hagrees)
      | some regex => exact Or.inr ⟨scanned_of_slash h, regex, rfl, kind_scanRegex? hregex⟩
  · rename_i hslash
    rw [if_neg hslash]
    exact Or.inl (scanWordOrOperator_stable h htext hagrees)

end ManifestLint
