import ManifestLint.Proofs.Token.RegexOrSlash

set_option autoImplicit false

/-! # The shapes of tokens

The lexical grammar: what the text of a token of each kind looks like, said without the readers
that find where a token ends. The readers of quoted texts, of regular expressions, of names and of
numbers read texts of these classes only, and so does `scan` as a whole (`hasShape_of_scan`). -/

namespace ManifestLint

/-! ## Classes of texts -/

/-- The text between two marks `close`: a backslash together with any character, or a character
that is neither a backslash nor the mark, over and over. -/
inductive Body (close : Char) : List Char → Prop
  | nil : Body close []
  | escape (c : Char) {body : List Char} : Body close body → Body close ('\\' :: c :: body)
  | plain {c : Char} {body : List Char} :
      c ≠ '\\' → c ≠ close → Body close body → Body close (c :: body)

/-- A name that may be empty: characters that continue a name, and double colons that each come
directly before a character that starts one. -/
inductive IsName : List Char → Prop
  | nil : IsName []
  | char {c : Char} {text : List Char} :
      Span.continuesName c = true → IsName text → IsName (c :: text)
  | part {c : Char} {text : List Char} :
      Span.startsName c = true → IsName (c :: text) → IsName (':' :: ':' :: c :: text)

/-- One or more digits. -/
def IsDigits (text : List Char) : Prop := text ≠ [] ∧ ∀ c ∈ text, Text.isDigit c = true

/-- Digits, and a dot with more digits after them or not. -/
inductive IsNumber : List Char → Prop
  | whole {digits : List Char} : IsDigits digits → IsNumber digits
  | fraction {whole digits : List Char} :
      IsDigits whole → IsDigits digits → IsNumber (whole ++ '.' :: digits)

/-- The keywords with their kinds. -/
def keywords : List (List Char × Kind) :=
  [(['c', 'l', 'a', 's', 's'], .classWord), (['d', 'e', 'f', 'i', 'n', 'e'], .defineWord),
    (['i', 'n', 'h', 'e', 'r', 'i', 't', 's'], .inheritsWord)]

/-- The operators with their kinds, those that begin with a minus sign included. -/
def operatorTexts : List (List Char × Kind) :=
  (['-', '>'], .inEdge) :: (['-'], .minus) :: operators

/-- The texts of the tokens of each kind. -/
inductive HasShape : Kind → List Char → Prop
  | blanks {kind : Kind} {text : List Char} :
      kind.isBlanks = true → text ≠ [] → (∀ c ∈ text, c = ' ' ∨ c = '\t' ∨ c = '\r') →
      HasShape kind text
  | lineFeed : HasShape .newline ['\n']
  | returnLineFeed : HasShape .newline ['\r', '\n']
  | comment {text : List Char} : OneLine text → HasShape .comment ('#' :: text)
  | quoted {quote : Char} {body : List Char} :
      quote = '"' ∨ quote = '\'' → Body quote body →
      HasShape .quotedText (quote :: (body ++ [quote]))
  | number {text : List Char} : IsNumber text → HasShape .number text
  | negative {text : List Char} : IsNumber text → HasShape .number ('-' :: text)
  | variableName {name : List Char} : IsName name → HasShape .variableName ('$' :: name)
  | keyword {kind : Kind} {text : List Char} : (text, kind) ∈ keywords → HasShape kind text
  | word {c : Char} {text : List Char} :
      Span.startsName c = true → IsName (c :: text) → c :: text ∉ keywords.map Prod.fst →
      HasShape .identifier (c :: text)
  | topScope {name : List Char} : IsName name → HasShape .identifier (':' :: ':' :: name)
  | regex {body : List Char} : Body '/' body → HasShape .regex ('/' :: (body ++ ['/']))
  | operator {kind : Kind} {text : List Char} :
      (text, kind) ∈ operatorTexts → HasShape kind text
  | endOfFile : HasShape .endOfFile []

/-! ## Bodies -/

variable {close : Char}

/-- **What a body is** in terms of escapes: the mark after it is not escaped, and every mark in it
is. -/
theorem body_iff (hclose : close ≠ '\\') {body : List Char} :
    Body close body ↔ escapesNext body = false ∧ AllEscaped (· = close) body := by
  constructor
  · intro h
    induction h with
    | nil => exact ⟨rfl, allEscaped_nil _⟩
    | escape c _ ih =>
        rw [escapesNext_escape, allEscaped_escape hclose.symm]
        exact ih
    | plain hc hmark _ ih =>
        rw [escapesNext_cons hc, allEscaped_cons hc]
        exact ⟨ih.1, hmark, ih.2⟩
  · rintro ⟨hescapes, hmarks⟩
    -- one or two characters at a time, as an escape takes the next one along
    induction hlength : body.length using Nat.strong_induction_on generalizing body with
    | _ n ih =>
        cases body with
        | nil => exact .nil
        | cons c rest =>
            by_cases hc : c = '\\'
            · subst hc
              cases rest with
              | nil => cases hescapes
              | cons d rest =>
                  rw [escapesNext_escape] at hescapes
                  rw [allEscaped_escape hclose.symm] at hmarks
                  have hshort : rest.length < n := by
                    rw [← hlength, List.length_cons, List.length_cons]
                    omega
                  exact .escape d (ih rest.length hshort hescapes hmarks rfl)
            · rw [escapesNext_cons hc] at hescapes
              rw [allEscaped_cons hc] at hmarks
              exact .plain hc hmarks.1
                (ih rest.length (by simp [← hlength]) hescapes hmarks.2 rfl)

/-- A quoted text is read up to the first mark that is not escaped. -/
theorem body_of_quotedTail {cs : List Char} {split : List Char × List Char}
    (h : Span.quotedTail close cs = some split) :
    ∃ body, Body close body ∧ split.1 = body ++ [close] := by
  fun_induction Span.quotedTail close cs generalizing split with
  | case1 => cases h
  | case2 => cases h
  | case3 d rest ih =>
      obtain ⟨inner, hinner, rfl⟩ := Option.map_eq_some_iff.1 h
      obtain ⟨body, hbody, hsplit⟩ := ih hinner
      exact ⟨'\\' :: d :: body, hbody.escape d, congrArg (fun text => '\\' :: d :: text) hsplit⟩
  | case4 =>
      cases h
      exact ⟨[], .nil, rfl⟩
  | case5 c cs hc hmark ih =>
      obtain ⟨inner, hinner, rfl⟩ := Option.map_eq_some_iff.1 h
      obtain ⟨body, hbody, hsplit⟩ := ih hinner
      exact ⟨c :: body, hbody.plain hc hmark, congrArg (List.cons c) hsplit⟩

theorem Body.quotedTail {body : List Char} (h : Body close body) (hclose : close ≠ '\\')
    (rest : List Char) :
    Span.quotedTail close (body ++ close :: rest) = some (body ++ [close], rest) := by
  induction h with
  | nil =>
      rw [List.nil_append, Span.quotedTail.eq_def]
      exact (if_neg hclose).trans (if_pos rfl)
  | escape c _ ih =>
      rw [List.cons_append, List.cons_append, Span.quotedTail, ih]
      rfl
  | plain hc hmark _ ih =>
      rw [List.cons_append, Span.quotedTail.eq_def]
      refine (if_neg hc).trans ((if_neg hmark).trans ?_)
      rw [ih]
      rfl

/-! ## Names and numbers -/

theorem isName_name (cs : List Char) : IsName (Span.name cs).1 := by
  fun_induction Span.name cs with
  | case1 => exact .nil
  | case2 c cs hc ih => exact .char hc ih
  | case3 c hc hpart => exact .nil
  | case4 c hc d rest hpart ih =>
      obtain ⟨e, tail, heq, he⟩ := Span.startsPart_iff.1 hpart
      obtain ⟨rfl, rfl, rfl⟩ : c = ':' ∧ d = ':' ∧ rest = e :: tail := by simpa using heq
      rw [Span.name_cons (continuesName_of_startsName he)] at ih ⊢
      exact .part he ih
  | case5 => exact .nil

theorem isDigits_run {c : Char} (hc : Text.isDigit c = true) (cs : List Char) :
    IsDigits (Span.run Text.isDigit (c :: cs)).1 :=
  ⟨run_ne_nil cs hc, fun _ hd => List.mem_takeWhile_imp hd⟩

theorem isNumber_number {c : Char} (hc : Text.isDigit c = true) (cs : List Char) :
    IsNumber (Span.number (c :: cs)).1 := by
  have hwhole := isDigits_run hc cs
  by_cases hfraction : Span.startsFraction (Span.run Text.isDigit (c :: cs)).2 = true
  · rw [Span.number_of_startsFraction hfraction]
    refine .fraction hwhole ?_
    match hrest : (Span.run Text.isDigit (c :: cs)).2, hfraction with
    | dot :: d :: others, hfraction =>
        have hd : dot = '.' ∧ Text.isDigit d = true := by
          simpa [Span.startsFraction] using hfraction
        exact isDigits_run hd.2 others
  · rw [Span.number_of_not_startsFraction (by simpa using hfraction)]
    exact .whole hwhole

theorem mem_blanks {cs : List Char} :
    ∀ c ∈ (Span.blanks cs).1, c = ' ' ∨ c = '\t' ∨ c = '\r' := by
  fun_induction Span.blanks cs with
  | case1 => simp
  | case2 c cs hc ih =>
      rw [List.forall_mem_cons]
      refine ⟨?_, ih⟩
      simp only [Span.startsBlank, Bool.or_eq_true, beq_iff_eq, Bool.and_eq_true] at hc
      rcases hc with (hspace | htab) | ⟨hreturn, -⟩
      · exact .inl hspace
      · exact .inr (.inl htab)
      · exact .inr (.inr hreturn)
  | case3 => simp

/-! ## What is scanned -/

theorem hasShape_wordKind {c : Char} (hc : Span.startsName c = true) {text : List Char}
    (h : IsName (c :: text)) : HasShape (wordKind (c :: text)) (c :: text) := by
  unfold wordKind
  by_cases hclass : c :: text = ['c', 'l', 'a', 's', 's']
  · rw [if_pos hclass, hclass]
    exact .keyword (by decide)
  rw [if_neg hclass]
  by_cases hdefine : c :: text = ['d', 'e', 'f', 'i', 'n', 'e']
  · rw [if_pos hdefine, hdefine]
    exact .keyword (by decide)
  rw [if_neg hdefine]
  by_cases hinherits : c :: text = ['i', 'n', 'h', 'e', 'r', 'i', 't', 's']
  · rw [if_pos hinherits, hinherits]
    exact .keyword (by decide)
  rw [if_neg hinherits]
  refine .word hc h ?_
  simp only [keywords, List.map_cons, List.map_nil, List.mem_cons, List.not_mem_nil, or_false,
    not_or]
  exact ⟨hclass, hdefine, hinherits⟩

theorem hasShape_scanMinus (cs : List Char) :
    HasShape (scanMinus cs).kind (scanMinus cs).text := by
  unfold scanMinus
  split
  · exact .operator (by decide)
  · rename_i d rest
    split
    · rename_i hd
      exact .negative (isNumber_number hd rest)
    · split
      · rename_i hangle
        subst hangle
        exact .operator List.mem_cons_self
      · exact .operator (List.mem_cons_of_mem _ List.mem_cons_self)

theorem hasShape_scanWordOrOperator {c : Char} {cs : List Char} {s : Scanned}
    (h : scanWordOrOperator c cs = .ok s) : HasShape s.kind s.text := by
  unfold scanWordOrOperator at h
  split at h
  · rename_i hcolons
    obtain ⟨rfl, hhead⟩ := hcolons
    obtain ⟨others, rfl⟩ := List.head?_eq_some_iff.1 hhead
    cases h
    exact .topScope (isName_name others)
  split at h
  · rename_i hstart
    cases h
    have hname := isName_name (c :: cs)
    rw [Span.name_cons (continuesName_of_startsName hstart)] at hname
    have hshape := hasShape_wordKind hstart hname
    unfold scanWord
    rw [Span.name_cons (continuesName_of_startsName hstart)]
    exact hshape
  split at h
  · rename_i text kind hop
    cases h
    have hmem : (text, kind) ∈ operators := List.mem_of_find?_eq_some hop
    exact .operator (List.mem_cons_of_mem _ (List.mem_cons_of_mem _ hmem))
  · cases h

theorem hasShape_scanRegex? {context : Context} {cs : List Char} {s : Scanned}
    (h : scanRegex? context cs = some s) : HasShape s.kind s.text := by
  unfold scanRegex? at h
  split at h
  · obtain ⟨split, hsplit, rfl⟩ := Option.map_eq_some_iff.1 h
    obtain ⟨body, hbody, hclosed, -⟩ := regexTail_eq_some_iff.1 hsplit
    have hshape : HasShape .regex ('/' :: (body ++ ['/'])) :=
      .regex ((body_iff (by decide)).2 ⟨hclosed.closing, hclosed.first⟩)
    rw [← hbody] at hshape
    exact hshape
  · cases h

theorem hasShape_scanCode {context : Context} {c : Char} {cs : List Char} {s : Scanned}
    (h : scanCode context c cs = .ok s) : HasShape s.kind s.text := by
  unfold scanCode at h
  split at h
  · rename_i hc
    cases h
    subst hc
    refine .comment fun d hd hline => ?_
    have hfree : (d != '\n' && d != '\r') = true :=
      List.mem_takeWhile_imp (p := fun d => d != '\n' && d != '\r') hd
    rcases hline with rfl | rfl
    · cases hfree
    · cases hfree
  split at h
  · rename_i hquote
    split at h
    · rename_i split hsplit
      cases h
      obtain ⟨body, hbody, htext⟩ := body_of_quotedTail hsplit
      have hshape := HasShape.quoted hquote hbody
      rw [← htext] at hshape
      exact hshape
    · cases h
  split at h
  · rename_i hc
    cases h
    subst hc
    exact .variableName (isName_name cs)
  split at h
  · cases h
    exact hasShape_scanMinus cs
  split at h
  · rename_i hdigit
    cases h
    exact .number (isNumber_number hdigit cs)
  split at h
  · split at h
    · rename_i hregex
      cases h
      exact hasShape_scanRegex? hregex
    · exact hasShape_scanWordOrOperator h
  · exact hasShape_scanWordOrOperator h

/-- **Each token has the shape of its kind.** -/
theorem hasShape_of_scan {context : Context} {c : Char} {cs : List Char} {s : Scanned}
    (h : scan context c cs = .ok s) : HasShape s.kind s.text := by
  have hne := scan_ne_nil h
  rcases scan_cases h with ⟨-, rfl⟩ | ⟨hkind, htext⟩ | ⟨-, hcode⟩
  · refine .blanks ?_ hne mem_blanks
    show Kind.isBlanks (if context.atLineStart then .indent else .whitespace) = true
    split <;> rfl
  · rw [hkind]
    rcases htext with htext | htext
    · rw [htext]
      exact .lineFeed
    · rw [htext]
      exact .returnLineFeed
  · exact hasShape_scanCode hcode

theorem Fits.hasShape {context : Context} {piece : Piece} {rest : List Char}
    (h : Fits context piece rest) : HasShape piece.kind piece.chars := by
  obtain ⟨c, cs, -, hscan⟩ := h
  exact hasShape_of_scan hscan

end ManifestLint
