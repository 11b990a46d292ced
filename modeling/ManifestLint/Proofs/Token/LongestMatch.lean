import ManifestLint.Proofs.Token.Readers
import ManifestLint.Proofs.Token.Shape

set_option autoImplicit false

/-! # Longest match

A token is the longest text at its place that has the shape of any kind of token
(`lexeme_shape`). There are two exceptions, and no more. A carriage return directly before a line
feed is left out of the blanks before it. And a slash is read alone where a regular expression
would be longer, if the code before it does not allow one or if it goes over a line end that is
not escaped.

The proof goes through the shapes: the first character of a text of a given shape decides which
reader `scan` calls, and that reader stops no earlier than the text does. -/

namespace ManifestLint

/-! ## The readers -/

section Readers

variable {text cs : List Char}

theorem length_le_run {p : Char → Bool} (hp : ∀ c ∈ text, p c = true) (h : text <+: cs) :
    text.length ≤ (Span.run p cs).1.length := by
  obtain ⟨rest, rfl⟩ := h
  rw [Span.run, List.takeWhile_append_of_pos hp, List.length_append]
  exact Nat.le_add_right _ _

/-- Blanks are read to their end, or up to a carriage return that belongs to a line end. -/
theorem length_le_blanks (hblank : ∀ c ∈ text, c = ' ' ∨ c = '\t' ∨ c = '\r') (h : text <+: cs) :
    text.length ≤ (Span.blanks cs).1.length ∨
      text = (Span.blanks cs).1 ++ ['\r'] ∧ ∃ tail, (Span.blanks cs).2 = '\r' :: '\n' :: tail := by
  induction text generalizing cs with
  | nil => exact .inl (Nat.zero_le _)
  | cons c text ih =>
      obtain ⟨rest, rfl⟩ := h
      rw [List.forall_mem_cons] at hblank
      rw [List.cons_append, Span.blanks]
      by_cases hstart : Span.startsBlank c (text ++ rest) = true
      · rw [if_pos hstart]
        rcases ih hblank.2 (List.prefix_append _ _) with hle | ⟨htext, htail⟩
        · exact .inl (Nat.succ_le_succ hle)
        · exact .inr ⟨congrArg (List.cons c) htext, htail⟩
      · -- a carriage return before a line feed, which is no blank
        rw [if_neg hstart]
        have hreturn : c = '\r' ∧ (text ++ rest).head? = some '\n' := by
          rcases hblank.1 with rfl | rfl | rfl
          · exact absurd rfl hstart
          · exact absurd rfl hstart
          · refine ⟨rfl, ?_⟩
            by_contra hne
            exact hstart (by simpa [Span.startsBlank] using hne)
        obtain ⟨rfl, hhead⟩ := hreturn
        have htext : text = [] := by
          cases text with
          | nil => rfl
          | cons d others =>
              obtain rfl : d = '\n' := Option.some.inj hhead
              simp at hblank
        subst htext
        obtain ⟨tail, rfl⟩ := List.head?_eq_some_iff.1 hhead
        exact .inr ⟨rfl, tail, rfl⟩

theorem IsName.length_le (hname : IsName text) (h : text <+: cs) :
    text.length ≤ (Span.name cs).1.length := by
  induction hname generalizing cs with
  | nil => exact Nat.zero_le _
  | char hc _ ih =>
      obtain ⟨rest, rfl⟩ := h
      rw [List.cons_append, Span.name_cons hc]
      exact Nat.succ_le_succ (ih (List.prefix_append _ _))
  | @part c text hc _ ih =>
      obtain ⟨rest, rfl⟩ := h
      have hpart : Span.startsPart (':' :: ':' :: (c :: text ++ rest)) = true :=
        Span.startsPart_iff.2 ⟨c, text ++ rest, rfl, hc⟩
      rw [List.cons_append, List.cons_append, Span.name_part (by decide +kernel) hpart]
      exact Nat.succ_le_succ (Nat.succ_le_succ (ih (List.prefix_append _ _)))

theorem length_run_le_number (cs : List Char) :
    (Span.run Text.isDigit cs).1.length ≤ (Span.number cs).1.length := by
  by_cases hfraction : Span.startsFraction (Span.run Text.isDigit cs).2 = true
  · rw [Span.number_of_startsFraction hfraction, List.length_append]
    exact Nat.le_add_right _ _
  · rw [Span.number_of_not_startsFraction (by simpa using hfraction)]

theorem IsNumber.length_le (hnumber : IsNumber text) (h : text <+: cs) :
    text.length ≤ (Span.number cs).1.length := by
  cases hnumber with
  | whole hdigits => exact (length_le_run hdigits.2 h).trans (length_run_le_number cs)
  | @fraction whole digits hwhole hdigits =>
      obtain ⟨rest, rfl⟩ := h
      rw [List.append_assoc, List.cons_append]
      -- the dot ends the digits before it and begins the fraction
      have hrun : Span.run Text.isDigit (whole ++ '.' :: (digits ++ rest)) =
          (whole, '.' :: (digits ++ rest)) := by
        refine Span.run_eq_iff.2 ⟨rfl, hwhole.2, ?_⟩
        rintro c ⟨⟩
        decide
      have hfraction : Span.startsFraction ('.' :: (digits ++ rest)) = true := by
        obtain ⟨d, others, rfl⟩ := List.exists_cons_of_ne_nil hdigits.1
        simpa [Span.startsFraction] using hdigits.2 d List.mem_cons_self
      have hnumber : Span.number (whole ++ '.' :: (digits ++ rest)) = _ :=
        Span.number_of_startsFraction (by rw [hrun]; exact hfraction)
      simp only [hrun, List.tail_cons] at hnumber
      rw [hnumber]
      have hle := length_le_run hdigits.2 (List.prefix_append digits rest)
      rw [List.length_append, List.length_append, List.length_cons, List.length_cons]
      omega

theorem IsNumber.exists_digit (h : IsNumber text) :
    ∃ c rest, text = c :: rest ∧ Text.isDigit c = true := by
  have hfirst : ∀ {digits : List Char}, IsDigits digits →
      ∃ c rest, digits = c :: rest ∧ Text.isDigit c = true := by
    intro digits hdigits
    obtain ⟨c, rest, rfl⟩ := List.exists_cons_of_ne_nil hdigits.1
    exact ⟨c, rest, rfl, hdigits.2 c List.mem_cons_self⟩
  cases h with
  | whole hdigits => exact hfirst hdigits
  | fraction hwhole _ =>
      obtain ⟨c, rest, rfl, hc⟩ := hfirst hwhole
      exact ⟨c, _, rfl, hc⟩

theorem operators_sorted :
    operators.Pairwise fun entry other => other.1.length ≤ entry.1.length := by decide

/-- Of the operators at the front of a text the first one in the table is the longest. -/
theorem length_le_operatorAt? {entry other : List Char × Kind}
    (h : operatorAt? cs = some entry) (hmem : other ∈ operators) (hfront : other.1 <+: cs) :
    other.1.length ≤ entry.1.length := by
  obtain ⟨-, before, after, hsplit, hbefore⟩ := List.find?_eq_some_iff_append.1 h
  have hsorted := operators_sorted
  rw [hsplit] at hmem hsorted
  rcases List.mem_append.1 hmem with hmem | hmem
  · have hno := hbefore other hmem
    rw [List.isPrefixOf_iff_prefix.2 hfront] at hno
    cases hno
  · rcases List.mem_cons.1 hmem with rfl | hmem
    · exact Nat.le_refl _
    · exact (List.pairwise_cons.1 (List.pairwise_append.1 hsorted).2.1).1 other hmem

end Readers

/-! ## No longer text has a shape -/

/-- Where `text` is found, which is followed by `rest`, a longer text of a shape is passed over: a
carriage return goes with the line feed after it, and a regular expression must be allowed and stay
on its line. -/
inductive PassedOver (mayOpen : Prop) (found : Kind) (text rest : List Char) :
    Kind → List Char → Prop
  | returnLineFeed {kind : Kind} {tail : List Char} :
      found.isBlanks = true → kind.isBlanks = true → rest = '\r' :: '\n' :: tail →
      PassedOver mayOpen found text rest kind (text ++ ['\r'])
  | regex {body : List Char} :
      found = .slash → ¬(mayOpen ∧ AllEscaped IsLineEnd body) →
      PassedOver mayOpen found text rest .regex ('/' :: (body ++ ['/']))

section Scan

variable {context : Context} {c : Char} {cs text : List Char} {s : Scanned}

/-- A text of one character is not longer than a token. -/
theorem length_le_of_length_le_one (h : scan context c cs = .ok s) (htext : text.length ≤ 1) :
    text.length ≤ s.text.length :=
  htext.trans (List.length_pos_iff.2 (scan_ne_nil h))

theorem length_le_of_blanks (h : scan context c cs = .ok s) {kind : Kind}
    (hkind : kind.isBlanks = true) (hblank : ∀ d ∈ text, d = ' ' ∨ d = '\t' ∨ d = '\r')
    (hfront : text <+: c :: cs) :
    text.length ≤ s.text.length ∨
      PassedOver (context.regexAllowed = true) s.kind s.text s.rest kind text := by
  have hlength := length_le_blanks hblank hfront
  by_cases hstart : Span.startsBlank c cs = true
  · rw [scan_eq, if_pos hstart] at h
    cases h
    rcases hlength with hle | ⟨htext, tail, htail⟩
    · exact .inl hle
    · right
      rw [htext]
      refine .returnLineFeed ?_ hkind htail
      show Kind.isBlanks (if context.atLineStart then .indent else .whitespace) = true
      split <;> rfl
  · -- a carriage return before a line feed
    refine .inl (length_le_of_length_le_one h ?_)
    rw [Span.blanks_of_not_beginsBlank (by simpa [Span.beginsBlank] using hstart)] at hlength
    rcases hlength with hle | ⟨htext, -⟩
    · exact hle.trans (Nat.zero_le 1)
    · rw [htext]
      exact Nat.le_refl 1

theorem length_le_of_comment (h : scan context '#' cs = .ok s) (hline : OneLine text)
    (hfront : text <+: cs) : ('#' :: text).length ≤ s.text.length := by
  rw [scan_comment] at h
  cases h
  refine length_le_run (List.forall_mem_cons.2 ⟨rfl, fun c hc => ?_⟩)
    ((List.prefix_cons_inj '#').2 hfront)
  have hfree := hline c hc
  rw [IsLineEnd, not_or] at hfree
  simp [hfree.1, hfree.2]

theorem length_le_of_quoted {quote : Char} {body : List Char} (hquote : quote = '"' ∨ quote = '\'')
    (h : scan context quote cs = .ok s) (hbody : Body quote body)
    (hfront : body ++ [quote] <+: cs) :
    (quote :: (body ++ [quote])).length ≤ s.text.length := by
  obtain ⟨rest, rfl⟩ := hfront
  rw [List.append_assoc, List.singleton_append, scan_quote hquote,
    hbody.quotedTail (ne_backslash_of_quote hquote)] at h
  cases h
  exact Nat.le_refl _

theorem length_le_of_number (h : scan context c cs = .ok s) (hnumber : IsNumber text)
    (hfront : text <+: c :: cs) : text.length ≤ s.text.length := by
  obtain ⟨d, rest, rfl, hd⟩ := hnumber.exists_digit
  obtain ⟨rfl, -⟩ := List.cons_prefix_cons.1 hfront
  rw [scan_of_isDigit hd] at h
  cases h
  exact hnumber.length_le hfront

theorem length_le_of_negative (h : scan context '-' cs = .ok s) (hnumber : IsNumber text)
    (hfront : text <+: cs) : ('-' :: text).length ≤ s.text.length := by
  obtain ⟨d, rest, rfl, hd⟩ := hnumber.exists_digit
  obtain ⟨more, rfl⟩ := id hfront
  have hle := hnumber.length_le hfront
  rw [scan_minus] at h
  cases h
  simp only [List.cons_append, scanMinus, if_pos hd]
  exact Nat.succ_le_succ hle

theorem length_le_of_name (h : scan context c cs = .ok s) (hstart : Span.startsName c = true)
    (hname : IsName (c :: text)) (hfront : c :: text <+: c :: cs) :
    (c :: text).length ≤ s.text.length := by
  rw [scan_of_startsName hstart] at h
  cases h
  exact hname.length_le hfront

theorem length_le_of_keyword (h : scan context c cs = .ok s)
    (hkeyword : text ∈ keywords.map Prod.fst) (hfront : text <+: c :: cs) :
    text.length ≤ s.text.length := by
  -- a keyword is a name too
  have hnames : ∀ text ∈ keywords.map Prod.fst, (Span.name text).1 = text ∧
      text.head?.all Span.startsName = true := by decide +kernel
  obtain ⟨hname, hstart⟩ := hnames text hkeyword
  have hshape : IsName text := hname ▸ isName_name text
  cases text with
  | nil => exact Nat.zero_le _
  | cons d rest =>
      obtain ⟨rfl, -⟩ := List.cons_prefix_cons.1 hfront
      exact length_le_of_name h hstart hshape hfront

theorem Body.eq_of_append {close : Char} (hclose : close ≠ '\\')
    {body body' rest rest' : List Char} (h : Body close body) (h' : Body close body')
    (heq : body ++ close :: rest = body' ++ close :: rest') : body = body' := by
  have hread := h.quotedTail hclose rest
  rw [heq, h'.quotedTail hclose rest'] at hread
  exact (List.append_cancel_right (Prod.mk.inj (Option.some.inj hread)).1).symm

theorem length_le_of_regex (h : scan context '/' cs = .ok s) {body : List Char}
    (hbody : Body '/' body) (hfront : body ++ ['/'] <+: cs) :
    ('/' :: (body ++ ['/'])).length ≤ s.text.length ∨
      PassedOver (context.regexAllowed = true) s.kind s.text s.rest .regex
        ('/' :: (body ++ ['/'])) := by
  obtain ⟨rest, rfl⟩ := hfront
  obtain ⟨hclosing, hfirst⟩ := (body_iff (by decide)).1 hbody
  have hclosed : ClosedAfter (body ++ ['/'] ++ rest) body rest :=
    ⟨by simp, hclosing, hfirst⟩
  rw [scan_slash] at h
  cases h
  cases hregex : scanRegex? context (body ++ ['/'] ++ rest) with
  | none =>
      refine .inr (.regex rfl fun hopen => ?_)
      have htail : Span.regexTail (body ++ ['/'] ++ rest) = some (body ++ ['/'], rest) :=
        regexTail_eq_some_iff.2 ⟨body, rfl, hclosed, hopen.2⟩
      rw [scanRegex?, if_pos hopen.1, htail] at hregex
      cases hregex
  | some regex =>
      -- two texts between slashes that begin at one place are the same
      unfold scanRegex? at hregex
      split at hregex
      · obtain ⟨split, hsplit, rfl⟩ := Option.map_eq_some_iff.1 hregex
        obtain ⟨found, hfound, hclosed', -⟩ := regexTail_eq_some_iff.1 hsplit
        have hbody' : Body '/' found :=
          (body_iff (by decide)).2 ⟨hclosed'.closing, hclosed'.first⟩
        have hsame : body = found :=
          hbody.eq_of_append (by decide) hbody' (hclosed.split.symm.trans hclosed'.split)
        left
        rw [hsame, ← hfound]
        exact Nat.le_refl _
      · cases hregex

theorem length_le_of_operator (h : scan context c cs = .ok s) {kind : Kind}
    (hop : (text, kind) ∈ operatorTexts) (hfront : text <+: c :: cs) :
    text.length ≤ s.text.length := by
  rcases List.mem_cons.1 hop with heq | hop
  · -- an arrow
    obtain ⟨rfl, -⟩ := Prod.mk.inj heq
    obtain ⟨rfl, hangle⟩ := List.cons_prefix_cons.1 hfront
    obtain ⟨more, rfl⟩ := hangle
    rw [scan_minus] at h
    cases h
    exact Nat.le_refl _
  rcases List.mem_cons.1 hop with heq | hop
  · obtain ⟨rfl, -⟩ := Prod.mk.inj heq
    exact length_le_of_length_le_one h (Nat.le_refl 1)
  by_cases hone : text.length ≤ 1
  · exact length_le_of_length_le_one h hone
  · -- the longer operators begin with characters that begin nothing else
    have hstarts : ∀ entry ∈ operators, ¬entry.1.length ≤ 1 →
        (entry.1.head?.all fun d => !marks.contains d && !Text.isDigit d && !Span.startsName d &&
          d != ':') = true := by
      decide +kernel
    cases text with
    | nil => exact Nat.zero_le _
    | cons d rest =>
        obtain ⟨rfl, -⟩ := List.cons_prefix_cons.1 hfront
        have hd := hstarts _ hop hone
        simp only [List.head?_cons, Option.all_some, Bool.and_eq_true, Bool.not_eq_true', bne_iff_ne,
          ne_eq, List.contains_eq_mem, decide_eq_false_iff_not] at hd
        obtain ⟨⟨⟨hmark, hdigit⟩, hname⟩, hcolon⟩ := hd
        rw [scan_of_not_mark hmark hdigit, scanWordOrOperator,
          if_neg (fun hcolons => hcolon hcolons.1), if_neg (by simp [hname])] at h
        cases hfound : operatorAt? (d :: cs) with
        | none =>
            rw [hfound] at h
            cases h
        | some entry =>
            rw [hfound] at h
            cases h
            exact length_le_operatorAt? hfound hop hfront

/-- **No longer text has a shape**, but for those that are passed over. -/
theorem length_le_of_hasShape (h : scan context c cs = .ok s) {kind : Kind}
    (hshape : HasShape kind text) (hfront : text <+: c :: cs) :
    text.length ≤ s.text.length ∨
      PassedOver (context.regexAllowed = true) s.kind s.text s.rest kind text := by
  cases hshape with
  | blanks hkind _ hblank => exact length_le_of_blanks h hkind hblank hfront
  | lineFeed => exact .inl (length_le_of_length_le_one h (Nat.le_refl 1))
  | returnLineFeed =>
      obtain ⟨rfl, hline⟩ := List.cons_prefix_cons.1 hfront
      obtain ⟨more, rfl⟩ := hline
      cases h
      exact .inl (Nat.le_refl 2)
  | comment hline =>
      obtain ⟨rfl, htail⟩ := List.cons_prefix_cons.1 hfront
      exact .inl (length_le_of_comment h hline htail)
  | quoted hquote hbody =>
      obtain ⟨rfl, htail⟩ := List.cons_prefix_cons.1 hfront
      exact .inl (length_le_of_quoted hquote h hbody htail)
  | number hnumber => exact .inl (length_le_of_number h hnumber hfront)
  | negative hnumber =>
      obtain ⟨rfl, htail⟩ := List.cons_prefix_cons.1 hfront
      exact .inl (length_le_of_negative h hnumber htail)
  | variableName hname =>
      obtain ⟨rfl, htail⟩ := List.cons_prefix_cons.1 hfront
      rw [scan_dollar] at h
      cases h
      exact .inl (Nat.succ_le_succ (hname.length_le htail))
  | keyword hkeyword =>
      exact .inl (length_le_of_keyword h (List.mem_map_of_mem hkeyword) hfront)
  | word hstart hname _ =>
      obtain ⟨rfl, -⟩ := List.cons_prefix_cons.1 hfront
      exact .inl (length_le_of_name h hstart hname hfront)
  | topScope hname =>
      obtain ⟨rfl, hcolon⟩ := List.cons_prefix_cons.1 hfront
      obtain ⟨more, rfl⟩ := hcolon
      rw [List.cons_append, scan_colons] at h
      cases h
      refine .inl (Nat.succ_le_succ (Nat.succ_le_succ (hname.length_le ?_)))
      exact List.prefix_append _ _
  | regex hbody =>
      obtain ⟨rfl, htail⟩ := List.cons_prefix_cons.1 hfront
      exact length_le_of_regex h hbody htail
  | operator hop => exact .inl (length_le_of_operator h hop hfront)
  | endOfFile => exact .inl (Nat.zero_le _)

end Scan

/-! ## Lexemes -/

namespace Lexing

/-- **Shape and longest match.** Each lexeme of a source, whether the source can be read to its
end or not, has the shape of its kind. At its place there is no longer text that has the shape of
any kind, but for the two sorts of texts that are passed over. -/
theorem lexeme_shape {source : String} {front : List Lexeme} {lexeme : Lexeme}
    (h : front ++ [lexeme] <+: (ofSource source).lexemes) :
    HasShape lexeme.kind lexeme.value.toList ∧
      ∃ rest, source.toList =
          Piece.charsOf (front.map Lexeme.piece) ++ (lexeme.value.toList ++ rest) ∧
        ∀ kind text, HasShape kind text → text <+: lexeme.value.toList ++ rest →
          text.length ≤ lexeme.value.toList.length ∨
            PassedOver (MayOpenRegex front) lexeme.kind lexeme.value.toList rest kind text := by
  rcases (exists_fits_behind h).2 with ⟨hsource, hclosing⟩ | ⟨rest, hsource, c, cs, hcs, hscan⟩
  · -- the lexeme that closes the lexing, where nothing is left
    have hkind : lexeme.kind = .endOfFile := congrArg Piece.kind hclosing
    have hvalue : lexeme.value = "" := congrArg Piece.value hclosing
    rw [hkind, hvalue]
    refine ⟨.endOfFile, [], by simpa using hsource, fun kind text _ hfront => .inl ?_⟩
    exact hfront.length_le
  · refine ⟨hasShape_of_scan hscan, rest, hsource, fun kind text hshape hfront => ?_⟩
    have htext : text <+: c :: cs := hcs ▸ hfront
    have hlonger := length_le_of_hasShape hscan hshape htext
    have hallowed : ((front.map Lexeme.piece).foldl Context.afterPiece .start).regexAllowed = true ↔
        MayOpenRegex front := regexAllowed_contextAfter front
    rw [propext hallowed] at hlonger
    exact hlonger

/-- A variable ends before a double colon that no part of a name comes after. -/
theorem lexeme_shape_variable :
    [] ++ [⟨.variableName, "$a::b-", ⟨1, 1⟩⟩] <+: (ofSource "$a::b-::9").lexemes ∧
      HasShape .variableName "$a::b-".toList ∧
      ∃ rest, "$a::b-::9".toList = [] ++ ("$a::b-".toList ++ rest) ∧
        ∀ kind text, HasShape kind text → text <+: "$a::b-".toList ++ rest →
          text.length ≤ "$a::b-".toList.length ∨
            PassedOver (MayOpenRegex []) .variableName "$a::b-".toList rest kind text := by
  have h : [] ++ [⟨.variableName, "$a::b-", ⟨1, 1⟩⟩] <+: (ofSource "$a::b-::9").lexemes := by
    decide +kernel
  exact ⟨h, lexeme_shape h⟩

/-- Both exceptions: a carriage return before a line feed is no blank, and a slash behind a number
does not open a regular expression. -/
example : (ofSource "1 \r\r\n2/3/").lexemes.map Lexeme.value =
    ["1", " \r", "\r\n", "2", "/", "3", "/", ""] := by
  decide +kernel

end Lexing

end ManifestLint
