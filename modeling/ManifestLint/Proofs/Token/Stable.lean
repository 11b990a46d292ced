import Mathlib.Data.List.TakeWhile
import ManifestLint.Token.Scan

set_option autoImplicit false

/-! # What the readers see of the text after a token

A reader that finds the end of a token looks a little past it, but never past a character that
keeps tokens apart: a blank or the character of a line end. So what it reads stays the same when
the text after the token is replaced by another one that `Agrees` with it, that is, looks the same
up to its own first such character. A reader that comes to a closing mark does not look past it
at all. -/

namespace ManifestLint

/-- The characters that keep tokens apart. -/
def isSeparator (c : Char) : Bool := c == ' ' || c == '\t' || c == '\r' || c == '\n'

/-- The text `new` looks like `old` up to its first separator. -/
def Agrees (old new : List Char) : Prop := (new.takeWhile fun c => !isSeparator c) <+: old

namespace Agrees

theorem refl (text : List Char) : Agrees text text := List.takeWhile_prefix _

/-- The beginning of a text agrees with it. -/
theorem cut {old new : List Char} (h : new <+: old) : Agrees old new :=
  (List.takeWhile_prefix _).trans h

/-- A text that begins with a separator agrees with every text. -/
theorem of_isSeparator {c : Char} (h : isSeparator c = true) (old rest : List Char) :
    Agrees old (c :: rest) := by
  unfold Agrees
  rw [List.takeWhile_cons, h]
  exact List.nil_prefix

theorem append {old new : List Char} (h : Agrees old new) (front : List Char) :
    Agrees (front ++ old) (front ++ new) := by
  induction front with
  | nil => exact h
  | cons c rest ih =>
      unfold Agrees at ih ⊢
      rw [List.cons_append, List.cons_append, List.takeWhile_cons]
      split
      · exact (List.prefix_cons_inj c).2 ih
      · exact List.nil_prefix

/-- What the new text begins with, the old one begins with too, as long as no separator is in
it. -/
theorem of_front {old new front : List Char} (h : Agrees old new)
    (hfront : ∀ c ∈ front, isSeparator c = false) (hbegins : front <+: new) : front <+: old := by
  obtain ⟨rest, rfl⟩ := hbegins
  unfold Agrees at h
  rw [List.takeWhile_append_of_pos (by simpa using hfront)] at h
  exact (List.prefix_append _ _).trans h

theorem head?_eq {old new : List Char} (h : Agrees old new) {c : Char}
    (hc : isSeparator c = false) (hnew : new.head? = some c) : old.head? = some c := by
  obtain ⟨rest, rfl⟩ := List.head?_eq_some_iff.1 hnew
  have hbegins : [c] <+: old :=
    h.of_front (List.forall_mem_singleton.2 hc) ⟨rest, rfl⟩
  obtain ⟨rest', rfl⟩ := hbegins
  rfl

end Agrees

/-- A class of characters without separators. -/
theorem isSeparator_eq_false {p : Char → Bool}
    (hp : p ' ' = false ∧ p '\t' = false ∧ p '\r' = false ∧ p '\n' = false) {c : Char}
    (h : p c = true) : isSeparator c = false := by
  by_contra hc
  simp only [isSeparator, Bool.not_eq_false, Bool.or_eq_true, beq_iff_eq] at hc
  obtain ⟨hspace, htab, hreturn, hline⟩ := hp
  rcases hc with ((rfl | rfl) | rfl) | rfl <;> simp_all

theorem isSeparator_of_continuesName {c : Char} (h : Span.continuesName c = true) :
    isSeparator c = false :=
  isSeparator_eq_false (by decide +kernel) h

theorem isSeparator_of_isDigit {c : Char} (h : Text.isDigit c = true) : isSeparator c = false :=
  isSeparator_eq_false (by decide +kernel) h

namespace Span

/-! ## Runs -/

theorem run_eq_iff {p : Char → Bool} {cs front rest : List Char} :
    run p cs = (front, rest) ↔
      cs = front ++ rest ∧ (∀ c ∈ front, p c = true) ∧ ∀ c ∈ rest.head?, p c = false := by
  unfold run
  constructor
  · intro h
    obtain ⟨rfl, rfl⟩ := Prod.mk.inj h
    refine ⟨List.takeWhile_append_dropWhile.symm, fun c => List.mem_takeWhile_imp, ?_⟩
    intro c hc
    have hhead := List.head?_dropWhile_not p cs
    rw [Option.mem_def.1 hc] at hhead
    simpa using hhead
  · rintro ⟨rfl, hfront, hrest⟩
    rw [List.takeWhile_append_of_pos hfront, List.dropWhile_append_of_pos hfront]
    cases rest with
    | nil => simp
    | cons c others =>
        have hc := hrest c rfl
        simp [hc]

/-- A run ends at the same place before a text that agrees. -/
theorem run_stable {p : Char → Bool} (hp : ∀ c, p c = true → isSeparator c = false)
    {cs rest' : List Char} (h : Agrees (run p cs).2 rest') :
    run p ((run p cs).1 ++ rest') = ((run p cs).1, rest') := by
  obtain ⟨-, hfront, hrest⟩ := run_eq_iff.1 (show run p cs = ((run p cs).1, (run p cs).2) from rfl)
  refine run_eq_iff.2 ⟨rfl, hfront, ?_⟩
  intro c hc
  by_contra htrue
  have hpc : p c = true := by simpa using htrue
  rw [hrest c (h.head?_eq (hp c hpc) hc)] at hpc
  cases hpc

/-! ## Numbers -/

/-- Decides whether a dot with a digit after it stands at the front. -/
def startsFraction : List Char → Bool
  | c :: d :: _ => c == '.' && Text.isDigit d
  | _ => false

theorem startsFraction_stable {rest rest' : List Char} (h : startsFraction rest = false)
    (hagrees : Agrees rest rest') : startsFraction rest' = false := by
  by_contra htrue
  rw [Bool.not_eq_false] at htrue
  match rest', htrue, hagrees with
  | c :: d :: others, htrue, hagrees =>
      have hdot : (c == '.') = true ∧ Text.isDigit d = true := by
        simpa [startsFraction] using htrue
      have hfree : ∀ e ∈ [c, d], isSeparator e = false := by
        rw [List.forall_mem_cons, List.forall_mem_singleton, beq_iff_eq.1 hdot.1]
        exact ⟨rfl, isSeparator_of_isDigit hdot.2⟩
      obtain ⟨tail, rfl⟩ := hagrees.of_front hfree ⟨others, rfl⟩
      simp [startsFraction, beq_iff_eq.1 hdot.1, hdot.2] at h

theorem number_of_startsFraction {cs : List Char}
    (h : startsFraction (run Text.isDigit cs).2 = true) :
    number cs =
      ((run Text.isDigit cs).1 ++ '.' :: (run Text.isDigit (run Text.isDigit cs).2.tail).1,
        (run Text.isDigit (run Text.isDigit cs).2.tail).2) := by
  unfold number
  simp only
  split
  · rename_i c d others heq
    rw [heq] at h ⊢
    have hdot : c = '.' ∧ Text.isDigit d = true := by simpa [startsFraction] using h
    rw [if_pos hdot, hdot.1]
    rfl
  · rename_i hno
    cases hrest : (run Text.isDigit cs).2 with
    | nil =>
        rw [hrest] at h
        cases h
    | cons c rest =>
        cases rest with
        | nil =>
            rw [hrest] at h
            cases h
        | cons d others => exact absurd hrest (hno c d others)

theorem number_of_not_startsFraction {cs : List Char}
    (h : startsFraction (run Text.isDigit cs).2 = false) :
    number cs = run Text.isDigit cs := by
  unfold number
  simp only
  split
  · rename_i c d others heq
    rw [heq] at h
    have hdot : ¬(c = '.' ∧ Text.isDigit d = true) := by
      simpa [startsFraction] using h
    rw [if_neg hdot]
  · rfl

theorem number_stable {cs rest' : List Char} (h : Agrees (number cs).2 rest') :
    number ((number cs).1 ++ rest') = ((number cs).1, rest') := by
  cases hfraction : startsFraction (run Text.isDigit cs).2 with
  | false =>
      rw [number_of_not_startsFraction hfraction] at h ⊢
      have hrun := run_stable (fun c => isSeparator_of_isDigit) h
      rw [number_of_not_startsFraction, hrun]
      rw [hrun]
      exact startsFraction_stable hfraction h
  | true =>
      rw [number_of_startsFraction hfraction] at h ⊢
      have hwhole := (run_eq_iff.1 (show run Text.isDigit cs = (_, _) from rfl)).2.1
      have hfirst : ∃ d others, (run Text.isDigit (run Text.isDigit cs).2.tail).1 = d :: others ∧
          Text.isDigit d = true := by
        match hrest : (run Text.isDigit cs).2, hfraction with
        | c :: d :: others, hfraction =>
            have hdot : c = '.' ∧ Text.isDigit d = true := by
              simpa [startsFraction] using hfraction
            refine ⟨d, others.takeWhile Text.isDigit, ?_, hdot.2⟩
            simp [run, hdot.2]
      obtain ⟨d, others, hdigits, hd⟩ := hfirst
      have hrun := run_stable (fun c => isSeparator_of_isDigit) h
      have hfront : run Text.isDigit ((run Text.isDigit cs).1 ++
          '.' :: ((run Text.isDigit (run Text.isDigit cs).2.tail).1 ++ rest')) =
          ((run Text.isDigit cs).1,
            '.' :: ((run Text.isDigit (run Text.isDigit cs).2.tail).1 ++ rest')) := by
        refine run_eq_iff.2 ⟨rfl, hwhole, ?_⟩
        rintro c ⟨⟩
        decide
      rw [List.append_assoc, List.cons_append, number_of_startsFraction, hfront, List.tail_cons,
        hrun]
      rw [hfront, hdigits]
      simpa [startsFraction] using hd

/-! ## Names -/

/-- Decides whether a name does not go on with the text. -/
def stopsName : List Char → Bool
  | [] => true
  | c :: cs => !continuesName c && !startsPart (c :: cs)

theorem startsPart_iff {cs : List Char} :
    startsPart cs = true ↔ ∃ c rest, cs = ':' :: ':' :: c :: rest ∧ startsName c = true := by
  unfold startsPart
  split
  · simp
  · rename_i hno
    simp only [Bool.false_eq_true, false_iff]
    rintro ⟨c, rest, rfl, -⟩
    exact hno c rest rfl

theorem stopsName_stable {rest rest' : List Char} (h : stopsName rest = true)
    (hagrees : Agrees rest rest') : stopsName rest' = true := by
  cases hrest' : rest' with
  | nil => rfl
  | cons c others =>
      subst hrest'
      unfold stopsName
      rw [Bool.and_eq_true, Bool.not_eq_true', Bool.not_eq_true', ← Bool.not_eq_true,
        ← Bool.not_eq_true]
      constructor
      · intro hc
        have hhead := hagrees.head?_eq (isSeparator_of_continuesName hc) rfl
        obtain ⟨others', rfl⟩ := List.head?_eq_some_iff.1 hhead
        simp [stopsName, hc] at h
      · intro hpart
        obtain ⟨d, tail, heq, hd⟩ := startsPart_iff.1 hpart
        have hfree : ∀ e ∈ [':', ':', d], isSeparator e = false := by
          simp only [List.forall_mem_cons, List.not_mem_nil, false_imp_iff, implies_true, and_true]
          exact ⟨rfl, rfl, isSeparator_of_continuesName (continuesName_of_startsName hd)⟩
        obtain ⟨tail', rfl⟩ := hagrees.of_front hfree ⟨tail, heq.symm⟩
        have hpart' := startsPart_iff.2 ⟨d, tail', rfl, hd⟩
        simp only [List.cons_append, List.nil_append, stopsName, hpart'] at h
        simp at h

theorem name_cons {c : Char} {cs : List Char} (h : continuesName c = true) :
    name (c :: cs) = (c :: (name cs).1, (name cs).2) := by
  rw [name.eq_def]
  exact if_pos h

theorem name_part {c d : Char} {cs : List Char} (hc : ¬continuesName c = true)
    (h : startsPart (c :: d :: cs) = true) :
    name (c :: d :: cs) = (c :: d :: (name cs).1, (name cs).2) := by
  rw [name.eq_def]
  exact (if_neg hc).trans (if_pos h)

theorem name_of_stopsName {cs : List Char} (h : stopsName cs = true) : name cs = ([], cs) := by
  cases cs with
  | nil => rfl
  | cons c rest =>
      simp only [stopsName, Bool.and_eq_true, Bool.not_eq_true'] at h
      rw [name.eq_def]
      exact (if_neg (by simp [h.1])).trans (if_neg (by simp [h.2]))

theorem name_stable {cs rest' : List Char} (h : Agrees (name cs).2 rest') :
    name ((name cs).1 ++ rest') = ((name cs).1, rest') := by
  fun_induction name cs with
  | case1 => exact name_of_stopsName (stopsName_stable rfl h)
  | case2 c cs hc ih => rw [List.cons_append, name_cons hc, ih h]
  | case3 c hc hpart => simp [startsPart] at hpart
  | case4 c hc d rest hpart ih =>
      obtain ⟨e, tail, heq, he⟩ := startsPart_iff.1 hpart
      obtain ⟨rfl, rfl, rfl⟩ : c = ':' ∧ d = ':' ∧ rest = e :: tail := by simpa using heq
      have hfirst : (name (e :: tail)).1 = e :: (name tail).1 := by
        rw [name_cons (continuesName_of_startsName he)]
      have hpart' : startsPart (':' :: ':' :: ((name (e :: tail)).1 ++ rest')) = true := by
        rw [hfirst]
        exact startsPart_iff.2 ⟨e, _, rfl, he⟩
      rw [List.cons_append, List.cons_append, name_part hc hpart', ih h]
  | case5 c cs hc hpart =>
      refine name_of_stopsName (stopsName_stable ?_ h)
      simp [stopsName, hc, hpart]

/-! ## Quoted texts and regular expressions -/

/-- What closes a quoted text stands in it, so that the text after it does not matter. -/
theorem quotedTail_stable {quote : Char} {cs : List Char} {p : List Char × List Char}
    (h : quotedTail quote cs = some p) (rest' : List Char) :
    quotedTail quote (p.1 ++ rest') = some (p.1, rest') := by
  fun_induction quotedTail quote cs generalizing p with
  | case1 => cases h
  | case2 => cases h
  | case3 d rest ih =>
      obtain ⟨q, hq, rfl⟩ := Option.map_eq_some_iff.1 h
      simp [quotedTail, ih hq]
  | case4 cs hc =>
      cases h
      rw [List.cons_append, quotedTail.eq_def]
      exact (if_neg hc).trans (if_pos rfl)
  | case5 c cs hc hquote ih =>
      obtain ⟨q, hq, rfl⟩ := Option.map_eq_some_iff.1 h
      rw [List.cons_append, quotedTail.eq_def]
      refine (if_neg hc).trans ((if_neg hquote).trans ?_)
      rw [ih hq]
      rfl

/-- What closes a regular expression stands in it, so that the text after it does not matter. -/
theorem regexTail_stable {cs : List Char} {p : List Char × List Char}
    (h : regexTail cs = some p) (rest' : List Char) :
    regexTail (p.1 ++ rest') = some (p.1, rest') := by
  fun_induction regexTail cs generalizing p with
  | case1 => cases h
  | case2 => cases h
  | case3 d rest ih =>
      obtain ⟨q, hq, rfl⟩ := Option.map_eq_some_iff.1 h
      simp [regexTail, ih hq]
  | case4 => cases h
  | case5 cs hc hline =>
      cases h
      rw [List.cons_append, regexTail.eq_def]
      exact (if_neg hc).trans ((if_neg hline).trans (if_pos rfl))
  | case6 c cs hc hline hslash ih =>
      obtain ⟨q, hq, rfl⟩ := Option.map_eq_some_iff.1 h
      rw [List.cons_append, regexTail.eq_def]
      refine (if_neg hc).trans ((if_neg hline).trans ((if_neg hslash).trans ?_))
      rw [ih hq]
      rfl

/-- What closes no regular expression in a text closes none in a beginning of it. -/
theorem regexTail_eq_none_cut {cs rest : List Char} (h : cs <+: rest)
    (hnone : regexTail rest = none) : regexTail cs = none := by
  obtain ⟨more, rfl⟩ := h
  cases htail : regexTail cs with
  | none => rfl
  | some split =>
      have hstable := regexTail_stable htail (split.2 ++ more)
      rw [← List.append_assoc, regexTail_append htail, hnone] at hstable
      cases hstable

/-! ## Blanks -/

/-- Decides whether a text begins with a blank. -/
def beginsBlank : List Char → Bool
  | [] => false
  | c :: cs => startsBlank c cs

theorem blanks_of_not_beginsBlank {cs : List Char} (h : beginsBlank cs = false) :
    blanks cs = ([], cs) := by
  cases cs with
  | nil => rfl
  | cons c rest => exact if_neg (by simpa [beginsBlank] using h)

theorem beginsBlank_blanks (cs : List Char) : beginsBlank (blanks cs).2 = false := by
  fun_induction blanks cs with
  | case1 => rfl
  | case2 c cs _ ih => exact ih
  | case3 c cs hc => simpa [beginsBlank] using hc

/-- Blanks end at the same place before a text that begins with none, unless a line end comes up
that would take a carriage return along. -/
theorem blanks_stable {cs rest' : List Char} (hstop : beginsBlank rest' = false)
    (hline : rest'.head? = some '\n' → (blanks cs).2.head? = some '\n') :
    blanks ((blanks cs).1 ++ rest') = ((blanks cs).1, rest') := by
  fun_induction blanks cs with
  | case1 => exact blanks_of_not_beginsBlank hstop
  | case2 c cs hc ih =>
      have hhead : ((blanks cs).1 ++ rest').head? = some '\n' → cs.head? = some '\n' := by
        intro hnew
        have happend := blanks_append cs
        cases hfront : (blanks cs).1 with
        | nil =>
            rw [hfront, List.nil_append] at hnew happend
            rw [← happend]
            exact hline hnew
        | cons d others =>
            rw [hfront] at hnew happend
            rw [← happend]
            exact hnew
      have hc' : startsBlank c ((blanks cs).1 ++ rest') = true := by
        simp only [startsBlank, Bool.or_eq_true, Bool.and_eq_true, bne_iff_ne, ne_eq] at hc ⊢
        exact hc.imp_right fun hreturn => ⟨hreturn.1, fun hnew => hreturn.2 (hhead hnew)⟩
      rw [List.cons_append, blanks, if_pos hc', ih hline]
  | case3 c cs hc => exact blanks_of_not_beginsBlank hstop

/-! ## Comments -/

/-- A comment ends where its line does. -/
theorem comment_stable {cs rest' : List Char} (h : rest'.head? = (comment cs).2.head?) :
    comment ((comment cs).1 ++ rest') = ((comment cs).1, rest') := by
  unfold comment at h ⊢
  obtain ⟨-, hfront, hrest⟩ := run_eq_iff.1
    (show run (fun c => c != '\n' && c != '\r') cs = (_, _) from rfl)
  refine run_eq_iff.2 ⟨rfl, hfront, ?_⟩
  rw [h]
  exact hrest

end Span

/-! ## Operators -/

theorem isSeparator_operators :
    ∀ entry ∈ operators, ∀ c ∈ entry.1, isSeparator c = false := by
  have hall : (operators.all fun entry => entry.1.all fun c => !isSeparator c) = true := by decide
  simpa using hall

/-- The first operator that fits is the same one before a text that agrees. -/
theorem operatorAt?_stable {cs rest rest' : List Char} {entry : List Char × Kind}
    (h : operatorAt? cs = some entry) (hcs : cs = entry.1 ++ rest) (hagrees : Agrees rest rest') :
    operatorAt? (entry.1 ++ rest') = some entry := by
  unfold operatorAt? at h ⊢
  rw [List.find?_eq_some_iff_append] at h ⊢
  obtain ⟨-, before, after, hoperators, hbefore⟩ := h
  refine ⟨by simp, before, after, hoperators, ?_⟩
  intro other hother
  have hmem : other ∈ operators := by
    rw [hoperators]
    exact List.mem_append_left _ hother
  have hno := hbefore other hother
  rw [Bool.not_eq_true', ← Bool.not_eq_true] at hno ⊢
  intro hfits
  apply hno
  rw [List.isPrefixOf_iff_prefix] at hfits ⊢
  rw [hcs]
  exact (hagrees.append entry.1).of_front (isSeparator_operators other hmem) hfits

end ManifestLint
