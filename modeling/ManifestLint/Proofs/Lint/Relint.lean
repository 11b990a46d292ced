import ManifestLint.Proofs.Lint.FixedText
import ManifestLint.Proofs.Lint.Selection

set_option autoImplicit false

/-! # Linting a repaired text again

A run finds nothing wrong with a text exactly when the text can be lexed and the selection leaves
each gap between its tokens alone (`cleanAgain_iff`). For the text of a repairing run that is so,
unless a slash of the repaired stream stands where it opens a regular expression. From the first
such slash on the text is read as other tokens; whether the whole text is clean is then decided by
what stands from that slash on, read by itself (`lintSource_again`). There need not even be tokens
to read (`lintSource_again_slash`). -/

namespace ManifestLint

/-! ## Slashes that open a regular expression -/

/-- The slash stands where a regular expression may begin, and another slash closes one on the
rest of its line. -/
def OpensRegex (context : Context) (rest : List Char) : Prop :=
  context.regexAllowed = true ∧ (Span.regexTail rest).isSome = true

instance (context : Context) (rest : List Char) : Decidable (OpensRegex context rest) :=
  inferInstanceAs (Decidable (_ ∧ _))

/-- The pieces from the first bare slash on that opens a regular expression. -/
def fromOpening (context : Context) : List Piece → Option (List Piece)
  | [] => none
  | piece :: rest =>
    if piece = .bareSlash ∧ OpensRegex context (Piece.charsOf rest) then some (piece :: rest)
    else fromOpening (context.afterPiece piece) rest

variable {context : Context}

theorem scan_of_opensRegex {rest : List Char} (h : OpensRegex context rest) :
    ∃ scanned, scan context '/' rest = .ok scanned ∧ scanned.kind = .regex := by
  obtain ⟨hallowed, htail⟩ := h
  obtain ⟨split, hsplit⟩ := Option.isSome_iff_exists.1 htail
  have hregex : scanRegex? context rest = some (.ofSplit .regex ['/'] split) := by
    rw [scanRegex?, if_pos hallowed, hsplit]
    rfl
  refine ⟨.ofSplit .regex ['/'] split, ?_, rfl⟩
  rw [scan_of_not_separator (by decide), scanCode_slash_of_some hregex]

theorem opensRegex_of_readsRegex {rest : List Char}
    (h : ReadsRegex context (Piece.bareSlash.chars ++ rest)) : OpensRegex context rest := by
  obtain ⟨c, cs, s, hcs, hscan, hkind⟩ := h
  obtain ⟨rfl, rfl⟩ : '/' = c ∧ rest = cs := List.cons.inj hcs
  rw [scan_of_not_separator (by decide)] at hscan
  cases hregex : scanRegex? context rest with
  | none =>
      rw [scanCode_slash_of_none hregex] at hscan
      rw [(scanned_of_slash hscan).1] at hkind
      cases hkind
  | some regex =>
      unfold scanRegex? at hregex
      split at hregex
      · rename_i hallowed
        obtain ⟨split, hsplit, -⟩ := Option.map_eq_some_iff.1 hregex
        exact ⟨hallowed, by rw [hsplit]; rfl⟩
      · cases hregex

theorem Fits.not_opensRegex {rest : List Char} (h : Fits context .bareSlash rest) :
    ¬OpensRegex context rest := by
  intro hopens
  obtain ⟨scanned, hregex, hkind⟩ := scan_of_opensRegex hopens
  obtain ⟨c, cs, hcs, hscan⟩ := h
  obtain ⟨rfl, rfl⟩ : '/' = c ∧ rest = cs := List.cons.inj hcs
  rw [hregex] at hscan
  rw [Except.ok.inj hscan] at hkind
  cases hkind

/-- What fits is determined by the text. -/
theorem Fits.eq_of_append_eq {first second : Piece} {rest rest' : List Char}
    (hfirst : Fits context first rest) (hsecond : Fits context second rest')
    (h : first.chars ++ rest = second.chars ++ rest') : first = second ∧ rest = rest' := by
  obtain ⟨c, cs, hcs, hscan⟩ := hfirst
  obtain ⟨d, ds, hds, hscan'⟩ := hsecond
  obtain ⟨rfl, rfl⟩ : c = d ∧ cs = ds := List.cons.inj (hcs.symm.trans (h.trans hds))
  rw [hscan] at hscan'
  obtain ⟨hkind, hchars, hrest⟩ := Scanned.mk.inj (Except.ok.inj hscan')
  obtain ⟨kind, value⟩ := first
  obtain ⟨kind', value'⟩ := second
  obtain rfl : kind = kind' := hkind
  obtain rfl : value = value' := String.toList_injective hchars
  exact ⟨rfl, hrest⟩

namespace Lexes

/-- Pieces that begin with an opening slash begin with a regular expression. -/
theorem exists_regex {ps : List Piece} {rest : List Char} (h : Lexes context ps)
    (hopens : OpensRegex context rest) (hchars : Piece.charsOf ps = '/' :: rest) :
    ∃ regex others, ps = regex :: others ∧ regex.kind = .regex := by
  cases h with
  | nil => cases hchars
  | @cons _ piece others hfits _ =>
      refine ⟨piece, others, rfl, ?_⟩
      obtain ⟨scanned, hregex, hkind⟩ := scan_of_opensRegex hopens
      obtain ⟨c, cs, hcs, hscan⟩ := hfits
      rw [Piece.charsOf_cons, hcs] at hchars
      obtain ⟨rfl, rfl⟩ : c = '/' ∧ cs = rest := List.cons.inj hchars
      rw [hregex] at hscan
      rw [Except.ok.inj hscan] at hkind
      exact hkind

/-- What stands before a regular expression decides about it only by allowing it. -/
theorem of_regex {context' : Context} {regex : Piece} {others : List Piece}
    (h : Lexes context (regex :: others)) (hkind : regex.kind = .regex)
    (hallowed : context'.regexAllowed = context.regexAllowed) :
    Lexes context' (regex :: others) := by
  have hspace : regex.isSpace = false := by
    rw [Piece.isSpace, hkind]
    rfl
  rcases h.fits.code hspace hallowed (.refl _) fun _ => rfl with hfits | ⟨hslash, -⟩
  · exact .cons hfits (afterPiece_eq hallowed regex ▸ h.tail)
  · rw [hslash] at hkind
    cases hkind

end Lexes

/-- Where no slash opens a regular expression, pieces that relex lex. -/
theorem Relexes.lexes {ps : List Piece} (h : Relexes context ps)
    (hnone : fromOpening context ps = none) : Lexes context ps := by
  induction h with
  | nil context => exact .nil context
  | cons hfits _ ih =>
      rw [fromOpening] at hnone
      split at hnone
      · cases hnone
      · exact .cons hfits (ih hnone)
  | slash hregex =>
      rw [fromOpening, if_pos ⟨rfl, opensRegex_of_readsRegex hregex⟩] at hnone
      cases hnone

/-- **The text from an opening slash on** is read as if nothing stood before it, and what stands
before it is read as it is. -/
theorem Relexes.lexes_iff {ps tail : List Piece} (h : Relexes context ps)
    (htail : fromOpening context ps = some tail) :
    ∃ front back, ps = front ++ tail ∧ tail = .bareSlash :: back ∧
      OpensRegex .start (Piece.charsOf back) ∧
      ∀ qs, Lexes context qs ∧ Piece.charsOf qs = Piece.charsOf ps ↔
        ∃ rs, qs = front ++ rs ∧ Lexes .start rs ∧ Piece.charsOf rs = Piece.charsOf tail := by
  induction h with
  | nil => cases htail
  | @cons context piece rest hfits _ ih =>
      -- what fits opens nothing, so that the first opening slash is behind it
      have hno : ¬(piece = .bareSlash ∧ OpensRegex context (Piece.charsOf rest)) := by
        rintro ⟨rfl, hopens⟩
        exact hfits.not_opensRegex hopens
      rw [fromOpening, if_neg hno] at htail
      obtain ⟨front, back, rfl, hback, hopens, hiff⟩ := ih htail
      refine ⟨piece :: front, back, rfl, hback, hopens, fun qs => ?_⟩
      constructor
      · rintro ⟨hlexes, hchars⟩
        cases hlexes with
        | nil =>
            have hne := hfits.chars_ne_nil
            rw [Piece.charsOf_cons, Piece.charsOf_nil] at hchars
            exact absurd (List.append_eq_nil_iff.1 hchars.symm).1 hne
        | cons hfits' hrest =>
            rw [Piece.charsOf_cons, Piece.charsOf_cons] at hchars
            -- both texts begin with what is scanned at their front
            obtain ⟨rfl, hsame⟩ := hfits'.eq_of_append_eq hfits hchars
            obtain ⟨rs, rfl, hrs⟩ := (hiff _).1 ⟨hrest, hsame⟩
            exact ⟨rs, rfl, hrs⟩
      · rintro ⟨rs, rfl, hrs⟩
        obtain ⟨hlexes, hchars⟩ := (hiff (front ++ rs)).2 ⟨rs, rfl, hrs⟩
        rw [List.cons_append, Piece.charsOf_cons, Piece.charsOf_cons, hchars]
        exact ⟨.cons (hchars ▸ hfits) hlexes, rfl⟩
  | @slash context rest hregex =>
      -- nothing stands before the slash, and a regular expression is read in its place
      have hopens := opensRegex_of_readsRegex hregex
      rw [fromOpening, if_pos ⟨rfl, hopens⟩] at htail
      cases htail
      have hstart : OpensRegex .start (Piece.charsOf rest) := ⟨rfl, hopens.2⟩
      refine ⟨[], rest, rfl, rfl, hstart, fun qs => ?_⟩
      constructor
      · rintro ⟨hlexes, hchars⟩
        obtain ⟨regex, others, rfl, hkind⟩ := hlexes.exists_regex hopens hchars
        exact ⟨_, rfl, hlexes.of_regex hkind hopens.1.symm, hchars⟩
      · rintro ⟨rs, rfl, hlexes, hchars⟩
        obtain ⟨regex, others, rfl, hkind⟩ := hlexes.exists_regex hstart hchars
        exact ⟨hlexes.of_regex hkind hopens.1, hchars⟩

namespace Linter

/-! ## Clean texts -/

/-- The selection leaves the gaps of the text alone, which can be lexed. -/
def Regular (linter : Linter) (text : String) : Prop :=
  ∃ lexemes, (Lexing.ofSource text).toExcept = .ok lexemes ∧
    ∀ site ∈ (Layout.ofList Piece.isSpace (lexemes.map Lexeme.piece)).sites,
      tidyGap linter.selects site = site.gap

/-- The rules of the linter find nothing wrong with the text, which can be lexed, and leave it as
it is, whether they are to repair or not. -/
def CleanAgain (linter : Linter) (text : String) : Prop :=
  (Lexing.ofSource text).error = none ∧
    ∀ fix path, ∃ linted, (Linter.mk fix linter.rules).lintSource text path = .ok linted ∧
      linted.report.problems = [] ∧ linted.report.manifest = text

theorem regular_iff (linter : Linter) (text : String) :
    linter.Regular text ↔ ∃ ps, Lexes .start ps ∧ Piece.charsOf ps = text.toList ∧
      ∀ site ∈ (Layout.ofList Piece.isSpace ps).sites,
        tidyGap linter.selects site = site.gap := by
  constructor
  · rintro ⟨lexemes, hlexes, htidy⟩
    obtain ⟨hlexed, hchars⟩ := Lexing.lexes_of_toExcept hlexes
    exact ⟨_, hlexed, hchars, htidy⟩
  · rintro ⟨ps, hlexed, hchars, htidy⟩
    obtain ⟨lexemes, hlexes, rfl⟩ := Lexing.toExcept_of_lexes hlexed
    have htext : Piece.text (lexemes.map Lexeme.piece) = text := by
      apply String.toList_injective
      rw [Piece.toList_text, hchars]
    exact ⟨lexemes, htext ▸ hlexes, htidy⟩

theorem error_eq_none_iff (lexing : Lexing) :
    lexing.error = none ↔ ∃ lexemes, lexing.toExcept = .ok lexemes := by
  constructor
  · exact fun h => ⟨_, Lexing.toExcept_of_error h⟩
  · rintro ⟨lexemes, hlexes⟩
    unfold Lexing.toExcept at hlexes
    split at hlexes
    · cases hlexes
    · assumption

/-- A run over a text that can be lexed reports nothing exactly when the selection leaves all gaps
alone, and then the text stays what it is. -/
theorem lintSource_silent_iff {linter : Linter} (hrules : linter.Bundled) {text : String}
    {lexemes : List Lexeme} (hlexes : (Lexing.ofSource text).toExcept = .ok lexemes)
    (path : String) :
    ∃ linted, linter.lintSource text path = .ok linted ∧
      (linted.report.problems = [] ↔
        ∀ site ∈ (Layout.ofList Piece.isSpace (lexemes.map Lexeme.piece)).sites,
          tidyGap linter.selects site = site.gap) ∧
      (linted.report.problems = [] → linted.report.manifest = text) := by
  obtain ⟨specs, himplements, hspecs⟩ := exists_gapRules hrules
  obtain ⟨hlexed, hchars⟩ := Lexing.lexes_of_toExcept hlexes
  obtain ⟨view, transcript, hturns, hsilent, hsame⟩ := runRules_silent_iff himplements path
    ⟨(Draft.ofLexemes path lexemes).entries, (Draft.ofLexemes path lexemes).pool.size⟩
  obtain ⟨linted, after, hlint, hdraft, hshows, hproblems⟩ := lintSource_of_turns hlexes path hturns
  refine ⟨linted, hlint, ?_, ?_⟩
  · rw [hproblems, hsilent, View.pieceLayout_ofLexemes, ← selectedBy_eq himplements]
    have hafterCode := afterCode_of_lexes hlexed
    constructor
    · intro hsettled site hsite
      exact (settled_iff_tidyGap hspecs (hafterCode site hsite)).1 fun spec hspec =>
        hsettled spec hspec site hsite
    · intro htidy spec hspec site hsite
      exact (settled_iff_tidyGap hspecs (hafterCode site hsite)).2 (htidy site hsite) spec hspec
  · intro hnil
    rw [hproblems] at hnil
    have hpieces : after.pieces = lexemes.map Lexeme.piece := by
      rw [Draft.pieces_of_shows hshows, hsame hnil, View.pieceLayout_ofLexemes,
        Layout.toList_ofList]
    apply String.toList_injective
    calc linted.report.manifest.toList
        = (Piece.text after.pieces).toList := by rw [Report.manifest_of_draft hdraft]
      _ = Piece.charsOf (lexemes.map Lexeme.piece) := by rw [Piece.toList_text, hpieces]
      _ = text.toList := hchars

/-- **A run finds nothing wrong** exactly with the texts whose gaps the selection leaves alone. -/
theorem cleanAgain_iff {linter : Linter} (hrules : linter.Bundled) (text : String) :
    linter.CleanAgain text ↔ linter.Regular text := by
  constructor
  · rintro ⟨herror, hclean⟩
    obtain ⟨lexemes, hlexes⟩ := (error_eq_none_iff _).1 herror
    obtain ⟨linted, hlint, hproblems, -⟩ := hclean linter.fix ""
    obtain ⟨linted', hlint', hsilent, -⟩ := lintSource_silent_iff hrules hlexes ""
    -- both runs are one run
    obtain rfl : linted = linted' := Except.ok.inj (hlint.symm.trans hlint')
    exact ⟨lexemes, hlexes, hsilent.1 hproblems⟩
  · rintro ⟨lexemes, hlexes, htidy⟩
    refine ⟨(error_eq_none_iff _).2 ⟨lexemes, hlexes⟩, fun fix path => ?_⟩
    have hrules' : (Linter.mk fix linter.rules).Bundled := hrules
    obtain ⟨linted, hlint, hsilent, hmanifest⟩ := lintSource_silent_iff hrules' hlexes path
    exact ⟨linted, hlint, hsilent.2 htidy, hmanifest (hsilent.2 htidy)⟩

/-! ## Repaired pieces -/

/-- Where the gaps of pieces are as the selection wants them, their text is regular exactly if it
is so from the first opening slash on. -/
theorem regular_text_iff {linter : Linter} {ps : List Piece} (hrelexes : Relexes .start ps)
    (htidy : ∀ site ∈ (Layout.ofList Piece.isSpace ps).sites,
      tidyGap linter.selects site = site.gap) :
    linter.Regular (Piece.text ps) ↔
      ∀ tail ∈ fromOpening .start ps, linter.Regular (Piece.text tail) := by
  cases hopening : fromOpening .start ps with
  | none =>
      refine iff_of_true ?_ (by simp)
      rw [regular_iff]
      exact ⟨ps, hrelexes.lexes hopening, (Piece.toList_text ps).symm, htidy⟩
  | some tail =>
      -- up to the slash the text is read as the pieces, and their gaps are as they should be
      obtain ⟨front, back, rfl, rfl, hopens, hiff⟩ := hrelexes.lexes_iff hopening
      simp only [Option.mem_some_iff, forall_eq']
      rw [regular_iff, regular_iff, Piece.toList_text, Piece.toList_text]
      constructor
      · rintro ⟨qs, hlexes, hchars, htidy'⟩
        obtain ⟨rs, rfl, hlexes', hchars'⟩ := (hiff qs).1 ⟨hlexes, hchars⟩
        obtain ⟨regex, others, rfl, hkind⟩ := hlexes'.exists_regex hopens hchars'
        exact ⟨_, hlexes', hchars', (tidy_append_regex_iff hkind htidy).1 htidy'⟩
      · rintro ⟨rs, hlexes', hchars', htidy'⟩
        obtain ⟨regex, others, rfl, hkind⟩ := hlexes'.exists_regex hopens hchars'
        obtain ⟨hlexes, hchars⟩ := (hiff _).2 ⟨_, rfl, hlexes', hchars'⟩
        exact ⟨_, hlexes, hchars, (tidy_append_regex_iff hkind htidy).2 htidy'⟩

/-- The gaps of repaired pieces are as the selection wants them. -/
theorem tidy_tidyPieces {linter : Linter} (hrules : linter.Bundled) {lexemes : List Lexeme}
    (hlexes : Lexes .start (lexemes.map Lexeme.piece)) :
    ∀ site ∈ (Layout.ofList Piece.isSpace (linter.tidyPieces lexemes)).sites,
      tidyGap linter.selects site = site.gap := by
  obtain ⟨specs, himplements, hspecs⟩ := exists_gapRules hrules
  have hafterCode := afterCode_of_lexes hlexes
  have hproper := Layout.proper_respace
    (Layout.proper_ofList Piece.isSpace (lexemes.map Lexeme.piece)) fun site hsite =>
      spaces_of_tidied (tidied_tidyGap (hafterCode site hsite) linter.selects)
        (hafterCode site hsite).spaces
  rw [tidyPieces, Layout.ofList_toList hproper, Layout.sites_respace]
  intro site' hsite'
  obtain ⟨site, hsite, rfl⟩ := List.mem_map.1 hsite'
  rw [← selectedBy_eq himplements]
  exact tidyGap_tidyGap hspecs (hafterCode site hsite)

/-- **Linting a repaired text again.** With the same selection the text of a repairing run is
clean exactly if no slash among the repaired pieces opens a regular expression, or else if the text
from the first such slash on can be lexed and the selection leaves its gaps alone. -/
theorem lintSource_again {options : Options} {linter : Linter}
    (hoptions : ofOptions Registry.bundled options = .ok linter) (hfix : options.fix = true)
    {source : String} {lexemes : List Lexeme}
    (hlexes : (Lexing.ofSource source).toExcept = .ok lexemes) (path : String) :
    ∃ linted, linter.lintSource source path = .ok linted ∧
      (linter.CleanAgain linted.report.manifest ↔
        ∀ tail ∈ fromOpening .start (linter.tidyPieces lexemes),
          linter.Regular (Piece.text tail)) := by
  obtain ⟨hfix', hrules⟩ := rules_of_ofOptions hoptions
  obtain ⟨linted, after, hlint, hdraft, hpieces⟩ :=
    lintSource_pieces (hfix'.trans hfix) hrules hlexes path
  refine ⟨linted, hlint, ?_⟩
  rw [cleanAgain_iff hrules, Report.manifest_of_draft hdraft, hpieces]
  exact regular_text_iff (relexes_tidyPieces hlexes)
    (tidy_tidyPieces hrules (Lexing.lexes_of_toExcept hlexes).1)

/-- A header over two lines is clean once it is repaired. -/
theorem lintSource_again_header :
    ∃ linter linted, ofOptions Registry.bundled ⟨true, [], [], .text defaultPattern⟩ = .ok linter ∧
      linter.lintSource "class\n  foo \x7b \x7d" "init.pp" = .ok linted ∧
      linter.CleanAgain linted.report.manifest := by
  have herror : (Lexing.ofSource "class\n  foo \x7b \x7d").error = none := by decide +kernel
  have hoptions : ofOptions Registry.bundled ⟨true, [], [], .text defaultPattern⟩ =
      .ok ⟨true, Registry.bundled.rules⟩ := rfl
  obtain ⟨linted, hlint, hclean⟩ :=
    lintSource_again hoptions rfl (Lexing.toExcept_of_error herror) "init.pp"
  refine ⟨_, linted, hoptions, hlint, hclean.2 fun tail htail => ?_⟩
  have hnone : fromOpening .start ((Linter.mk true Registry.bundled.rules).tidyPieces
      ((Lexing.ofSource "class\n  foo \x7b \x7d").lexemes.filter fun lexeme =>
        lexeme.kind != .endOfFile)) = none := by decide +kernel
  rw [hnone] at htail
  cases htail

/-- The quote that is left over makes the repaired text one that cannot be lexed. -/
theorem lintSource_again_slash :
    ∃ linter linted, ofOptions Registry.bundled ⟨true, [], [], .text defaultPattern⟩ = .ok linter ∧
      (Lexing.ofSource "/ class\nfoo \" / \"").error = none ∧
      linter.lintSource "/ class\nfoo \" / \"" "init.pp" = .ok linted ∧
      linted.report.manifest = "/ class foo \" / \"" ∧
      (Lexing.ofSource linted.report.manifest).error = some ⟨.unterminatedText, ⟨1, 17⟩⟩ ∧
      ¬linter.CleanAgain linted.report.manifest := by
  obtain ⟨linted, hlint, hmanifest⟩ := lintSource_strandedQuote
  have herror : (Lexing.ofSource "/ class foo \" / \"").error =
      some ⟨.unterminatedText, ⟨1, 17⟩⟩ := by decide +kernel
  refine ⟨_, linted, rfl, by decide +kernel, hlint, hmanifest, ?_, ?_⟩
  · rw [hmanifest, herror]
  · rintro ⟨hnone, -⟩
    rw [hmanifest, herror] at hnone
    cases hnone

end Linter

end ManifestLint
