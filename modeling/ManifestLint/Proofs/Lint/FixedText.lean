import ManifestLint.Lint.Report
import ManifestLint.Proofs.Lint.Tidy

set_option autoImplicit false

/-! # The text after a repairing run

A source that can be lexed is repaired by any selection of bundled rules without a fault, and what
comes out is known in advance: each gap is what the selection makes of it, and everything else is
as it was (`lintSource_manifest`). The order of the rules and repetitions make no difference.

Lexing the new text gives the tokens of the repaired stream again, or gives them up to a slash
that is taken for the beginning of a regular expression (`lintSource_relex`). -/

namespace ManifestLint

/-! ## The view of a source -/

/-- The stream of a source holds its lexemes. -/
theorem Draft.exists_lexemes {source name : String} {draft : Draft}
    (h : Draft.ofSource source name = .ok draft) :
    ∃ lexemes, (Lexing.ofSource source).toExcept = .ok lexemes ∧
      draft = .ofLexemes name lexemes := by
  unfold ofSource at h
  cases hlexes : (Lexing.ofSource source).toExcept with
  | error e =>
      rw [hlexes] at h
      cases h
  | ok lexemes =>
      rw [hlexes] at h
      exact ⟨lexemes, rfl, (Except.ok.inj h).symm⟩

theorem Draft.pieces_of_shows {draft : Draft} {view : View} (h : draft.Shows view) :
    draft.pieces = view.pieceLayout.toList := by
  rw [pieces_eq, h.entries_eq, View.pieceLayout_eq, Layout.toList_ofList]

theorem View.pieceLayout_ofLexemes (name : String) (lexemes : List Lexeme) :
    View.pieceLayout ⟨(Draft.ofLexemes name lexemes).entries,
        (Draft.ofLexemes name lexemes).pool.size⟩ =
      .ofList Piece.isSpace (lexemes.map Lexeme.piece) := by
  rw [View.pieceLayout_eq, ← Draft.pieces_eq, Draft.pieces_ofLexemes]

/-- The text after a run is that of the pieces of its stream. -/
theorem Report.manifest_of_draft {report : Report} {draft : Draft} (h : report.draft = some draft) :
    report.manifest = Piece.text draft.pieces := by
  rw [manifest, h]
  exact draft.render_eq

namespace Linter

/-- Decides whether a rule of the name is among those of the linter. -/
def selects (linter : Linter) (name : String) : Bool :=
  linter.rules.any fun rule => rule.name == name

/-- All rules of the linter are bundled ones; they can come in any order and repeatedly. -/
def Bundled (linter : Linter) : Prop := ∀ rule ∈ linter.rules, rule ∈ Registry.bundled.rules

/-- What a repairing run makes of lexemes: they are laid out as the spacing before the first
token, the tokens, and the gap after each of them, and each gap is what the selected rules make of
it. -/
def tidyPieces (linter : Linter) (lexemes : List Lexeme) : List Piece :=
  ((Layout.ofList Piece.isSpace (lexemes.map Lexeme.piece)).respace
    (tidyGap linter.selects)).toList

theorem selectedBy_eq {linter : Linter} {specs : List GapRule}
    (h : List.Forall₂ Rule.Implements linter.rules specs) :
    selectedBy specs = linter.selects := by
  funext name
  unfold selectedBy selects
  generalize linter.rules = rules at h
  induction h with
  | nil => rfl
  | cons hrule _ ih => rw [List.any_cons, List.any_cons, ih, hrule.name_eq]

variable {linter : Linter} {source : String} {lexemes : List Lexeme}

/-- A source that cannot be lexed is reported as it is, with the lexing error. -/
theorem lintSource_of_error {e : LexError} (herror : (Lexing.ofSource source).error = some e)
    (path : String) : linter.lintSource source path = .ok ⟨.ofLexError path source e, []⟩ := by
  have hsource : Draft.ofSource source path = .error e := by
    rw [Draft.ofSource, Lexing.toExcept, herror]
    rfl
  rw [lintSource, hsource]

theorem lintSource_of_turns (hlexes : (Lexing.ofSource source).toExcept = .ok lexemes)
    (path : String) {view : View} {transcript : Transcript}
    (h : (linter.run path).Turns
      ⟨(Draft.ofLexemes path lexemes).entries, (Draft.ofLexemes path lexemes).pool.size⟩
      transcript view) :
    ∃ linted after, linter.lintSource source path = .ok linted ∧
      linted.report.draft = some after ∧ after.Shows view ∧
      linted.report.problems = transcript.problems := by
  obtain ⟨after, hrun, hafter⟩ := h _ (Draft.shows_of_owned (Draft.owned_ofLexemes path lexemes))
  have hsource : Draft.ofSource source path = .ok (Draft.ofLexemes path lexemes) := by
    rw [Draft.ofSource, hlexes]
    rfl
  refine ⟨⟨⟨path, source, transcript.problems, some after, .utf8⟩, transcript.log⟩, after, ?_, rfl,
    hafter, rfl⟩
  rw [lintSource, hsource]
  simp only [hrun]

/-- A repairing run over a source ends well and leaves the lexemes with their gaps as the selection
wants them. -/
theorem lintSource_pieces (hfix : linter.fix = true) (hrules : linter.Bundled)
    (hlexes : (Lexing.ofSource source).toExcept = .ok lexemes) (path : String) :
    ∃ linted after, linter.lintSource source path = .ok linted ∧
      linted.report.draft = some after ∧ after.pieces = linter.tidyPieces lexemes := by
  obtain ⟨specs, himplements, hspecs⟩ := exists_gapRules hrules
  obtain ⟨view, transcript, hturns, hlayout, -⟩ := runRules_turns hfix himplements path
    ⟨(Draft.ofLexemes path lexemes).entries, (Draft.ofLexemes path lexemes).pool.size⟩
  obtain ⟨linted, after, hlint, hdraft, hshows, -⟩ := lintSource_of_turns hlexes path hturns
  refine ⟨linted, after, hlint, hdraft, ?_⟩
  have hgaps : (Layout.ofList Piece.isSpace (lexemes.map Lexeme.piece)).respace (regapAll specs) =
      (Layout.ofList Piece.isSpace (lexemes.map Lexeme.piece)).respace
        (tidyGap linter.selects) := by
    apply Layout.respace_congr
    intro site hsite
    have hafterCode := afterCode_of_lexes (Lexing.lexes_of_toExcept hlexes).1 site hsite
    rw [regapAll_eq_tidyGap hspecs hafterCode, selectedBy_eq himplements]
  calc after.pieces = view.pieceLayout.toList := Draft.pieces_of_shows hshows
    _ = ((Layout.ofList Piece.isSpace (lexemes.map Lexeme.piece)).respace
          (regapAll specs)).toList := by rw [hlayout, View.pieceLayout_ofLexemes]
    _ = linter.tidyPieces lexemes := by rw [hgaps, tidyPieces]

/-- Repaired pieces are read back, up to a slash at most that opens a regular expression. -/
theorem relexes_tidyPieces (hlexes : (Lexing.ofSource source).toExcept = .ok lexemes) :
    Relexes .start (linter.tidyPieces lexemes) := by
  have hlexed := (Lexing.lexes_of_toExcept hlexes).1
  exact relexes_respace hlexed (tidied_of_lexes hlexed linter.selects)

/-- **The text after a repairing run** is that of the repaired lexemes of the source: it has the
same tokens and the same spacing before the first one, and the gap after each token is what the
selected rules make of it, in whatever order they come and however often. -/
theorem lintSource_manifest (hfix : linter.fix = true) (hrules : linter.Bundled)
    (hlexes : (Lexing.ofSource source).toExcept = .ok lexemes) (path : String) :
    ∃ linted, linter.lintSource source path = .ok linted ∧
      linted.report.manifest = Piece.text (linter.tidyPieces lexemes) := by
  obtain ⟨linted, after, hlint, hdraft, hpieces⟩ := lintSource_pieces hfix hrules hlexes path
  refine ⟨linted, hlint, ?_⟩
  rw [Report.manifest_of_draft hdraft, hpieces]

/-- A header over two lines whose body begins with empty lines is repaired, and the two spaces in
front of it stay. -/
theorem lintSource_manifest_header :
    ∃ linted, (Linter.mk true Registry.bundled.rules).lintSource
        "  class\n    foo\x7b\n\n\n  \x7d" "init.pp" = .ok linted ∧
      linted.report.manifest = "  class foo \x7b\n  \x7d" := by
  have herror : (Lexing.ofSource "  class\n    foo\x7b\n\n\n  \x7d").error = none := by
    decide +kernel
  obtain ⟨linted, hlint, hmanifest⟩ := lintSource_manifest rfl
    (show (Linter.mk true Registry.bundled.rules).Bundled from fun _ hrule => hrule)
    (Lexing.toExcept_of_error herror) "init.pp"
  refine ⟨linted, hlint, hmanifest.trans ?_⟩
  decide +kernel

/-- **The text after a repairing run is read as its tokens**, and the only way in which it can be
read differently is that a slash comes to open a regular expression; up to that slash it is read
as the tokens of the stream. -/
theorem lintSource_relex (hfix : linter.fix = true) (hrules : linter.Bundled)
    (hlexes : (Lexing.ofSource source).toExcept = .ok lexemes) (path : String) :
    ∃ linted after, linter.lintSource source path = .ok linted ∧
      linted.report.draft = some after ∧
      (((Lexing.ofSource linted.report.manifest).error = none ∧
          (Lexing.ofSource linted.report.manifest).pieces = after.pieces ++ [.closing]) ∨
        ∃ front back body others, after.pieces = front ++ .bareSlash :: back ∧
          (Lexing.ofSource linted.report.manifest).pieces =
            front ++ ⟨.regex, String.ofList ('/' :: body)⟩ :: others) := by
  obtain ⟨linted, after, hlint, hdraft, hpieces⟩ := lintSource_pieces hfix hrules hlexes path
  refine ⟨linted, after, hlint, hdraft, ?_⟩
  rw [Report.manifest_of_draft hdraft, Lexing.ofSource, Piece.toList_text, hpieces]
  exact Lexing.pieces_of_relexes (relexes_tidyPieces hlexes) .start

/-! ## A quote that is left over -/

/-- A slash, a class header over two lines, and a slash in a quoted text. The header goes on one
line, and there the first slash opens a regular expression that ends inside the quotes. -/
def strandedQuote : String := "/ class\nfoo \" / \""

theorem lintSource_strandedQuote :
    ∃ linted, (Linter.mk true Registry.bundled.rules).lintSource strandedQuote "init.pp" =
        .ok linted ∧
      linted.report.manifest = "/ class foo \" / \"" := by
  have herror : (Lexing.ofSource strandedQuote).error = none := by decide +kernel
  have hrules : (Linter.mk true Registry.bundled.rules).Bundled := fun _ hrule => hrule
  obtain ⟨linted, after, hlint, hdraft, hpieces⟩ :=
    lintSource_pieces rfl hrules (Lexing.toExcept_of_error herror) "init.pp"
  refine ⟨linted, hlint, ?_⟩
  rw [Report.manifest_of_draft hdraft, hpieces]
  decide +kernel

/-- The repaired text of the two lines is read differently from the first slash on. -/
theorem lintSource_relex_strandedQuote :
    ∃ linted after front back body others,
      (Linter.mk true Registry.bundled.rules).lintSource strandedQuote "init.pp" = .ok linted ∧
      linted.report.draft = some after ∧ after.pieces = front ++ .bareSlash :: back ∧
      (Lexing.ofSource linted.report.manifest).pieces =
        front ++ ⟨.regex, String.ofList ('/' :: body)⟩ :: others := by
  have herror : (Lexing.ofSource strandedQuote).error = none := by decide +kernel
  have hrules : (Linter.mk true Registry.bundled.rules).Bundled := fun _ hrule => hrule
  obtain ⟨linted, after, hlint, hdraft, hrelex⟩ :=
    lintSource_relex rfl hrules (Lexing.toExcept_of_error herror) "init.pp"
  obtain ⟨linted', hlint', hmanifest⟩ := lintSource_strandedQuote
  obtain rfl : linted = linted' := Except.ok.inj (hlint.symm.trans hlint')
  rcases hrelex with ⟨hnone, -⟩ | ⟨front, back, body, others, hpieces, hregex⟩
  · have hsome : (Lexing.ofSource "/ class foo \" / \"").error.isSome = true := by decide +kernel
    rw [hmanifest] at hnone
    rw [hnone] at hsome
    cases hsome
  · exact ⟨linted, after, front, back, body, others, hlint, hdraft, hpieces, hregex⟩

end Linter

end ManifestLint
