import ManifestLint.Proofs.Lint.CodeKept
import ManifestLint.Proofs.Lint.FixedText
import ManifestLint.Proofs.Token.Lossless

set_option autoImplicit false

/-! # The source is kept

As long as nothing is repaired a source stays what it is, in every form it takes: as lexemes, as
the stream they are put into, and as the text of a report (`source_kept`). A source that cannot be
lexed is kept up to the error, and the position of the error says how much that is. -/

namespace ManifestLint

namespace Lexing

/-- The lexing has read all of the source: one empty lexeme closes it, and the values of all
lexemes are the source. -/
structure Completes (lexing : Lexing) (source : String) : Prop where
  closed : ∃ front position, lexing.lexemes = front ++ [⟨.endOfFile, "", position⟩] ∧
    ∀ lexeme ∈ front, lexeme.Proper
  text_eq : lexing.text = source

/-- The lexing has read the source up to a position: the values of its lexemes are the one
beginning of the source that ends there. -/
structure BreaksOff (lexing : Lexing) (source : String) (position : Position) : Prop where
  proper : ∀ lexeme ∈ lexing.lexemes, lexeme.Proper
  text_prefix : lexing.text.toList <+: source.toList
  endOf_iff : ∀ front, front <+: source.toList →
    (Position.endOf front = position ↔ front = lexing.text.toList)

theorem completes_of_error {source : String} (h : (ofSource source).error = none) :
    (ofSource source).Completes source := by
  obtain ⟨front, rest, hproper, hchars, ⟨hnil, hclosed⟩ | ⟨-, fault, hbroken⟩⟩ :=
    ofChars_lossless .start .start source.toList
  · have hlexing : ofSource source = _ := hclosed
    have htext : (ofSource source).text.toList = source.toList := by
      rw [toList_text, hlexing, pieces, List.map_append, Piece.charsOf_append, ← hchars, hnil]
      rfl
    rw [hlexing] at htext ⊢
    exact ⟨⟨front, _, rfl, hproper⟩, String.toList_injective htext⟩
  · have hlexing : ofSource source = _ := hbroken
    rw [hlexing] at h
    cases h

theorem breaksOff_of_error {source : String} {e : LexError}
    (h : (ofSource source).error = some e) :
    (ofSource source).BreaksOff source e.position := by
  obtain ⟨front, rest, hproper, hchars, ⟨-, hclosed⟩ | ⟨-, fault, hbroken⟩⟩ :=
    ofChars_lossless .start .start source.toList
  · have hlexing : ofSource source = _ := hclosed
    rw [hlexing] at h
    cases h
  · have hlexing : ofSource source = _ := hbroken
    have htext : (ofSource source).text.toList = Piece.charsOf (front.map Lexeme.piece) := by
      rw [toList_text, hlexing]
      rfl
    have hposition : e.position = Position.endOf (ofSource source).text.toList := by
      rw [htext, ← Position.start_after]
      rw [hlexing] at h
      cases h
      rfl
    have hprefix : (ofSource source).text.toList <+: source.toList := by
      rw [htext]
      exact ⟨rest, hchars⟩
    refine ⟨?_, hprefix, fun beginning hbeginning => ?_⟩
    · rw [hlexing]
      exact hproper
    · rw [hposition]
      exact ⟨Position.endOf_inj hbeginning hprefix, congrArg Position.endOf⟩

end Lexing

/-- The stream of a source that can be lexed has the text of the source. -/
theorem Draft.render_ofSource {source name : String} {draft : Draft}
    (h : Draft.ofSource source name = .ok draft) : draft.render = source := by
  obtain ⟨lexemes, hlexes, rfl⟩ := exists_lexemes h
  apply String.toList_injective
  rw [render_eq, Piece.toList_text, pieces_ofLexemes]
  exact (Lexing.lexes_of_toExcept hlexes).2

theorem Draft.ofSource_of_error {source : String} (h : (Lexing.ofSource source).error = none)
    (name : String) : ∃ draft, Draft.ofSource source name = .ok draft := by
  rw [ofSource, Lexing.toExcept_of_error h]
  exact ⟨_, rfl⟩

namespace Linter

variable {linter : Linter}

/-! ## Runs without repairs -/

theorem readsOnly_resolveAll (hfix : linter.fix = false) (rule : Rule) (path : String)
    (findings : List Finding) : (linter.resolveAll rule path findings).ReadsOnly := by
  induction findings with
  | nil => exact .pure _
  | cons finding rest ih =>
      have hfirst : (linter.resolve rule path finding).ReadsOnly := by
        unfold resolve
        rw [hfix]
        exact .pure _
      exact hfirst.bind fun _ => ih.bind fun _ => .pure _

/-- Without repairs a run only reads if its checks do. -/
theorem readsOnly_runRules (hfix : linter.fix = false) {rules : List Rule}
    (hrules : ∀ rule ∈ rules, rule.check.ReadsOnly) (path : String) :
    (linter.runRules path rules).ReadsOnly := by
  induction rules with
  | nil => exact .pure _
  | cons rule rest ih =>
      rw [List.forall_mem_cons] at hrules
      have hrule : (linter.runRule path rule).ReadsOnly := hrules.1.bind fun findings =>
        (readsOnly_resolveAll hfix rule path findings).bind fun _ => .pure _
      exact hrule.bind fun _ => (ih hrules.2).bind fun _ => .pure _

/-- What a run that only reads reports is the source as it was, whether it can be lexed or not. -/
theorem manifest_of_readsOnly (hfix : linter.fix = false)
    (hrules : ∀ rule ∈ linter.rules, rule.check.ReadsOnly) {source path : String}
    {linted : Linted} (hlint : linter.lintSource source path = .ok linted) :
    linted.report.manifest = source := by
  unfold lintSource at hlint
  cases hdraft : Draft.ofSource source path with
  | error e =>
      simp only [hdraft] at hlint
      cases hlint
      rfl
  | ok draft =>
      simp only [hdraft] at hlint
      cases hrun : (linter.run path).run draft with
      | error fault after =>
          simp only [hrun] at hlint
          cases hlint
      | ok transcript after =>
          simp only [hrun] at hlint
          cases hlint
          have hfinal : (linter.run path).final draft = after := Edit.final_of_ok hrun
          -- the draft that is left is the one of the source, perhaps with its cache refreshed
          have hentries : after.entries = draft.entries := by
            rcases readsOnly_runRules hfix hrules path draft with hsame | hfresh
            · rw [← hfinal, run, hsame]
            · rw [← hfinal, run, hfresh, Draft.entries_refreshed]
          show after.render = source
          rw [Draft.render_eq, Draft.pieces_eq, hentries, ← Draft.pieces_eq, ← Draft.render_eq]
          exact Draft.render_ofSource hdraft

/-- A run of bundled rules without repairs comes to its end. -/
theorem exists_lintSource (hfix : linter.fix = false) (hrules : linter.Bundled)
    (source path : String) : ∃ linted, linter.lintSource source path = .ok linted := by
  cases herror : (Lexing.ofSource source).error with
  | some e => exact ⟨_, lintSource_of_error herror path⟩
  | none =>
      obtain ⟨specs, himplements, -⟩ := exists_gapRules hrules
      obtain ⟨transcript, hreads, -⟩ := runRules_reads hfix himplements path
        ⟨(Draft.ofLexemes path _).entries, (Draft.ofLexemes path _).pool.size⟩
      obtain ⟨linted, after, hlint, -⟩ :=
        lintSource_of_turns (Lexing.toExcept_of_error herror) path hreads
      exact ⟨linted, hlint⟩

end Linter

/-- **The source is kept.** A lexing without an error reads the whole source, and the stream of
its tokens has the source for its text; a lexing that is broken off has read the source up to the
position of the error. Either way a run without repairs reports the source as it was, if its
checks only read, and with the bundled rules it comes to its end. -/
theorem source_kept (source : String) :
    ((Lexing.ofSource source).error = none →
      (Lexing.ofSource source).Completes source ∧
        ∀ name, ∃ draft, Draft.ofSource source name = .ok draft ∧ draft.render = source) ∧
    (∀ e, (Lexing.ofSource source).error = some e →
      (Lexing.ofSource source).BreaksOff source e.position) ∧
    ∀ (linter : Linter) (path : String), linter.fix = false →
      ((∀ rule ∈ linter.rules, rule.check.ReadsOnly) →
        ∀ linted, linter.lintSource source path = .ok linted →
          linted.report.manifest = source) ∧
      (linter.Bundled → ∃ linted, linter.lintSource source path = .ok linted ∧
        linted.report.manifest = source) := by
  refine ⟨fun hnone => ⟨Lexing.completes_of_error hnone, fun name => ?_⟩,
    fun e he => Lexing.breaksOff_of_error he, fun linter path hfix => ⟨?_, fun hrules => ?_⟩⟩
  · obtain ⟨draft, hdraft⟩ := Draft.ofSource_of_error hnone name
    exact ⟨draft, hdraft, Draft.render_ofSource hdraft⟩
  · intro hrules linted hlint
    exact Linter.manifest_of_readsOnly hfix hrules hlint
  · obtain ⟨linted, hlint⟩ := Linter.exists_lintSource hfix hrules source path
    exact ⟨linted, hlint, Linter.manifest_of_readsOnly hfix
      (fun rule hrule => (gentle_bundled rule (hrules rule hrule)).check.readsOnly) hlint⟩

/-- A quote on the second line is never closed: what is read is all that comes before it, and a
run without repairs reports the source as it was all the same. -/
theorem source_kept_unclosed :
    (∃ e, (Lexing.ofSource "a\r\n\"b").error = some e ∧
      (Lexing.ofSource "a\r\n\"b").BreaksOff "a\r\n\"b" e.position) ∧
    (Lexing.ofSource "a\r\n").Completes "a\r\n" ∧
    ∃ linted, (Linter.mk false Registry.bundled.rules).lintSource "a\r\n\"b" "init.pp" =
        .ok linted ∧ linted.report.manifest = "a\r\n\"b" := by
  have hbroken : (Lexing.ofSource "a\r\n\"b").error = some ⟨.unterminatedText, ⟨2, 1⟩⟩ := by
    decide +kernel
  have hclosed : (Lexing.ofSource "a\r\n").error = none := by decide +kernel
  refine ⟨⟨_, hbroken, (source_kept "a\r\n\"b").2.1 _ hbroken⟩,
    ((source_kept "a\r\n").1 hclosed).1, ?_⟩
  exact ((source_kept "a\r\n\"b").2.2 ⟨false, Registry.bundled.rules⟩ "init.pp" rfl).2
    fun _ hrule => hrule

end ManifestLint
