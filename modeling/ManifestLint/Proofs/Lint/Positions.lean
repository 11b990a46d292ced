import ManifestLint.Proofs.Lint.Complaints
import ManifestLint.Proofs.Lint.Flaws

set_option autoImplicit false

/-! # Positions are those of the text

A position is counted on while a text is read, and nothing looks back at the text to check it. All
the same the position of each lexeme is the one where the text before it ends, and the tokens of a
stream keep the positions of their lexemes. So what the bundled rules report on the stream of a
source says where in the source it is, as long as nothing has been edited
(`positions_of_source`). -/

namespace ManifestLint

/-- How many characters the pieces say. -/
def Piece.lengthOf : List Piece → Nat
  | [] => 0
  | piece :: rest => piece.value.length + lengthOf rest

theorem Piece.length_charsOf (pieces : List Piece) :
    (charsOf pieces).length = lengthOf pieces := by
  induction pieces with
  | nil => rfl
  | cons piece rest ih =>
      rw [charsOf_cons, List.length_append, ih]
      rfl

/-- The position in a text where the pieces end that the text begins with. -/
def Position.behind (text : String) (pieces : List Piece) : Position :=
  endOf (text.toList.take (Piece.lengthOf pieces))

theorem Position.behind_eq {text : String} {pieces : List Piece}
    (h : Piece.charsOf pieces <+: text.toList) :
    behind text pieces = endOf (Piece.charsOf pieces) := by
  rw [behind, ← Piece.length_charsOf, ← List.prefix_iff_eq_take.1 h]

variable {source name : String} {draft : Draft}

/-- Each lexeme of a source stands where the text of those before it ends. -/
theorem Lexing.position_eq {front : List Lexeme} {lexeme : Lexeme}
    (h : front ++ [lexeme] <+: (ofSource source).lexemes) :
    lexeme.position = .behind source (front.map Lexeme.piece) := by
  have hfront : front <+: (ofSource source).lexemes := (List.prefix_append front _).trans h
  rw [Position.behind_eq (charsOf_front hfront), ← Position.start_after]
  exact (exists_fits_behind h).1

/-- The first tokens of a stream that was made of lexemes are the first of the lexemes. -/
theorem Lexeme.exists_of_entriesFrom {first : TokenId} {lexemes : List Lexeme}
    {front back : List Entry} {entry : Entry}
    (h : entriesFrom first lexemes = front ++ entry :: back) :
    ∃ lead lexeme, lead ++ [lexeme] <+: lexemes ∧ lead.map piece = front.map Entry.piece ∧
      lexeme.position = entry.position := by
  induction front generalizing first lexemes with
  | nil =>
      cases lexemes with
      | nil => cases h
      | cons lexeme others =>
          obtain ⟨rfl, -⟩ := List.cons.inj h
          exact ⟨[], lexeme, ⟨others, rfl⟩, rfl, rfl⟩
  | cons head front ih =>
      cases lexemes with
      | nil => cases h
      | cons lexeme others =>
          obtain ⟨rfl, hrest⟩ := List.cons.inj h
          obtain ⟨lead, found, hlead, hpieces, hposition⟩ := ih hrest
          refine ⟨lexeme :: lead, found, (List.prefix_cons_inj lexeme).2 hlead, ?_, hposition⟩
          rw [List.map_cons, List.map_cons, hpieces]

/-- Each token of a source stands where the text of those before it ends. -/
theorem Draft.position_eq (h : Draft.ofSource source name = .ok draft) {front back : List Entry}
    {entry : Entry} (hsplit : draft.entries = front ++ entry :: back) :
    entry.position = .behind source (front.map Entry.piece) := by
  obtain ⟨lexemes, hlexes, rfl⟩ := exists_lexemes h
  rw [entries_ofLexemes] at hsplit
  obtain ⟨lead, lexeme, hlead, hpieces, hposition⟩ := Lexeme.exists_of_entriesFrom hsplit
  have hall : lexemes <+: (Lexing.ofSource source).lexemes := by
    rw [← Lexing.tokens_of_toExcept hlexes]
    exact Lexing.tokens_begin _ _ _
  rw [← hposition, ← hpieces]
  exact Lexing.position_eq (hlead.trans hall)

/-- A stream that was only looked at shows what it showed before. -/
theorem Draft.Shows.final {α : Type} {reader : Edit α} {view : View} (h : draft.Shows view)
    (hreader : reader.ReadsOnly) : (reader.final draft).Shows view := by
  rcases hreader draft with hsame | hfresh
  · rw [hsame]
    exact h
  · rw [hfresh]
    exact h.refreshed

/-- The finding is about a token among the entries, its anchor, and has the position of that, which
is where the text of the entries before it ends. -/
def Finding.PlacedIn (source : String) (entries : List Entry) (finding : Finding) : Prop :=
  ∃ front anchor back, entries = front ++ anchor :: back ∧ finding.token = some anchor.id ∧
    finding.position = anchor.position ∧
    anchor.position = .behind source (front.map Entry.piece)

theorem placedIn_of_finding (h : Draft.ofSource source name = .ok draft) {spec : GapRule}
    (hspec : spec ∈ bundledGapRules) {site : Site Entry} {pre post : List Entry}
    (hwithin : site.Within Entry.isSpace draft.entries pre post) {finding : Finding}
    (hfinding : spec.finding site = some finding) : finding.PlacedIn source draft.entries := by
  obtain ⟨-, anchor, hanchor, rfl⟩ := GapRule.not_settled_of_finding hfinding
  obtain ⟨front, back, hsplit⟩ :=
    List.append_of_mem (hwithin.mem (anchor_mem hspec hanchor))
  exact ⟨front, anchor, back, hsplit, rfl, rfl, Draft.position_eq h hsplit⟩

/-- **Positions are those of the text.** Each lexeme of a source stands where the text of those
before it ends, whatever comes of the rest of the source. If the source can be lexed, and its stream
has only been looked at since, each bundled rule can be checked on it, and whatever it finds stands
where the text before its anchor ends. -/
theorem positions_of_source (source : String) :
    (∀ front lexeme, front ++ [lexeme] <+: (Lexing.ofSource source).lexemes →
        lexeme.position = .behind source (front.map Lexeme.piece)) ∧
      ∀ name draft, Draft.ofSource source name = .ok draft →
        ∀ (α : Type) (reader : Edit α), reader.ReadsOnly → ∀ rule ∈ Registry.bundled.rules,
          ∃ findings after, rule.check.run (reader.final draft) = .ok findings after ∧
            ∀ finding ∈ findings, finding.PlacedIn source draft.entries := by
  refine ⟨fun front lexeme h => Lexing.position_eq h, ?_⟩
  intro name draft h α reader hreader rule hrule
  obtain ⟨spec, hspec, himplements⟩ := exists_gapRule hrule
  have hshows := (Draft.shows_of_owned (Draft.owned_ofSource h)).final hreader
  obtain ⟨after, hrun, -⟩ := himplements.check_reads _ _ hshows
  refine ⟨_, after, hrun, fun finding hmem => ?_⟩
  obtain ⟨site, hsite, hfinding⟩ := List.mem_filterMap.1 hmem
  obtain ⟨pre, post, hwithin⟩ := View.exists_within hsite
  exact placedIn_of_finding h hspec hwithin hfinding

/-- A header behind a text with a line feed in it, with two spaces before its name. -/
theorem positions_of_source_header :
    (⟨3, 1⟩ : Position) =
        .behind "'\n'\r\nclass  x" [⟨.quotedText, "'\n'"⟩, ⟨.newline, "\r\n"⟩] ∧
      ∃ draft findings after, Draft.ofSource "'\n'\r\nclass  x" "init.pp" = .ok draft ∧
        ClassHeader.checkNameBefore.run draft = .ok findings after ∧
        findings.map Finding.position = [⟨3, 6⟩] ∧
        ∀ finding ∈ findings, finding.PlacedIn "'\n'\r\nclass  x" draft.entries := by
  obtain ⟨hlexeme, hchecks⟩ := positions_of_source "'\n'\r\nclass  x"
  refine ⟨hlexeme [⟨.quotedText, "'\n'", ⟨1, 1⟩⟩, ⟨.newline, "\r\n", ⟨2, 2⟩⟩]
    ⟨.classWord, "class", ⟨3, 1⟩⟩ (by decide +kernel), ?_⟩
  obtain ⟨draft, h⟩ := Draft.ofSource_of_error
    (show (Lexing.ofSource "'\n'\r\nclass  x").error = none by decide +kernel) "init.pp"
  obtain ⟨findings, after, hrun, hplaced⟩ :=
    hchecks "init.pp" draft h Unit (pure ()) (.pure ()) ClassHeader.nameBeforeRule
      (by simp [Registry.bundled])
  have hrun' : ClassHeader.checkNameBefore.run draft = .ok findings after := hrun
  have hfound : anchorsIn? ClassHeader.checkNameBefore "'\n'\r\nclass  x" "init.pp" =
      some [(some 3, ⟨3, 6⟩)] := by
    decide +kernel
  rw [anchorsIn?, h, Except.toOption, Option.bind_some, hrun'] at hfound
  have hplaces := congrArg (List.map Prod.snd) (Option.some.inj hfound)
  rw [List.map_map] at hplaces
  exact ⟨draft, findings, after, h, hrun', hplaces, hplaced⟩

end ManifestLint
