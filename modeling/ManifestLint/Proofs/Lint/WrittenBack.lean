import ManifestLint.Lint.Files
import ManifestLint.Proofs.File.Path
import ManifestLint.Proofs.File.Tree
import ManifestLint.Proofs.Layout.Respaced
import ManifestLint.Proofs.Lint.FixedText
import ManifestLint.Proofs.Text.Encoding

set_option autoImplicit false

/-! # Files are written back in their encoding

The text that a repairing run makes of a source is the source respaced (`lintSource_respaced`),
so that it can be written in the encoding the source was read in, and is read in that encoding
again (`encoding_kept`). -/

namespace ManifestLint

namespace Linter

variable {linter : Linter}

/-- A report is about the source and the path that were given. -/
theorem report_of_lintSource {source path : String} {linted : Linted}
    (h : linter.lintSource source path = .ok linted) :
    linted.report.source = source ∧ linted.report.path = path := by
  unfold lintSource at h
  cases hdraft : Draft.ofSource source path with
  | error e =>
      simp only [hdraft] at h
      cases h
      exact ⟨rfl, rfl⟩
  | ok draft =>
      simp only [hdraft] at h
      cases hrun : (linter.run path).run draft with
      | error fault after =>
          simp only [hrun] at h
          cases h
      | ok transcript after =>
          simp only [hrun] at h
          cases h
          exact ⟨rfl, rfl⟩

/-- **A repairing run respaces the source.** A source that cannot be lexed stays as it is. -/
theorem lintSource_respaced (hfix : linter.fix = true) (hrules : linter.Bundled)
    (source path : String) :
    ∃ linted, linter.lintSource source path = .ok linted ∧
      Respaced source.toList linted.report.manifest.toList := by
  cases herror : (Lexing.ofSource source).error with
  | some e => exact ⟨_, lintSource_of_error herror path, .refl _⟩
  | none =>
      have hlexes := Lexing.toExcept_of_error herror
      obtain ⟨hlexed, hchars⟩ := Lexing.lexes_of_toExcept hlexes
      obtain ⟨linted, after, hlint, hdraft, hpieces⟩ :=
        lintSource_pieces hfix hrules hlexes path
      refine ⟨linted, hlint, ?_⟩
      rw [Report.manifest_of_draft hdraft, hpieces, Piece.toList_text, ← hchars]
      exact respaced_respace hlexed (tidied_of_lexes hlexed linter.selects)

theorem lintBytes_eq {bytes : ByteArray} {path : String} {linted : Linted}
    (h : linter.lintSource (Encoding.decode bytes).1 path = .ok linted) :
    linter.lintBytes bytes path =
      .ok { linted with
        report := { linted.report with encoding := (Encoding.decode bytes).2 } } := by
  show (linter.lintSource (Encoding.decode bytes).1 path).map _ = _
  rw [h]
  rfl

theorem lintFiles_singleton {tree : Tree} {path : Path} {bytes : ByteArray} {linted : Linted}
    (hread : tree.read path = .ok bytes)
    (hlint : linter.lintBytes bytes path.shown = .ok linted) :
    linter.lintFiles tree [path] = .ok [linted] := by
  unfold lintFiles
  rw [hread]
  show (do let linted ← (linter.lintBytes bytes path.shown).mapError LintFault.run; _) = _
  rw [hlint]
  rfl

end Linter

/-- Writing a report back stores its text in its encoding; if the text has not changed nothing is
written, and the file holds it already. -/
theorem read_writeFixes {tree : Tree} {path : Path} (hpath : path.Normal) {bytes stored : ByteArray}
    (hread : tree.read path = .ok bytes) {report : Report} (hreport : report.path = path.shown)
    (hencode : report.encoding.encode? report.manifest = some stored)
    (hsame : report.manifest = report.source → stored = bytes) :
    ∃ written, writeFixes tree report = some written ∧ written.tree.read path = .ok stored := by
  unfold writeFixes
  by_cases hchanged : report.changed = true
  · rw [if_pos hchanged, hencode]
    refine ⟨_, rfl, ?_⟩
    show (tree.write (Path.ofString report.path) stored).read path = .ok stored
    rw [hreport, hpath.ofString_shown]
    exact Tree.read_write hread stored
  · have hmanifest : report.manifest = report.source := by
      simpa [Report.changed] using hchanged
    rw [if_neg hchanged, hsame hmanifest]
    exact ⟨_, rfl, hread⟩

/-- **Encodings survive a repair.** What a file is read as is written back as the same bytes. And
when the file is linted in a repairing run of bundled rules, then its new text can be written in
the encoding the old one was read in, that is what is stored in the file, and it is read as the
new text in the same encoding. -/
theorem encoding_kept (bytes : ByteArray) :
    (Encoding.decode bytes).2.encode? (Encoding.decode bytes).1 = some bytes ∧
    ∀ (linter : Linter) (tree : Tree) (path : Path), linter.fix = true → linter.Bundled →
      path.Normal → tree.read path = .ok bytes →
      ∃ linted stored written,
        linter.lintFiles tree [path] = .ok [linted] ∧
        linted.report.source = (Encoding.decode bytes).1 ∧
        linted.report.encoding = (Encoding.decode bytes).2 ∧
        linted.report.encoding.encode? linted.report.manifest = some stored ∧
        writeFixes tree linted.report = some written ∧
        written.tree.read path = .ok stored ∧
        Encoding.decode stored = (linted.report.manifest, (Encoding.decode bytes).2) := by
  have hback := Encoding.encode?_decode bytes
  refine ⟨hback, fun linter tree path hfix hrules hpath hread => ?_⟩
  obtain ⟨linted, hlint, hrespaced⟩ :=
    Linter.lintSource_respaced hfix hrules (Encoding.decode bytes).1 path.shown
  obtain ⟨hsource, hreport⟩ := Linter.report_of_lintSource hlint
  obtain ⟨stored, hencode, hdecode⟩ := Encoding.decode_encode?_of_respaced hrespaced
  let report : Report := { linted.report with encoding := (Encoding.decode bytes).2 }
  have hlinted : linter.lintFiles tree [path] = .ok [⟨report, linted.log⟩] :=
    Linter.lintFiles_singleton hread (Linter.lintBytes_eq hlint)
  have hplace : report.path = path.shown := hreport
  have hstore : report.encoding.encode? report.manifest = some stored := hencode
  -- an unchanged text is written as the bytes that are there
  have hsame : report.manifest = report.source → stored = bytes := by
    intro hmanifest
    have htext : linted.report.manifest = (Encoding.decode bytes).1 := hmanifest.trans hsource
    rw [htext, hback] at hencode
    exact (Option.some.inj hencode).symm
  obtain ⟨written, hwrite, hstored⟩ := read_writeFixes hpath hread hplace hstore hsame
  exact ⟨⟨report, linted.log⟩, stored, written, hlinted, hsource, rfl, hstore, hwrite, hstored,
    hdecode⟩

/-- A file that is no UTF-8: a comment with an accented letter, and a class whose body follows its
name directly. A space is put in, and the file is still read as what it is. -/
theorem encoding_kept_latin1 :
    let bytes : ByteArray :=
      ⟨#[0x23, 0xE9, 0x0A, 0x63, 0x6C, 0x61, 0x73, 0x73, 0x20, 0x61, 0x7B, 0x7D]⟩
    let tree : Tree := ⟨[], [(["init.pp"], bytes)], []⟩
    let linter : Linter := ⟨true, Registry.bundled.rules⟩
    Encoding.decode bytes = ("#é\nclass a\x7b\x7d", .latin1) ∧
    ∃ linted stored written,
      linter.lintFiles tree [.ofString "init.pp"] = .ok [linted] ∧
      writeFixes tree linted.report = some written ∧
      written.tree.read (.ofString "init.pp") = .ok stored ∧
      Encoding.decode stored = (linted.report.manifest, .latin1) := by
  intro bytes tree linter
  have hdecode : Encoding.decode bytes = ("#é\nclass a\x7b\x7d", .latin1) := by decide +kernel
  obtain ⟨linted, stored, written, hlint, -, -, -, hwrite, hread, hstored⟩ :=
    (encoding_kept bytes).2 linter tree (.ofString "init.pp") rfl (fun _ hrule => hrule)
      (Path.normal_ofString "init.pp") rfl
  rw [hdecode] at hstored
  exact ⟨hdecode, linted, stored, written, hlint, hwrite, hread, hstored⟩

end ManifestLint
