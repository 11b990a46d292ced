import ManifestLint.Proofs.File.Expansion
import ManifestLint.Proofs.Lint.Relint
import ManifestLint.Proofs.Lint.SourceKept
import ManifestLint.Proofs.Lint.WrittenBack

set_option autoImplicit false

/-! # Files are repaired independently

Paths are expanded to files, the files are linted, and then the reports are written back one after
another. What becomes of a file in all this is a function of its own bytes and of the settings
(`Linter.bytesAfter`): all files are read before the first one is written, a file that comes
several times is written with the same bytes each time, and writing leaves every other location as
it is. So the files that the paths stand for end as that function says, and all others as they
were (`lintPaths_independent`). -/

namespace ManifestLint

/-! ## One file -/

namespace Linter

variable {linter : Linter}

/-- What is stored in a file with the given bytes after it was linted and its report was written
back: the text of the report in the encoding the file was read in if the text has changed, and
what was there otherwise. What the file is called does not matter (`lintBytes_reports`). -/
def bytesAfter (linter : Linter) (bytes : ByteArray) : ByteArray :=
  match linter.lintBytes bytes "" with
  | .error _ => bytes
  | .ok linted =>
    if linted.report.changed then
      (linted.report.encoding.encode? linted.report.manifest).getD bytes
    else bytes

/-- The text that a run makes of a source, whatever the source is called; it is the source
respaced, and it is the source itself if nothing is to be repaired or the source cannot be
lexed. -/
theorem exists_text (hrules : linter.Bundled) (source : String) :
    ∃ text : String, Respaced source.toList text.toList ∧
      (∀ path, ∃ linted, linter.lintSource source path = .ok linted ∧
        linted.report.manifest = text) ∧
      (linter.fix = false ∨ (Lexing.ofSource source).error.isSome = true → text = source) := by
  cases hfix : linter.fix with
  | false =>
      refine ⟨source, .refl _, fun path => ?_, fun _ => rfl⟩
      obtain ⟨linted, hlint⟩ := exists_lintSource hfix hrules source path
      exact ⟨linted, hlint, manifest_of_readsOnly hfix
        (fun rule hrule => (gentle_bundled rule (hrules rule hrule)).check.readsOnly) hlint⟩
  | true =>
      cases herror : (Lexing.ofSource source).error with
      | some e =>
          exact ⟨source, .refl _, fun path => ⟨_, lintSource_of_error herror path, rfl⟩,
            fun _ => rfl⟩
      | none =>
          obtain ⟨lexemes, hlexes⟩ := (error_eq_none_iff _).1 herror
          have hmanifest : ∀ path, ∃ linted, linter.lintSource source path = .ok linted ∧
              linted.report.manifest = Piece.text (linter.tidyPieces lexemes) := by
            intro path
            obtain ⟨linted, after, hlint, hdraft, hpieces⟩ :=
              lintSource_pieces hfix hrules hlexes path
            exact ⟨linted, hlint, by rw [Report.manifest_of_draft hdraft, hpieces]⟩
          refine ⟨_, ?_, hmanifest, by simp⟩
          obtain ⟨linted, hlint, hrespaced⟩ := lintSource_respaced hfix hrules source ""
          obtain ⟨linted', hlint', htext⟩ := hmanifest ""
          obtain rfl : linted = linted' := Except.ok.inj (hlint.symm.trans hlint')
          rwa [htext] at hrespaced

/-- The report is one on a file with the given bytes: it can be written back, and that stores in
the file what is said to become of it. -/
structure Reports (linter : Linter) (bytes : ByteArray) (path : String) (report : Report) :
    Prop where
  path : report.path = path
  source : report.source = (Encoding.decode bytes).1
  encoding : report.encoding = (Encoding.decode bytes).2
  encode : report.encoding.encode? report.manifest = some (linter.bytesAfter bytes)
  unchanged : report.manifest = report.source → linter.bytesAfter bytes = bytes

/-- **Linting a file** always gives a report, and what is to be stored in the file is the same
whatever the file is called. -/
theorem lintBytes_reports (hrules : linter.Bundled) (bytes : ByteArray) (path : String) :
    ∃ linted, linter.lintBytes bytes path = .ok linted ∧
      linter.Reports bytes path linted.report := by
  obtain ⟨text, hrespaced, htext, -⟩ := exists_text hrules (Encoding.decode bytes).1
  obtain ⟨stored, hstored, -⟩ := Encoding.decode_encode?_of_respaced hrespaced
  -- a text that has not changed is written as the bytes that are there
  have hsame : text = (Encoding.decode bytes).1 → stored = bytes := by
    intro heq
    rw [heq, Encoding.encode?_decode] at hstored
    exact (Option.some.inj hstored).symm
  have hafter : linter.bytesAfter bytes = stored := by
    obtain ⟨linted, hlint, hmanifest⟩ := htext ""
    have hsource := (report_of_lintSource hlint).1
    unfold bytesAfter
    rw [lintBytes_eq hlint]
    show (if (linted.report.manifest != linted.report.source) = true then
      ((Encoding.decode bytes).2.encode? linted.report.manifest).getD bytes else bytes) = stored
    rw [hmanifest, hsource, hstored]
    split
    · rfl
    · rename_i hunchanged
      exact (hsame (by simpa using hunchanged)).symm
  obtain ⟨linted, hlint, hmanifest⟩ := htext path
  obtain ⟨hsource, hpath⟩ := report_of_lintSource hlint
  refine ⟨_, lintBytes_eq hlint, hpath, hsource, rfl, ?_, fun hunchanged => ?_⟩
  · rw [hafter, ← hstored, ← hmanifest]
    rfl
  · have heq : linted.report.manifest = linted.report.source := hunchanged
    rw [hmanifest, hsource] at heq
    rw [hafter, hsame heq]

theorem reports_of_lintBytes (hrules : linter.Bundled) {bytes : ByteArray} {path : String}
    {linted : Linted} (h : linter.lintBytes bytes path = .ok linted) :
    linter.Reports bytes path linted.report := by
  obtain ⟨linted', hlint, hreports⟩ := lintBytes_reports hrules bytes path
  obtain rfl : linted = linted' := Except.ok.inj (h.symm.trans hlint)
  exact hreports

/-- A file stays as it is if nothing is to be repaired, or if it cannot be lexed. -/
theorem bytesAfter_eq_self (hrules : linter.Bundled) {bytes : ByteArray}
    (h : linter.fix = false ∨
      (Lexing.ofSource (Encoding.decode bytes).1).error.isSome = true) :
    linter.bytesAfter bytes = bytes := by
  obtain ⟨text, -, htext, hsame⟩ := exists_text hrules (Encoding.decode bytes).1
  obtain ⟨linted, hlint, hmanifest⟩ := htext ""
  have hunchanged : linted.report.manifest = linted.report.source := by
    rw [hmanifest, hsame h, (report_of_lintSource hlint).1]
  exact (reports_of_lintBytes hrules (lintBytes_eq hlint)).unchanged hunchanged

/-! ## Several files -/

/-- What a file of the tree was found to be. -/
def LintsFile (linter : Linter) (tree : Tree) (file : Path) (linted : Linted) : Prop :=
  ∃ bytes, tree.read file = .ok bytes ∧ linter.lintBytes bytes file.shown = .ok linted

/-- Files are linted in order, each by itself. -/
theorem lintFiles_eq_ok_iff {tree : Tree} {files : List Path} {linted : List Linted} :
    linter.lintFiles tree files = .ok linted ↔
      List.Forall₂ (linter.LintsFile tree) files linted := by
  induction files generalizing linted with
  | nil =>
      rw [List.forall₂_nil_left_iff, lintFiles, Except.ok.injEq, eq_comm]
  | cons file rest ih =>
      rw [List.forall₂_cons_left_iff]
      constructor
      · intro h
        obtain ⟨bytes, hread, h⟩ := exists_of_bind_ok h
        obtain ⟨first, hfirst, h⟩ := exists_of_bind_ok h
        obtain ⟨others, hothers, h⟩ := exists_of_bind_ok h
        refine ⟨first, others, ⟨bytes, ok_of_mapError hread, ok_of_mapError hfirst⟩,
          ih.1 hothers, (Except.ok.inj h).symm⟩
      · rintro ⟨first, others, ⟨bytes, hread, hfirst⟩, hothers, rfl⟩
        rw [lintFiles, hread]
        show (do let linted ← (linter.lintBytes bytes file.shown).mapError LintFault.run; _) = _
        rw [hfirst, ih.2 hothers]
        rfl

/-- Files that can be read can be linted. -/
theorem exists_lintFiles (hrules : linter.Bundled) {tree : Tree} {files : List Path}
    (h : ∀ file ∈ files, ∃ bytes, tree.read file = .ok bytes) :
    ∃ linted, linter.lintFiles tree files = .ok linted := by
  simp only [lintFiles_eq_ok_iff]
  induction files with
  | nil => exact ⟨[], .nil⟩
  | cons file rest ih =>
      rw [List.forall_mem_cons] at h
      obtain ⟨bytes, hread⟩ := h.1
      obtain ⟨first, hfirst, -⟩ := lintBytes_reports hrules bytes file.shown
      obtain ⟨others, hothers⟩ := ih h.2
      exact ⟨first :: others, .cons ⟨bytes, hread, hfirst⟩ hothers⟩

end Linter

/-! ## Writing back -/

/-- What has become of a tree when the function was applied to the bytes of the files at certain
locations, and nothing else has changed. -/
structure Tree.Rewritten (f : ByteArray → ByteArray) (done : Location → Prop)
    (tree tree' : Tree) : Prop where
  samePlaces : tree.SamePlaces tree'
  bytes_of_done : ∀ location, done location →
    tree'.bytesAt? location = (tree.bytesAt? location).map f
  bytes_of_not : ∀ location, ¬done location →
    tree'.bytesAt? location = tree.bytesAt? location

namespace Tree.Rewritten

variable {f : ByteArray → ByteArray} {done done' : Location → Prop} {tree tree' : Tree}

theorem refl (f : ByteArray → ByteArray) (tree : Tree) :
    tree.Rewritten f (fun _ => False) tree :=
  ⟨⟨rfl, rfl, fun _ => rfl⟩, fun _ h => h.elim, fun _ _ => rfl⟩

theorem congr (h : tree.Rewritten f done tree')
    (hdone : ∀ location, done' location ↔ done location) : tree.Rewritten f done' tree' := by
  obtain rfl : done' = done := funext fun location => propext (hdone location)
  exact h

/-- The function is applied at one more location: if it was applied there before, that is the
value that is stored again. -/
theorem write (h : tree.Rewritten f done tree') {file : Path} {location : Location}
    (hlocate : tree.locate file = .ok location) {bytes : ByteArray}
    (hbytes : tree.bytesAt? location = some bytes) :
    tree.Rewritten f (fun l => l = location ∨ done l) (tree'.write file (f bytes)) := by
  have hlocate' : tree'.locate file = .ok location := (h.samePlaces.locate file).trans hlocate
  have hplaces := tree'.samePlaces_write file (f bytes)
  refine ⟨⟨?_, ?_, fun l => ?_⟩, fun l hl => ?_, fun l hl => ?_⟩
  · rw [hplaces.directories, h.samePlaces.directories]
  · rw [hplaces.workingDirectory, h.samePlaces.workingDirectory]
  · rw [hplaces.isSome_bytesAt?, h.samePlaces.isSome_bytesAt?]
  · rw [Tree.bytesAt?_write hlocate']
    by_cases heq : l = location
    · -- there still is a file, whatever was written to it
      have hsome := h.samePlaces.isSome_bytesAt? location
      rw [hbytes] at hsome
      obtain ⟨current, hcurrent⟩ := Option.isSome_iff_exists.1 hsome
      rw [if_pos heq, heq, hcurrent, hbytes]
      rfl
    · rw [if_neg heq]
      exact h.bytes_of_done l (hl.resolve_left heq)
  · rw [not_or] at hl
    rw [Tree.bytesAt?_write hlocate', if_neg hl.1]
    exact h.bytes_of_not l hl.2

/-- A file that the function leaves as it is counts as rewritten. -/
theorem of_fixed (h : tree.Rewritten f done tree') {location : Location} {bytes : ByteArray}
    (hbytes : tree.bytesAt? location = some bytes) (hfixed : f bytes = bytes) :
    tree.Rewritten f (fun l => l = location ∨ done l) tree' := by
  refine ⟨h.samePlaces, fun l hl => ?_, fun l hl => h.bytes_of_not l (not_or.1 hl).2⟩
  by_cases hl' : done l
  · exact h.bytes_of_done l hl'
  · obtain rfl := hl.resolve_right hl'
    rw [h.bytes_of_not l hl', hbytes, Option.map_some, hfixed]

/-- Where two trees hold the same bytes, they do so after being rewritten if both are or none is. -/
theorem bytesAt?_congr (h : tree.Rewritten f done tree') {other other' : Tree}
    (hother : other.Rewritten f done' other') {location : Location}
    (hbytes : other.bytesAt? location = tree.bytesAt? location)
    (hdone : done' location ↔ done location) :
    other'.bytesAt? location = tree'.bytesAt? location := by
  by_cases hlocation : done location
  · rw [h.bytes_of_done _ hlocation, hother.bytes_of_done _ (hdone.2 hlocation), hbytes]
  · rw [h.bytes_of_not _ hlocation, hother.bytes_of_not _ (mt hdone.1 hlocation), hbytes]

end Tree.Rewritten

variable {linter : Linter} {tree tree' : Tree} {done : Location → Prop}

/-- Writing one report back rewrites its file. -/
theorem writeFixes_rewritten (hrules : linter.Bundled)
    (h : tree.Rewritten linter.bytesAfter done tree') {file : Path} (hfile : file.Normal)
    {linted : Linted} (hlinted : linter.LintsFile tree file linted) :
    ∃ written, writeFixes tree' linted.report = some written ∧
      tree.Rewritten linter.bytesAfter
        (fun location => tree.locate file = .ok location ∨ done location) written.tree := by
  obtain ⟨bytes, hread, hlint⟩ := hlinted
  have hreports := Linter.reports_of_lintBytes hrules hlint
  obtain ⟨location, hlocate, -, hbytes⟩ := Tree.read_eq_ok hread
  have hone : ∀ l, (tree.locate file = .ok l ∨ done l) ↔ (l = location ∨ done l) := by
    intro l
    rw [hlocate, Except.ok.injEq, eq_comm]
  unfold writeFixes
  by_cases hchanged : linted.report.changed = true
  · rw [if_pos hchanged, hreports.encode]
    refine ⟨_, rfl, ?_⟩
    show tree.Rewritten _ _ (tree'.write (Path.ofString linted.report.path) _)
    rw [hreports.path, hfile.ofString_shown]
    exact (h.write hlocate hbytes).congr hone
  · have hunchanged : linted.report.manifest = linted.report.source := by
      simpa [Report.changed] using hchanged
    rw [if_neg hchanged]
    exact ⟨_, rfl, (h.of_fixed hbytes (hreports.unchanged hunchanged)).congr hone⟩

/-- Writing reports back one after another rewrites their files, also if a file comes again. -/
theorem writeAllFixes_rewritten (hrules : linter.Bundled)
    (h : tree.Rewritten linter.bytesAfter done tree') {files : List Path}
    (hfiles : ∀ file ∈ files, file.Normal) {linted : List Linted}
    (hlinted : List.Forall₂ (linter.LintsFile tree) files linted) :
    ∃ flags written, writeAllFixes tree' (linted.map Linted.report) = some (flags, written) ∧
      tree.Rewritten linter.bytesAfter
        (fun location => (∃ file ∈ files, tree.locate file = .ok location) ∨ done location)
        written.tree := by
  induction hlinted generalizing tree' done with
  | nil => exact ⟨[], ⟨tree', false, []⟩, rfl, h.congr fun location => by simp⟩
  | @cons file one rest others hone _ ih =>
      -- the reports are on the files of the first tree, and the tree to write to has moved on
      rw [List.forall_mem_cons] at hfiles
      obtain ⟨first, hfirst, hrewritten⟩ := writeFixes_rewritten hrules h hfiles.1 hone
      obtain ⟨flags, more, hmore, hall⟩ := ih hrewritten hfiles.2
      refine ⟨first.written :: flags,
        ⟨more.tree, first.written || more.written, first.log ++ more.log⟩, ?_, ?_⟩
      · rw [List.map_cons, writeAllFixes, hfirst]
        simp only [Option.bind_eq_bind, Option.bind_some, hmore]
        rfl
      · refine hall.congr fun location => ?_
        rw [List.exists_mem_cons_iff, or_assoc, or_left_comm]

/-! ## Paths -/

/-- The location is one of a file that the paths stand for. -/
def Tree.Selects (tree : Tree) (pattern : Yaml.Value) (paths : List Path)
    (location : Location) : Prop :=
  ∃ files, expandPaths tree pattern paths = .ok files ∧
    ∃ file ∈ files, tree.locate file = .ok location

/-- What the paths stand for does not depend on their order or on repetitions. -/
theorem Tree.selects_congr {pattern : Yaml.Value} {paths paths' files : List Path}
    (hfiles : expandPaths tree pattern paths = .ok files)
    (hsame : ∀ path, path ∈ paths' ↔ path ∈ paths) (location : Location) :
    tree.Selects pattern paths' location ↔ tree.Selects pattern paths location := by
  obtain ⟨files', hfiles', hmem⟩ := expandPaths_congr hsame hfiles
  unfold Selects
  rw [hfiles, hfiles']
  simp only [Except.ok.injEq, exists_eq_left', hmem]

/-- Linting paths goes on to the files if there is a linter and the paths can be expanded. -/
theorem lintPaths_eq {registry : Registry} {options : Options}
    (hlinter : Linter.ofOptions registry options = .ok linter) {paths files : List Path}
    (hfiles : expandPaths tree options.filePattern paths = .ok files) :
    lintPaths registry options tree paths = linter.lintFiles tree files := by
  unfold lintPaths
  rw [hlinter, hfiles]
  rfl

/-- If linting paths comes to its end, there is a linter and the paths are expanded. -/
theorem lintPaths_eq_ok {registry : Registry} {options : Options} {paths : List Path}
    {linted : List Linted} (h : lintPaths registry options tree paths = .ok linted) :
    ∃ linter files, Linter.ofOptions registry options = .ok linter ∧
      expandPaths tree options.filePattern paths = .ok files ∧
      linter.lintFiles tree files = .ok linted := by
  obtain ⟨linter, hlinter, h⟩ := exists_of_bind_ok h
  obtain ⟨files, hfiles, h⟩ := exists_of_bind_ok h
  exact ⟨linter, files, ok_of_mapError hlinter, ok_of_mapError hfiles, h⟩

/-- Nothing but the linter and the expansion can keep the bundled rules from linting paths. -/
theorem exists_lintPaths {options : Options}
    (hlinter : Linter.ofOptions .bundled options = .ok linter) {paths files : List Path}
    (hfiles : expandPaths tree options.filePattern paths = .ok files) :
    ∃ linted, lintPaths .bundled options tree paths = .ok linted := by
  have hrules : linter.Bundled := (Linter.rules_of_ofOptions hlinter).2
  rw [lintPaths_eq hlinter hfiles]
  exact Linter.exists_lintFiles hrules (exists_read_of_mem hfiles)

/-- Linting paths and writing all reports back rewrites the files that the paths stand for. -/
theorem lintPaths_rewritten (htree : tree.Proper) {options : Options}
    (hlinter : Linter.ofOptions .bundled options = .ok linter) {paths : List Path}
    (hpaths : ∀ path ∈ paths, path.Normal) {linted : List Linted}
    (h : lintPaths .bundled options tree paths = .ok linted) :
    ∃ flags written, writeAllFixes tree (linted.map Linted.report) = some (flags, written) ∧
      tree.Rewritten linter.bytesAfter (tree.Selects options.filePattern paths) written.tree := by
  obtain ⟨linter', files, hlinter', hfiles, hlinted⟩ := lintPaths_eq_ok h
  obtain rfl : linter = linter' := Except.ok.inj (hlinter.symm.trans hlinter')
  obtain ⟨flags, written, hwritten, hrewritten⟩ := writeAllFixes_rewritten
    (Linter.rules_of_ofOptions hlinter).2 (.refl linter.bytesAfter tree)
    (normal_of_mem htree hpaths hfiles) (Linter.lintFiles_eq_ok_iff.1 hlinted)
  refine ⟨flags, written, hwritten, hrewritten.congr fun location => ?_⟩
  rw [or_false, Tree.Selects, hfiles]
  simp only [Except.ok.injEq, exists_eq_left']

/-- **Files are repaired independently of each other.** When paths are linted and all reports are
written back, then what is stored in the files that they stand for is a function of what was there
and of the settings, and all other files stay as they are. This function gives the text of the
report on the file in the encoding of the file, and it changes nothing if the text has not
changed, if nothing is to be repaired, or if the file cannot be lexed. In any other tree and with
any other paths the same becomes of a file that holds the same bytes and is stood for as well; and
with the paths in another order, or with repetitions, the same becomes of all files. -/
theorem lintPaths_independent (htree : tree.Proper) {options : Options} {paths : List Path}
    (hpaths : ∀ path ∈ paths, path.Normal) {linted : List Linted}
    (h : lintPaths .bundled options tree paths = .ok linted) :
    ∃ linter flags written, Linter.ofOptions .bundled options = .ok linter ∧
      (∀ bytes path, ∃ linted, linter.lintBytes bytes path = .ok linted ∧
        linter.Reports bytes path linted.report) ∧
      (∀ bytes, options.fix = false ∨
          (Lexing.ofSource (Encoding.decode bytes).1).error.isSome = true →
        linter.bytesAfter bytes = bytes) ∧
      writeAllFixes tree (linted.map Linted.report) = some (flags, written) ∧
      tree.Rewritten linter.bytesAfter (tree.Selects options.filePattern paths) written.tree ∧
      (∀ tree' paths' linted', tree'.Proper → (∀ path ∈ paths', path.Normal) →
        lintPaths .bundled options tree' paths' = .ok linted' →
        ∃ flags' written', writeAllFixes tree' (linted'.map Linted.report) =
            some (flags', written') ∧
          ∀ location, tree'.bytesAt? location = tree.bytesAt? location →
            (tree'.Selects options.filePattern paths' location ↔
              tree.Selects options.filePattern paths location) →
            written'.tree.bytesAt? location = written.tree.bytesAt? location) ∧
      (∀ paths', (∀ path, path ∈ paths' ↔ path ∈ paths) →
        ∃ linted' flags' written', lintPaths .bundled options tree paths' = .ok linted' ∧
          writeAllFixes tree (linted'.map Linted.report) = some (flags', written') ∧
          ∀ location, written'.tree.bytesAt? location = written.tree.bytesAt? location) := by
  obtain ⟨linter, files, hlinter, hfiles, -⟩ := lintPaths_eq_ok h
  obtain ⟨hfix, hrules⟩ := Linter.rules_of_ofOptions hlinter
  obtain ⟨flags, written, hwritten, hrewritten⟩ := lintPaths_rewritten htree hlinter hpaths h
  refine ⟨linter, flags, written, hlinter, Linter.lintBytes_reports hrules, fun bytes hbytes => ?_,
    hwritten, hrewritten, fun tree' paths' linted' htree' hpaths' h' => ?_, fun paths' hsame => ?_⟩
  · rw [← hfix] at hbytes
    exact Linter.bytesAfter_eq_self hrules hbytes
  · obtain ⟨flags', written', hwritten', hrewritten'⟩ :=
      lintPaths_rewritten htree' hlinter hpaths' h'
    exact ⟨flags', written', hwritten', fun location => hrewritten.bytesAt?_congr hrewritten'⟩
  · have hpaths' : ∀ path ∈ paths', path.Normal :=
      fun path hpath => hpaths path ((hsame path).1 hpath)
    obtain ⟨files', hfiles', -⟩ := expandPaths_congr hsame hfiles
    obtain ⟨linted', h'⟩ := exists_lintPaths hlinter hfiles'
    obtain ⟨flags', written', hwritten', hrewritten'⟩ :=
      lintPaths_rewritten htree hlinter hpaths' h'
    exact ⟨linted', flags', written', h', hwritten', fun location =>
      hrewritten.bytesAt?_congr hrewritten' rfl (Tree.selects_congr hfiles hsame location)⟩

/-- A directory with a class whose body follows its name directly and a quote that is never closed,
and outside of it a file that is no UTF-8. -/
def sharedFiles : Tree :=
  ⟨[["d"]],
    [(["d", "a.pp"], "class a\x7b\x7d".toUTF8), (["d", "b.pp"], "class b\x7b \"".toUTF8),
      (["c.pp"], ⟨#[0x23, 0xE9, 0x0A, 0x63, 0x6C, 0x61, 0x73, 0x73, 0x20, 0x61, 0x7B, 0x7D]⟩)],
    []⟩

/-- The directory twice, and each of the files that are to be repaired. -/
def sharedPaths : List Path := ["d", "c.pp", "./d/", "d/a.pp"].map Path.ofString

/-- Both files get their space, one of them in its own encoding and the other one though it is
stood for three times; the one with the quote stays as it is. -/
theorem lintPaths_independent_shared :
    ∃ linted flags written,
      lintPaths .bundled ⟨true, [], [], .text defaultPattern⟩ sharedFiles sharedPaths =
        .ok linted ∧
      writeAllFixes sharedFiles (linted.map Linted.report) = some (flags, written) ∧
      written.tree.bytesAt? ["d", "a.pp"] = some "class a \x7b\x7d".toUTF8 ∧
      written.tree.bytesAt? ["d", "b.pp"] = some "class b\x7b \"".toUTF8 ∧
      written.tree.bytesAt? ["c.pp"] = some ⟨#[0x23, 0xE9, 0x0A, 0x63, 0x6C, 0x61, 0x73, 0x73,
        0x20, 0x61, 0x20, 0x7B, 0x7D]⟩ := by
  have htree : sharedFiles.Proper := ⟨by decide +kernel, by decide +kernel⟩
  have hnormal : ∀ path ∈ sharedPaths, path.Normal := by
    intro path hpath
    obtain ⟨s, -, rfl⟩ := List.mem_map.1 hpath
    exact Path.normal_ofString s
  have hlinter : Linter.ofOptions .bundled ⟨true, [], [], .text defaultPattern⟩ =
      .ok ⟨true, Registry.bundled.rules⟩ := rfl
  have hpattern : FilePattern.ofValue (.text defaultPattern) =
      .ok ⟨[.fitting (Glob.ofString "*.pp")], false⟩ := rfl
  have hhas : ∀ path ∈ sharedPaths, sharedFiles.has path = true := by decide +kernel
  obtain ⟨files, hfiles⟩ := exists_expandPaths hpattern hhas
  have hself : ∀ path ∈ sharedPaths,
      expandPath sharedFiles (.text defaultPattern) path = .ok [path] → path ∈ files :=
    fun path hpath hpathFiles => (mem_expandPaths_iff hfiles path).2
      ⟨path, hpath, [path], hpathFiles, List.mem_singleton_self path⟩
  obtain ⟨linted, hlinted⟩ := exists_lintPaths hlinter hfiles
  obtain ⟨linter, flags, written, hlinter', -, hsame, hwritten, hrewritten, -⟩ :=
    lintPaths_independent htree hnormal hlinted
  obtain rfl := Except.ok.inj (hlinter.symm.trans hlinter')
  refine ⟨linted, flags, written, hlinted, hwritten, ?_, ?_, ?_⟩
  · rw [hrewritten.bytes_of_done ["d", "a.pp"]
      ⟨files, hfiles, .ofString "d/a.pp", hself _ (by decide +kernel) rfl, rfl⟩]
    decide +kernel
  · by_cases hselects : sharedFiles.Selects (.text defaultPattern) sharedPaths ["d", "b.pp"]
    · rw [hrewritten.bytes_of_done _ hselects]
      exact congrArg some (hsame _ (.inr (by decide +kernel)))
    · exact hrewritten.bytes_of_not _ hselects
  · rw [hrewritten.bytes_of_done ["c.pp"]
      ⟨files, hfiles, .ofString "c.pp", hself _ (by decide +kernel) rfl, rfl⟩]
    decide +kernel

end ManifestLint
