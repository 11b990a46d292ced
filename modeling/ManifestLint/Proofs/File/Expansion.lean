import ManifestLint.File.Manifests
import ManifestLint.Proofs.File.Path
import ManifestLint.Proofs.File.Tree

set_option autoImplicit false

/-! # What paths are expanded to

Every path that an expansion gives leads to a file that can be read (`exists_read_of_mem`), and it
is normal if the given paths are and the names in the tree are names (`normal_of_mem`). Which files
are given is determined by the given paths one by one (`mem_expandPaths_iff`), so that neither
their order nor repetitions matter for it (`expandPaths_congr`). -/

namespace ManifestLint

/-! ## Names -/

namespace Path

/-- A name that something in a directory can have. -/
def IsName (name : String) : Prop := isProper name = true ∧ '/' ∉ name.toList

instance (name : String) : Decidable (IsName name) := inferInstanceAs (Decidable (_ ∧ _))

variable {path : Path}

theorem Normal.isName (h : path.Normal) {part : String} (hpart : part ∈ path.parts) :
    IsName part := ⟨h.proper part hpart, h.no_slash part hpart⟩

theorem Normal.descend (h : path.Normal) {names : List String}
    (hnames : ∀ name ∈ names, IsName name) : (path.descend names).Normal := by
  have hparts : ∀ part ∈ path.parts ++ names, IsName part := fun part hpart =>
    (List.mem_append.1 hpart).elim h.isName (hnames part)
  exact ⟨h.anchor, fun part hpart => (hparts part hpart).1, fun part hpart => (hparts part hpart).2⟩

theorem Normal.child (h : path.Normal) {name : String} (hname : IsName name) :
    (path.child name).Normal := h.descend (by simpa using hname)

end Path

namespace Tree

/-- Everything in the tree lies under a location that is made of names. -/
structure Proper (tree : Tree) : Prop where
  directories : ∀ location ∈ tree.directories, ∀ name ∈ location, Path.IsName name
  files : ∀ location ∈ tree.files.map Prod.fst, ∀ name ∈ location, Path.IsName name

variable {tree : Tree} {location : Location}

theorem Proper.isName_of_mem_namesIn (h : tree.Proper) {name : String}
    (hname : name ∈ tree.namesIn location) : Path.IsName name := by
  obtain ⟨entry, hentry, hlast⟩ := List.mem_filterMap.1 hname
  split at hlast
  · have hmem : name ∈ entry := List.mem_of_getLast? hlast
    exact (List.mem_append.1 hentry).elim
      (fun hdirectory => h.directories entry hdirectory name hmem)
      fun hfile => h.files entry hfile name hmem
  · cases hlast

theorem Proper.isName_of_mem_directoriesBelow (h : tree.Proper) {names : List String}
    (hnames : names ∈ tree.directoriesBelow location) : ∀ name ∈ names, Path.IsName name := by
  rcases List.mem_cons.1 hnames with rfl | hbelow
  · simp
  · obtain ⟨entry, hentry, hdrop⟩ := List.mem_filterMap.1 hbelow
    split at hdrop
    · cases hdrop
      exact fun name hname => h.directories entry hentry name (List.mem_of_mem_drop hname)
    · cases hdrop

/-! ## Files -/

theorem read_of_locate {path : Path} {bytes : ByteArray} (h : tree.locate path = .ok location)
    (hdirectory : tree.isDirectory location = false)
    (hbytes : tree.bytesAt? location = some bytes) : tree.read path = .ok bytes := by
  have hread : tree.read path = tree.readAt location := by
    unfold read
    rw [h]
    rfl
  rw [hread, readAt, if_neg (by simp [hdirectory]), hbytes]

/-- What leads to a file can be read. -/
theorem exists_read_of_hasFile {path : Path} (h : tree.hasFile path = true) :
    ∃ bytes, tree.read path = .ok bytes := by
  unfold hasFile at h
  cases hlocate : tree.locate path with
  | error fault =>
      rw [hlocate] at h
      cases h
  | ok location =>
      simp only [hlocate, Bool.and_eq_true, Bool.not_eq_true'] at h
      obtain ⟨bytes, hbytes⟩ := Option.isSome_iff_exists.1 h.2
      exact ⟨bytes, read_of_locate hlocate h.1 hbytes⟩

end Tree

/-! ## Patterns -/

/-- A component of a pattern that stands for one name only stands for a name. -/
def PatternPart.Named : PatternPart → Prop
  | .exact name => Path.IsName name
  | _ => True

namespace FilePattern

variable {tree : Tree}

theorem named_of_partOf {component : String} {part : PatternPart} (hname : Path.IsName component)
    (h : partOf component = .ok part) : part.Named := by
  unfold partOf at h
  dsimp only at h
  split at h
  · cases h
    trivial
  · split at h
    · cases h
    · split at h
      · cases h
        trivial
      · cases h
        exact hname

theorem named_of_partsOf {components : List String} {parts : List PatternPart}
    (hnames : ∀ component ∈ components, Path.IsName component)
    (h : partsOf components = .ok parts) : ∀ part ∈ parts, part.Named := by
  induction components generalizing parts with
  | nil =>
      cases h
      simp
  | cons component rest ih =>
      rw [List.forall_mem_cons] at hnames
      cases hfirst : partOf component with
      | error fault =>
          rw [partsOf, hfirst] at h
          cases h
      | ok part =>
          cases hrest : partsOf rest with
          | error fault =>
              rw [partsOf, hfirst, hrest] at h
              cases h
          | ok parts =>
              rw [partsOf, hfirst, hrest] at h
              cases h
              exact List.forall_mem_cons.2 ⟨named_of_partOf hnames.1 hfirst, ih hnames.2 hrest⟩

theorem named_of_ofValue {value : Yaml.Value} {pattern : FilePattern}
    (h : ofValue value = .ok pattern) : ∀ part ∈ pattern.parts, part.Named := by
  unfold ofValue at h
  split at h
  · cases h
    simp
  · cases value with
    | text s =>
        dsimp only at h
        split at h
        · cases h
        · cases hparts : partsOf (Path.ofString s).parts with
          | error fault =>
              rw [hparts] at h
              cases h
          | ok parts =>
              rw [hparts] at h
              cases h
              exact named_of_partsOf (fun part hpart => (Path.normal_ofString s).isName hpart)
                hparts
    | _ => cases h

/-- The paths that a pattern leads to from a normal path are normal. -/
theorem normal_of_mem_select (htree : tree.Proper) {parts : List PatternPart}
    (hparts : ∀ part ∈ parts, part.Named) {path found : Path} (hpath : path.Normal)
    (h : found ∈ select tree parts path) : found.Normal := by
  -- each component adds names to the path: those of the pattern itself, or those of the tree
  induction parts generalizing path with
  | nil =>
      rw [select, List.mem_singleton] at h
      rwa [h]
  | cons part rest ih =>
      rw [List.forall_mem_cons] at hparts
      cases part with
      | exact name => exact ih hparts.2 (hpath.child hparts.1) h
      | fitting items =>
          unfold select at h
          split at h
          · cases h
          · obtain ⟨name, hname, hfound⟩ := List.mem_flatMap.1 h
            have hisName := htree.isName_of_mem_namesIn (List.mem_of_mem_filter hname)
            exact ih hparts.2 (hpath.child hisName) hfound
      | deep =>
          unfold select at h
          split at h
          · split at h
            · cases h
            · obtain ⟨names, hnames, hfound⟩ := List.mem_flatMap.1 h
              have hisName := htree.isName_of_mem_directoriesBelow hnames
              exact ih hparts.2 (hpath.descend hisName) hfound
          · cases h

theorem mem_filesBelow_iff {pattern : FilePattern} {directory found : Path} :
    found ∈ pattern.filesBelow tree directory ↔ pattern.directoriesOnly = false ∧
      found ∈ select tree (.deep :: pattern.parts) directory ∧ tree.hasFile found = true := by
  unfold filesBelow
  split
  · rename_i honly
    simp [honly]
  · rename_i honly
    rw [List.mem_mergeSort, List.mem_filter, List.mem_eraseDups, Bool.eq_false_iff]
    exact (and_iff_right honly).symm

end FilePattern

/-! ## Expansions -/

variable {tree : Tree} {pattern : Yaml.Value} {path : Path} {paths files : List Path}

/-- A path is expanded to itself if it leads to a file, and to the files below if it leads to a
directory. -/
theorem expandPath_eq_ok (h : expandPath tree pattern path = .ok files) :
    (∃ p, FilePattern.ofValue pattern = .ok p ∧ files = p.filesBelow tree path ∧
      tree.hasDirectory path = true) ∨ (files = [path] ∧ tree.hasFile path = true) := by
  unfold expandPath at h
  split at h
  · rename_i hdirectory
    split at h
    · rename_i p hp
      exact .inl ⟨p, hp, (Except.ok.inj h).symm, hdirectory⟩
    · cases h
  · split at h
    · rename_i hfile
      exact .inr ⟨(Except.ok.inj h).symm, hfile⟩
    · cases h

theorem has_of_expandPath (h : expandPath tree pattern path = .ok files) :
    tree.has path = true := by
  rcases expandPath_eq_ok h with ⟨-, -, -, hdirectory⟩ | ⟨-, hfile⟩
  · rw [Tree.has, hdirectory, Bool.true_or]
  · rw [Tree.has, hfile, Bool.or_true]

/-- A path is not expanded if nothing is there, or if it would need a pattern and there is
none. -/
theorem expandPath_eq_error {fault : ExpandFault}
    (h : expandPath tree pattern path = .error fault) :
    (fault = .notFound path ∧ tree.has path = false) ∨
      ∃ bad, fault = .badPattern bad ∧ FilePattern.ofValue pattern = .error bad := by
  unfold expandPath at h
  split at h
  · split at h
    · cases h
    · rename_i bad hbad
      exact .inr ⟨bad, (Except.error.inj h).symm, hbad⟩
  · rename_i hdirectory
    split at h
    · cases h
    · rename_i hfile
      refine .inl ⟨(Except.error.inj h).symm, ?_⟩
      rw [Tree.has, Bool.or_eq_false_iff]
      exact ⟨Bool.eq_false_iff.2 hdirectory, Bool.eq_false_iff.2 hfile⟩

theorem hasFile_of_mem_expandPath (h : expandPath tree pattern path = .ok files) {file : Path}
    (hfile : file ∈ files) : tree.hasFile file = true := by
  rcases expandPath_eq_ok h with ⟨p, -, rfl, -⟩ | ⟨rfl, hpath⟩
  · exact (FilePattern.mem_filesBelow_iff.1 hfile).2.2
  · rwa [List.mem_singleton.1 hfile]

theorem normal_of_mem_expandPath (htree : tree.Proper) (hpath : path.Normal)
    (h : expandPath tree pattern path = .ok files) {file : Path} (hfile : file ∈ files) :
    file.Normal := by
  rcases expandPath_eq_ok h with ⟨p, hp, rfl, -⟩ | ⟨rfl, -⟩
  · have hnamed : ∀ part ∈ PatternPart.deep :: p.parts, part.Named :=
      List.forall_mem_cons.2 ⟨trivial, FilePattern.named_of_ofValue hp⟩
    exact FilePattern.normal_of_mem_select htree hnamed hpath
      (FilePattern.mem_filesBelow_iff.1 hfile).2.1
  · rwa [List.mem_singleton.1 hfile]

theorem expandPaths_cons_eq_ok {rest : List Path} :
    expandPaths tree pattern (path :: rest) = .ok files ↔
      ∃ first others, expandPath tree pattern path = .ok first ∧
        expandPaths tree pattern rest = .ok others ∧ files = first ++ others := by
  rw [expandPaths]
  cases expandPath tree pattern path with
  | error fault => exact iff_of_false (by rintro ⟨⟩) (by simp)
  | ok first =>
      cases expandPaths tree pattern rest with
      | error fault => exact iff_of_false (by rintro ⟨⟩) (by simp)
      | ok others =>
          show Except.ok (first ++ others) = Except.ok files ↔ _
          simp [eq_comm]

/-- Paths can be expanded if each of them can. -/
theorem exists_expandPaths_iff :
    (∃ files, expandPaths tree pattern paths = .ok files) ↔
      ∀ path ∈ paths, ∃ files, expandPath tree pattern path = .ok files := by
  induction paths with
  | nil => simp [expandPaths]
  | cons path rest ih =>
      rw [List.forall_mem_cons, ← ih]
      simp only [expandPaths_cons_eq_ok]
      constructor
      · rintro ⟨-, first, others, hfirst, hothers, -⟩
        exact ⟨⟨first, hfirst⟩, others, hothers⟩
      · rintro ⟨⟨first, hfirst⟩, others, hothers⟩
        exact ⟨_, first, others, hfirst, hothers, rfl⟩

/-- **The files that paths stand for** are those that each of them stands for. -/
theorem mem_expandPaths_iff (h : expandPaths tree pattern paths = .ok files) (file : Path) :
    file ∈ files ↔
      ∃ path ∈ paths, ∃ found, expandPath tree pattern path = .ok found ∧ file ∈ found := by
  induction paths generalizing files with
  | nil =>
      cases h
      simp
  | cons path rest ih =>
      obtain ⟨first, others, hfirst, hothers, rfl⟩ := expandPaths_cons_eq_ok.1 h
      rw [List.mem_append, ih hothers, List.exists_mem_cons_iff, hfirst]
      simp only [Except.ok.injEq, exists_eq_left']

/-- Neither the order of the paths nor repetitions change what they can be expanded to. -/
theorem expandPaths_congr {paths' : List Path} (hsame : ∀ path, path ∈ paths' ↔ path ∈ paths)
    (h : expandPaths tree pattern paths = .ok files) :
    ∃ files', expandPaths tree pattern paths' = .ok files' ∧
      ∀ file, file ∈ files' ↔ file ∈ files := by
  have hall := exists_expandPaths_iff.1 ⟨files, h⟩
  obtain ⟨files', h'⟩ := exists_expandPaths_iff.2 fun path hpath => hall path ((hsame path).1 hpath)
  refine ⟨files', h', fun file => ?_⟩
  rw [mem_expandPaths_iff h', mem_expandPaths_iff h]
  simp only [hsame]

theorem exists_read_of_mem (h : expandPaths tree pattern paths = .ok files) :
    ∀ file ∈ files, ∃ bytes, tree.read file = .ok bytes := by
  intro file hfile
  obtain ⟨path, -, found, hfound, hmem⟩ := (mem_expandPaths_iff h file).1 hfile
  exact Tree.exists_read_of_hasFile (hasFile_of_mem_expandPath hfound hmem)

theorem normal_of_mem (htree : tree.Proper) (hpaths : ∀ path ∈ paths, path.Normal)
    (h : expandPaths tree pattern paths = .ok files) : ∀ file ∈ files, file.Normal := by
  intro file hfile
  obtain ⟨path, hpath, found, hfound, hmem⟩ := (mem_expandPaths_iff h file).1 hfile
  exact normal_of_mem_expandPath htree (hpaths path hpath) hfound hmem

/-- Paths cannot be expanded if nothing is at one of them, or if there is no pattern for a
directory among them. -/
theorem expandPaths_eq_error {fault : ExpandFault}
    (h : expandPaths tree pattern paths = .error fault) :
    (∃ path ∈ paths, fault = .notFound path ∧ tree.has path = false) ∨
      ∃ bad, fault = .badPattern bad ∧ FilePattern.ofValue pattern = .error bad := by
  induction paths with
  | nil => cases h
  | cons path rest ih =>
      rw [expandPaths] at h
      cases hfirst : expandPath tree pattern path with
      | error fault' =>
          rw [hfirst] at h
          obtain rfl : fault' = fault := Except.error.inj h
          exact (expandPath_eq_error hfirst).imp_left fun hmissing =>
            ⟨path, List.mem_cons_self, hmissing⟩
      | ok first =>
          cases hrest : expandPaths tree pattern rest with
          | error fault' =>
              rw [hfirst, hrest] at h
              obtain rfl : fault' = fault := Except.error.inj h
              refine (ih hrest).imp_left ?_
              rintro ⟨missing, hmem, hmissing⟩
              exact ⟨missing, List.mem_cons_of_mem path hmem, hmissing⟩
          | ok others =>
              rw [hfirst, hrest] at h
              cases h

/-- Paths at which something is can be expanded by a pattern. -/
theorem exists_expandPaths {p : FilePattern} (hpattern : FilePattern.ofValue pattern = .ok p)
    (h : ∀ path ∈ paths, tree.has path = true) :
    ∃ files, expandPaths tree pattern paths = .ok files := by
  cases hfiles : expandPaths tree pattern paths with
  | ok files => exact ⟨files, rfl⟩
  | error fault =>
      rcases expandPaths_eq_error hfiles with ⟨path, hpath, -, hmissing⟩ | ⟨bad, -, hbad⟩
      · rw [h path hpath] at hmissing
        cases hmissing
      · rw [hpattern] at hbad
        cases hbad

end ManifestLint
