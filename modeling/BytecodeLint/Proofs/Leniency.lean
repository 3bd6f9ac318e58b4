import BytecodeLint.Proofs.Conservation

/-!
# What a scan puts up with

Inside a directory, a file or an entry of an archive that holds no class is put
down as skipped, and the scan goes on as if it were not there.  An archive is
another matter: if its own directory cannot be read, or if the content of an
entry cannot be had, the scan is given up, wherever the archive was found.

There are three groups.

* `FileTree.Everywhere` says something of all files of a tree.
* Archives: `Archive.Intact` is what a scan needs of an archive, and
  `Candidate.exists_sites_iff` shows that nothing else is needed of a file.
* `FileTree.Cleared` relates a tree to what is left of it without the files and
  entries that hold no class.  `scan_directory` is the result.
-/

namespace BytecodeLint

/-! ## All files of a tree -/

namespace FileTree

/-- What `p` says holds of all files of the tree that stands at a path name. -/
inductive Everywhere (p : String → Except PathFault ByteArray → Prop) : String → FileTree → Prop
  | file {path : String} {content : ByteArray} (h : p path (.ok content)) :
      Everywhere p path (.file content)
  | unreadable {path : String} {fault : PathFault} (h : p path (.error fault)) :
      Everywhere p path (.unreadable fault)
  | directory {path : String} {entries : List (String × FileTree)}
      (each : ∀ entry ∈ entries, Everywhere p (entryPath path entry) entry.2) :
      Everywhere p path (.directory entries)

variable {p : String → Except PathFault ByteArray → Prop} {path : String} {tree : FileTree}

theorem mem_candidates_directory {entries : List (String × FileTree)} {candidate : Candidate} :
    candidate ∈ (directory entries).candidates path ↔
      ∃ entry ∈ entries, candidate ∈ entry.2.candidates (entryPath path entry) := by
  rw [candidates_directory, List.mem_flatMap]
  simp only [(arranged_perm path entries).mem_iff]

theorem forall_candidates_iff (h : tree.Distinct) :
    (∀ candidate ∈ tree.candidates path, p candidate.path candidate.content) ↔
      Everywhere p path tree := by
  induction h generalizing path with
  | file content =>
    refine ⟨fun h => .file (h _ (List.mem_singleton_self _)), fun h => ?_⟩
    cases h with
    | file hfile => exact List.forall_mem_singleton.2 hfile
  | unreadable fault =>
    refine ⟨fun h => .unreadable (h _ (List.mem_singleton_self _)), fun h => ?_⟩
    cases h with
    | unreadable hfile => exact List.forall_mem_singleton.2 hfile
  | directory names each ih =>
    simp only [mem_candidates_directory]
    constructor
    · intro h
      refine .directory fun entry hentry => (ih entry hentry).1 fun candidate hcandidate => ?_
      exact h candidate ⟨entry, hentry, hcandidate⟩
    · rintro (_ | _ | hall) candidate ⟨entry, hentry, hcandidate⟩
      exact (ih entry hentry).2 (hall entry hentry) candidate hcandidate

/-- No file inside a tree was given as an input. -/
theorem unnamed_of_mem (h : tree.Distinct) {candidate : Candidate}
    (hcandidate : candidate ∈ tree.candidates path) : candidate.named = false := by
  induction h generalizing path with
  | file content =>
    obtain rfl := List.mem_singleton.1 hcandidate
    rfl
  | unreadable fault =>
    obtain rfl := List.mem_singleton.1 hcandidate
    rfl
  | directory names each ih =>
    obtain ⟨entry, hentry, hinside⟩ := mem_candidates_directory.1 hcandidate
    exact ih entry hentry hinside

/-- All files of the tree can be read. -/
def Readable (path : String) (tree : FileTree) : Prop :=
  Everywhere (fun _ content => ∃ data, content = .ok data) path tree

end FileTree

/-! ## Archives -/

/-- The directory of the archive can be read, and what is in its entries can be
had for all names that count as classes. -/
def Archive.Intact (unpack : Unpacker) (data : ByteArray) : Prop :=
  ∃ entries, Archive.entries data = .ok entries ∧
    ∀ entry ∈ entries, isClassEntry entry.name = true →
      ∃ content, Holds unpack entries entry.name content

/-- All archives of the tree that stands at a path name are intact. -/
def FileTree.ArchivesIntact (unpack : Archive.Unpacker) (path : String) (tree : FileTree) : Prop :=
  Everywhere (fun path content => Pathname.extension? path = some "jar" →
    ∃ data, content = .ok data ∧ Archive.Intact unpack data) path tree

variable {workingDirectory path : String} {unpack : Archive.Unpacker} {candidate : Candidate}
  {sites : List Site}

theorem forall_classNames_iff {entries : List Archive.Entry} {p : String → Prop} :
    (∀ name ∈ classNames entries, p name) ↔
      ∀ entry ∈ entries, isClassEntry entry.name = true → p entry.name := by
  simp only [(classNames_perm_filter entries).mem_iff, List.mem_filter, List.mem_map, and_imp,
    forall_exists_index, forall_apply_eq_imp_iff₂]

/-- A file that was not given as an input has sites, unless it is an archive
that is not intact. -/
theorem Candidate.exists_sites_iff (hnamed : candidate.named = false) :
    (∃ sites, candidate.Sites workingDirectory unpack sites) ↔
      (Pathname.extension? candidate.path = some "jar" →
        ∃ data, candidate.content = .ok data ∧ Archive.Intact unpack data) := by
  constructor
  · rintro ⟨sites, hsites⟩ hjar
    cases hsites with
    | classFile extension => exact absurd (hjar.symm.trans extension) (by decide)
    | archive extension read perm ascending holds =>
      obtain rfl := eq_classNames perm ascending
      refine ⟨_, rfl, _, read, (forall_classNames_iff (p := fun name =>
        ∃ content, Archive.Holds unpack _ name content)).1 fun name hname => ⟨_, holds name hname⟩⟩
    | other _ noJar => exact absurd hjar noJar
  · intro hjar
    obtain ⟨path, named, content⟩ := candidate
    by_cases hclass : Pathname.extension? path = some "class"
    · exact ⟨_, .classFile hclass⟩
    by_cases hextension : Pathname.extension? path = some "jar"
    · obtain ⟨data, hdata, entries, hentries, hintact⟩ := hjar hextension
      obtain rfl : content = .ok data := hdata
      have heach := (forall_classNames_iff
        (p := fun name => ∃ content, Archive.Holds unpack entries name content)).2 hintact
      choose! content hcontent using heach
      exact ⟨_, .archive hextension hentries (classNames_perm_filter entries)
        (pairwise_classNames entries) hcontent⟩
    · exact ⟨_, .other hclass hextension hnamed⟩

theorem Candidate.exists_survey_iff {candidates : List Candidate} :
    (∃ sites, Candidate.Survey workingDirectory unpack candidates sites) ↔
      ∀ candidate ∈ candidates, ∃ sites, candidate.Sites workingDirectory unpack sites := by
  constructor
  · rintro ⟨_, found, hfound, rfl⟩
    exact ((List.forall₂_and_left _ _).1 (hfound.imp fun _ sites h => ⟨⟨sites, h⟩, h⟩)).1
  · intro h
    choose! sites hsites using h
    refine ⟨_, candidates.map sites, ?_, rfl⟩
    exact List.forall₂_map_right_iff.2 (List.forall₂_same.2 hsites)

/-- The sites of a file that was not given as an input were not given either. -/
theorem Candidate.Sites.unnamed (h : candidate.Sites workingDirectory unpack sites)
    (hnamed : candidate.named = false) : ∀ site ∈ sites, site.named = false := by
  cases h with
  | classFile => exact List.forall_mem_singleton.2 hnamed
  | archive => exact List.forall_mem_map.2 fun _ _ => rfl
  | other => exact nofun

theorem Candidate.Survey.unnamed {candidates : List Candidate}
    (h : Candidate.Survey workingDirectory unpack candidates sites)
    (hnamed : ∀ candidate ∈ candidates, candidate.named = false) :
    ∀ site ∈ sites, site.named = false := by
  obtain ⟨found, hfound, rfl⟩ := h
  induction hfound with
  | nil => exact nofun
  | cons hfirst _ ih =>
    rw [List.flatten_cons, List.forall_mem_append]
    exact ⟨hfirst.unnamed (hnamed _ (List.mem_cons_self ..)),
      ih fun other hother => hnamed other (List.mem_cons_of_mem _ hother)⟩

/-! ## Directories -/

/-- There is no class at any site of the file. -/
def Barren (workingDirectory : String) (unpack : Archive.Unpacker) (path : String)
    (content : ByteArray) : Prop :=
  ∀ sites, Candidate.Sites workingDirectory unpack ⟨path, false, .ok content⟩ sites →
    ∀ site ∈ sites, site.class? = none

/-- The second content has those sites of the first one that have classes, with
the same bytes in them. -/
def Pruned (workingDirectory : String) (unpack : Archive.Unpacker) (path : String)
    (content pruned : ByteArray) : Prop :=
  ∀ sites, Candidate.Sites workingDirectory unpack ⟨path, false, .ok content⟩ sites →
    Candidate.Sites workingDirectory unpack ⟨path, false, .ok pruned⟩
      (sites.filter (·.class?.isSome))

/-- What is left of a tree without the files and the entries of archives that
hold no class. -/
def FileTree.Cleared (workingDirectory : String) (unpack : Archive.Unpacker) (path : String)
    (tree cleared : FileTree) : Prop :=
  FileTree.Revised (Pruned workingDirectory unpack) (Barren workingDirectory unpack) path tree
    cleared

/-- Without the sites that have no class nothing is skipped. -/
theorem Scan.ofSites_filter (sites : List Site) :
    ofSites (sites.filter (·.class?.isSome)) = { ofSites sites with skipped := [] } := by
  have hclasses : (sites.filter (·.class?.isSome)).filterMap (·.class?) =
      sites.filterMap (·.class?) := by
    rw [List.filterMap_filter]
    refine List.filterMap_congr fun site _ => ?_
    cases site.class? <;> rfl
  have hskipped : (sites.filter (·.class?.isSome)).filter (·.class?.isNone) = [] := by
    rw [List.filter_filter, List.filter_eq_nil_iff]
    intro site _
    cases site.class? <;> simp
  simp only [ofSites, hclasses, hskipped, List.map_nil]

section Directory

variable {entries : List (String × FileTree)}

/-- A directory is scanned if its files have sites. -/
theorem scan_directory_eq_ok_iff (hdistinct : (FileTree.directory entries).Distinct)
    {result : Scan} :
    scan workingDirectory [{ path, tree := .ok (.directory entries) }] unpack = .ok result ↔
      ∃ sites, Candidate.Survey workingDirectory unpack
        ((FileTree.directory entries).candidates path) sites ∧ result = Scan.ofSites sites := by
  rw [scan_eq_ok_iff, List.flatMap_singleton]
  constructor
  · rintro ⟨sites, hsurvey, -, hresult⟩
    exact ⟨sites, hsurvey, hresult⟩
  · rintro ⟨sites, hsurvey, hresult⟩
    refine ⟨sites, hsurvey, Site.settled_of_unnamed (hsurvey.unnamed ?_), hresult⟩
    exact fun candidate => FileTree.unnamed_of_mem hdistinct

/-- Only archives can make the scan of a directory fail. -/
theorem exists_scan_directory_iff (hdistinct : (FileTree.directory entries).Distinct) :
    (∃ result,
        scan workingDirectory [{ path, tree := .ok (.directory entries) }] unpack = .ok result) ↔
      (FileTree.directory entries).ArchivesIntact unpack path := by
  have hsurvey : (∃ result, scan workingDirectory
      [{ path, tree := .ok (.directory entries) }] unpack = .ok result) ↔
      ∃ sites, Candidate.Survey workingDirectory unpack
        ((FileTree.directory entries).candidates path) sites := by
    simp only [scan_directory_eq_ok_iff hdistinct]
    exact ⟨fun ⟨_, sites, h, _⟩ => ⟨sites, h⟩, fun ⟨sites, h⟩ => ⟨_, sites, h, rfl⟩⟩
  rw [hsurvey, Candidate.exists_survey_iff, FileTree.ArchivesIntact,
    ← FileTree.forall_candidates_iff hdistinct]
  exact forall₂_congr fun candidate hcandidate =>
    Candidate.exists_sites_iff (FileTree.unnamed_of_mem hdistinct hcandidate)

/-- Without what holds no class, the same classes are found and nothing is
skipped. -/
theorem scan_cleared (hdistinct : (FileTree.directory entries).Distinct)
    (hreadable : (FileTree.directory entries).Readable path) {result : Scan}
    (hscan : scan workingDirectory [{ path, tree := .ok (.directory entries) }] unpack = .ok result)
    {cleared : FileTree}
    (hcleared : (FileTree.directory entries).Cleared workingDirectory unpack path cleared) :
    scan workingDirectory [{ path, tree := .ok cleared }] unpack =
      .ok { result with skipped := [] } := by
  obtain ⟨sites, hsurvey, rfl⟩ := (scan_directory_eq_ok_iff hdistinct).1 hscan
  have hthinned := (FileTree.Revised.thinned hcleared hdistinct).survey (·.class?.isSome)
    ?_ ?_ hsurvey
  · cases hcleared with
    | directory =>
      rw [← Scan.ofSites_filter]
      refine scan_eq_ok_iff.2 ⟨_, ?_, fun site hsite _ => (List.mem_filter.1 hsite).2, rfl⟩
      rw [List.flatMap_singleton]
      exact hthinned
  · intro first hfirst second hrevised found hfound
    cases hrevised with
    | read hpruned =>
      obtain rfl := FileTree.unnamed_of_mem hdistinct hfirst
      exact hpruned found hfound
    | unread =>
      obtain ⟨data, hdata⟩ := (FileTree.forall_candidates_iff hdistinct).2 hreadable _ hfirst
      cases hdata
  · intro path content hbarren found hfound
    rw [List.filter_eq_nil_iff]
    intro site hsite
    rw [hbarren found hfound site hsite]
    exact nofun

/-- A directory of files that can be read is scanned just if its archives are
intact.  What holds no class is skipped, and without it the same classes are
found. -/
theorem scan_directory (hdistinct : (FileTree.directory entries).Distinct)
    (hreadable : (FileTree.directory entries).Readable path) :
    ((∃ result,
          scan workingDirectory [{ path, tree := .ok (.directory entries) }] unpack = .ok result) ↔
        (FileTree.directory entries).ArchivesIntact unpack path) ∧
      ∀ result,
        scan workingDirectory [{ path, tree := .ok (.directory entries) }] unpack = .ok result →
        (∃ sites,
          Surveys workingDirectory unpack [{ path, tree := .ok (.directory entries) }] sites ∧
          result.classes = sites.filterMap (·.class?) ∧
          result.skipped = (sites.filter (·.class?.isNone)).map (·.label)) ∧
        ∀ cleared, (FileTree.directory entries).Cleared workingDirectory unpack path cleared →
          scan workingDirectory [{ path, tree := .ok cleared }] unpack =
            .ok { result with skipped := [] } := by
  refine ⟨exists_scan_directory_iff hdistinct, fun result hscan => ⟨?_, fun cleared hcleared =>
    scan_cleared hdistinct hreadable hscan hcleared⟩⟩
  obtain ⟨sites, hsurvey, -, rfl⟩ := scan_eq_ok_iff.1 hscan
  refine ⟨sites, (surveys_iff ?_).2 hsurvey, rfl, rfl⟩
  rw [List.forall_mem_singleton]
  rintro _ ⟨⟩
  exact hdistinct

end Directory

/-! ## What is left of the library -/

/-- The archive of the library without the entry that holds no class. -/
def prunedJar : ByteArray :=
  Archive.plain [(classHeader 0, packedClass)] [classHeader 0]

/-- The library without its scraps. -/
def clearedLibrary : FileTree :=
  .directory
    [("z.jar", .file prunedJar), ("scraps", .directory []), ("A.class", .file bareClass)]

theorem readable_library : library.Readable "lib" := by
  refine (FileTree.forall_candidates_iff distinct_library).1 ?_
  rw [candidates_library]
  simp only [List.forall_mem_cons]
  exact ⟨⟨_, rfl⟩, ⟨_, rfl⟩, ⟨_, rfl⟩, nofun⟩

theorem sites_prunedJar :
    Candidate.Sites "/work" Archive.unpack ⟨"lib/z.jar", false, .ok prunedJar⟩
      (["A.class"].map fun name => .ofEntry "/work" "lib/z.jar" name bareClass) := by
  have hentries : Archive.entries prunedJar = .ok ([classHeader 0].map (·.located prunedJar)) :=
    Archive.entries_of_headers (by decide +kernel) (List.nodup_singleton _) (by decide +kernel)
  refine .archive (by decide) hentries (by decide +kernel) (List.pairwise_singleton _ _) ?_
  rw [List.forall_mem_singleton]
  exact ⟨_, List.mem_singleton_self _, rfl, by decide +kernel⟩

theorem pruned_mixedJar : Pruned "/work" Archive.unpack "lib/z.jar" mixedJar prunedJar := by
  intro sites hsites
  rw [hsites.inj sites_mixedJar, List.map_cons, List.filter_cons_of_pos (by decide +kernel),
    List.map_cons, List.filter_cons_of_neg (by decide +kernel)]
  exact sites_prunedJar

theorem barren_scrap : Barren "/work" Archive.unpack "lib/scraps/bad.class" ⟨#[0]⟩ := by
  intro sites hsites
  rw [hsites.inj (.classFile (by decide))]
  decide +kernel

theorem pruned_bareClass : Pruned "/work" Archive.unpack "lib/A.class" bareClass bareClass := by
  intro sites hsites
  have hclass : Candidate.Sites "/work" Archive.unpack ⟨"lib/A.class", false, .ok bareClass⟩
      [.ofFile "/work" ⟨"lib/A.class", false, .ok bareClass⟩] := .classFile (by decide)
  rw [hsites.inj hclass, List.filter_cons_of_pos (by decide +kernel)]
  exact hclass

/-- Without the bad file the scraps are an empty directory. -/
theorem cleared_scraps :
    scraps.Cleared "/work" Archive.unpack "lib/scraps" (.directory []) := by
  refine .directory (fun _ => none) (.refl _) (fun _ _ _ hleft => ?_) fun entry hentry _ => ?_
  · cases hleft
  · obtain rfl := List.mem_singleton.1 hentry
    exact ⟨_, rfl, barren_scrap⟩

/-- What is left of the entries of the library. -/
def leftOfLibrary (entry : String × FileTree) : FileTree :=
  if entry.1 = "z.jar" then .file prunedJar
  else if entry.1 = "scraps" then .directory []
  else entry.2

theorem cleared_library : library.Cleared "/work" Archive.unpack "lib" clearedLibrary := by
  refine .reordered leftOfLibrary (.refl _) ?_
  simp only [libraryEntries, List.forall_mem_cons]
  exact ⟨.file pruned_mixedJar, cleared_scraps, .file pruned_bareClass, List.forall_mem_nil _⟩

/-- What is left of the library has the same classes, and nothing is skipped. -/
theorem library_cleared :
    library.Distinct ∧ library.Readable "lib" ∧
      (∃ result, scan "/work" [libraryInput] = .ok result) ∧
      library.Cleared "/work" Archive.unpack "lib" clearedLibrary ∧
      scan "/work" [{ path := "lib", tree := .ok clearedLibrary }] =
        .ok { libraryScan with skipped := [] } := by
  obtain ⟨-, hcleared⟩ := scan_directory distinct_library readable_library
  exact ⟨distinct_library, readable_library, ⟨_, scan_library⟩, cleared_library,
    (hcleared libraryScan scan_library).2 clearedLibrary cleared_library⟩

/-! ## An archive that is none -/

/-- A directory with a class and a file that only has the name of an archive. -/
def wreckedLibrary : FileTree :=
  .directory [("x.jar", .file ⟨#[0, 0x11, 0x22, 0x33]⟩), ("A.class", .file bareClass)]

theorem candidates_wreckedLibrary :
    wreckedLibrary.candidates "lib" =
      [⟨"lib/A.class", false, .ok bareClass⟩,
        ⟨"lib/x.jar", false, .ok ⟨#[0, 0x11, 0x22, 0x33]⟩⟩] := by
  rw [wreckedLibrary, FileTree.candidates_directory, ← FileTree.eq_arranged (by decide)
    (List.reverse_perm _) (by decide)]
  rfl

/-- One such file makes the scan of a directory fail, and the class beside it is
not found. -/
theorem wreckedLibrary_fails :
    wreckedLibrary.Distinct ∧ wreckedLibrary.Readable "lib" ∧
      scan "/work" [{ path := "lib", tree := .ok wreckedLibrary }] =
        .error (.badArchive "lib/x.jar" (.invalid .noEndRecord)) := by
  have hdistinct : wreckedLibrary.Distinct := by
    refine .directory (by decide) ?_
    simp only [List.forall_mem_cons]
    exact ⟨.file _, .file _, nofun⟩
  refine ⟨hdistinct, (FileTree.forall_candidates_iff hdistinct).1 ?_, ?_⟩
  · rw [candidates_wreckedLibrary]
    simp only [List.forall_mem_cons]
    exact ⟨⟨_, rfl⟩, ⟨_, rfl⟩, nofun⟩
  · have hcandidates : [({ path := "lib", tree := .ok wreckedLibrary } : Input)].flatMap
        Input.candidates = wreckedLibrary.candidates "lib" := List.append_nil _
    rw [scan, hcandidates, candidates_wreckedLibrary]
    decide +kernel

end BytecodeLint
