import BytecodeLint.Proofs.Sites

/-!
# What a scan keeps

A scan neither loses nor repeats a site: each site of the inputs has a class in
the result or a name among those that were skipped, once for every time that it
is visited.  Directories and archives may list what they hold in any order, and
this makes no difference.

There are two groups.

* `Input.Relisted` relates an input to the same input whose directories and
  archives are listed in another order.
* `scan_conserves` is the account of a scan.
-/

namespace BytecodeLint

/-! ## Other orders -/

/-- The content is the same, or it is an archive with the same entries in
another order. -/
def Archive.Relisted (path : String) (content relisted : ByteArray) : Prop :=
  relisted = content ∨ Pathname.extension? path = some "jar" ∧
    ∃ entries others, Archive.entries content = .ok entries ∧
      Archive.entries relisted = .ok others ∧ others.Perm entries

/-- The input is the same but for the order in which its directories and
archives list what they hold. -/
inductive Input.Relisted : Input → Input → Prop
  | missing (path : String) (fault : PathFault) :
      Relisted { path, tree := .error fault } { path, tree := .error fault }
  | found {path : String} {tree relisted : FileTree}
      (h : FileTree.Revised Archive.Relisted (fun _ _ => False) path tree relisted) :
      Relisted { path, tree := .ok tree } { path, tree := .ok relisted }

variable {workingDirectory : String} {unpack : Archive.Unpacker} {sites : List Site}

/-- An archive has the same sites however its entries are listed. -/
theorem Candidate.Sites.relisted {first second : Candidate}
    (h : first.Sites workingDirectory unpack sites)
    (hrevised : Candidate.Revised Archive.Relisted first second) :
    second.Sites workingDirectory unpack sites := by
  cases hrevised with
  | unread => exact h
  | read hrelisted =>
    rcases hrelisted with rfl | ⟨hjar, entries, others, hentries, hothers, hperm⟩
    · exact h
    cases h with
    | classFile extension => exact absurd (hjar.symm.trans extension) (by decide)
    | archive extension read perm ascending holds =>
      cases hentries.symm.trans read
      refine .archive extension hothers (perm.trans ((hperm.symm.map _).filter _)) ascending ?_
      exact fun name hname => (holds name hname).perm hperm.symm
    | other _ noJar => exact absurd hjar noJar

/-- The files of an input are visited in the same order however they are
listed. -/
theorem Input.Relisted.thinned {input relisted : Input} (h : input.Relisted relisted)
    (hdistinct : input.Distinct) :
    Candidate.Thinned Archive.Relisted (fun _ _ => False) input.candidates
      relisted.candidates := by
  cases h with
  | missing path fault => exact .keep (.unread path true fault) .nil
  | found h =>
    cases h with
    | file hsame => exact .keep (.read hsame) .nil
    | unreadable fault => exact .keep (.unread _ true fault) .nil
    | directory left listed kept missing =>
      exact (FileTree.Revised.directory left listed kept missing).thinned (hdistinct _ rfl)

theorem thinned_flatMap_candidates {inputs relisted : List Input}
    (h : List.Forall₂ Input.Relisted inputs relisted)
    (hdistinct : ∀ input ∈ inputs, input.Distinct) :
    Candidate.Thinned Archive.Relisted (fun _ _ => False) (inputs.flatMap Input.candidates)
      (relisted.flatMap Input.candidates) := by
  induction h with
  | nil => exact .nil
  | cons hinput _ ih =>
    rw [List.flatMap_cons, List.flatMap_cons]
    exact (hinput.thinned (hdistinct _ (List.mem_cons_self ..))).append
      (ih fun other hother => hdistinct other (List.mem_cons_of_mem _ hother))

/-- The order in which directories and archives list what they hold does not
matter to a scan. -/
theorem scan_relisted {inputs relisted : List Input} {result : Scan}
    (h : List.Forall₂ Input.Relisted inputs relisted)
    (hdistinct : ∀ input ∈ inputs, input.Distinct)
    (hscan : scan workingDirectory inputs unpack = .ok result) :
    scan workingDirectory relisted unpack = .ok result := by
  obtain ⟨sites, hsurvey, hrest⟩ := scan_eq_ok_iff.1 hscan
  have hsame := (thinned_flatMap_candidates h hdistinct).survey (fun _ => true)
    (fun first _ second hrevised sites hsites => by
      rw [List.filter_true]
      exact hsites.relisted hrevised)
    (fun _ _ hlost => hlost.elim) hsurvey
  rw [List.filter_true] at hsame
  exact scan_eq_ok_iff.2 ⟨sites, hsame, hrest⟩

/-! ## The account of a scan -/

/-- The account of a scan that succeeds.  The sites of the inputs are taken in
just one order, each of them has a class or is skipped, and those that were
given as inputs have classes.  The result stays the same when directories and
archives list what they hold in another order. -/
theorem scan_conserves {inputs : List Input} {result : Scan}
    (hdistinct : ∀ input ∈ inputs, input.Distinct)
    (hscan : scan workingDirectory inputs unpack = .ok result) :
    result.classCount = result.classes.length ∧
      (∃ sites, (∀ others, Surveys workingDirectory unpack inputs others ↔ others = sites) ∧
        result.classes = sites.filterMap (·.class?) ∧
        result.skipped = (sites.filter (·.class?.isNone)).map (·.label) ∧
        result.classes.length + result.skipped.length = sites.length ∧
        (∀ site ∈ sites, site.named = true → site.class?.isSome) ∧
        ∀ site ∈ sites, ∀ cls, site.class? = some cls → cls.uri = some site.uri) ∧
      ∀ relisted, List.Forall₂ Input.Relisted inputs relisted →
        scan workingDirectory relisted unpack = .ok result := by
  obtain ⟨sites, hsurvey, hsettled, rfl⟩ := scan_eq_ok_iff.1 hscan
  refine ⟨rfl, ⟨sites, fun others => ?_, rfl, rfl, Scan.length_ofSites sites, hsettled,
    fun site _ cls => site.uri_of_class?⟩,
    fun relisted h => scan_relisted h hdistinct hscan⟩
  rw [surveys_iff hdistinct]
  exact ⟨fun hothers => hothers.inj hsurvey, fun h => h ▸ hsurvey⟩

/-! ## A library -/

/-- The class file of a class `A` without members. -/
def bareClass : ByteArray :=
  ⟨#[0xca, 0xfe, 0xba, 0xbe, 0, 0, 0, 0x34, 0, 3, 1, 0, 1, 0x41, 7, 0, 1, 0, 0x21, 0, 2, 0, 0, 0,
    0, 0, 0, 0, 0, 0, 0]⟩

/-- The same, deflated. -/
def packedClass : List UInt8 :=
  [0x3b, 0xf5, 0x6f, 0xd7, 0x3e, 6, 6, 6, 0x13, 6, 0x66, 0x46, 6, 0x46, 0x47, 0x76, 6, 0x46, 6,
    0x45, 6, 0x26, 6, 0x38, 0, 0]

/-- The header of an entry `A.class` that holds the deflated class. -/
def classHeader (position : Nat) : Archive.Header :=
  { name := "A.class"
    nameBytes := "A.class".toUTF8.toList
    comment := ""
    flags := 0
    hasCipher := false
    packing := .packed 8
    checksum := 0x52ce0261
    size := 26
    fullSize := 31
    position }

/-- The header of an entry `b.class` that holds a single zero. -/
def zeroHeader : Archive.Header :=
  { name := "b.class"
    nameBytes := "b.class".toUTF8.toList
    comment := ""
    flags := 0
    hasCipher := false
    packing := .stored
    checksum := 0xd202ef8d
    size := 1
    fullSize := 1
    position := 0 }

/-- An archive with these two entries, in the order of their contents. -/
def mixedJar : ByteArray :=
  Archive.plain [(zeroHeader, [0]), (classHeader 38, packedClass)] [zeroHeader, classHeader 38]

/-- The same archive with its entries listed the other way round. -/
def swappedJar : ByteArray :=
  Archive.plain [(zeroHeader, [0]), (classHeader 38, packedClass)] [classHeader 38, zeroHeader]

theorem entries_mixedJar : Archive.entries mixedJar =
    .ok ([zeroHeader, classHeader 38].map (·.located mixedJar)) :=
  Archive.entries_of_headers (by decide +kernel) (by decide +kernel) (by decide +kernel)

theorem entries_swappedJar : Archive.entries swappedJar =
    .ok ([classHeader 38, zeroHeader].map (·.located swappedJar)) :=
  Archive.entries_of_headers (by decide +kernel) (by decide +kernel) (by decide +kernel)

theorem relisted_mixedJar : Archive.Relisted "lib/z.jar" mixedJar swappedJar := by
  have hpacked : ∀ header ∈ [classHeader 38, zeroHeader],
      (header.located swappedJar).packed.data.toList =
        (header.located mixedJar).packed.data.toList := by decide +kernel
  have hsame : ∀ header ∈ [classHeader 38, zeroHeader],
      header.located swappedJar = header.located mixedJar := fun header hheader =>
    Archive.Header.located_congr (ByteArray.ext (Array.ext' (hpacked header hheader)))
  refine .inr ⟨by decide, _, _, entries_mixedJar, entries_swappedJar, ?_⟩
  rw [List.map_congr_left hsame]
  exact (List.Perm.swap ..).map _

/-- What is in the entries of the archive, unpacked. -/
def mixedContent (name : String) : ByteArray :=
  if name = "A.class" then bareClass else ⟨#[0]⟩

theorem sites_mixedJar :
    Candidate.Sites "/work" Archive.unpack ⟨"lib/z.jar", false, .ok mixedJar⟩
      (["A.class", "b.class"].map fun name =>
        .ofEntry "/work" "lib/z.jar" name (mixedContent name)) := by
  refine .archive (by decide) entries_mixedJar (by decide +kernel) (by decide) ?_
  simp only [List.forall_mem_cons]
  refine ⟨⟨(classHeader 38).located mixedJar, ?_, rfl, by decide +kernel⟩,
    ⟨zeroHeader.located mixedJar, ?_, rfl, by decide +kernel⟩, nofun⟩
  · exact List.mem_cons_of_mem _ (List.mem_singleton_self _)
  · exact List.mem_cons_self ..

/-- A directory with a file that is no class. -/
def scraps : FileTree :=
  .directory [("bad.class", .file ⟨#[0]⟩)]

/-- The files of the library: an archive, the other directory, and a class. -/
def libraryEntries (jar : ByteArray) : List (String × FileTree) :=
  [("z.jar", .file jar), ("scraps", scraps), ("A.class", .file bareClass)]

def library : FileTree :=
  .directory (libraryEntries mixedJar)

theorem candidates_scraps :
    scraps.candidates "lib/scraps" = [⟨"lib/scraps/bad.class", false, .ok ⟨#[0]⟩⟩] := by
  rw [scraps, FileTree.candidates_directory, FileTree.arranged, List.mergeSort_singleton]
  rfl

theorem candidates_library :
    library.candidates "lib" =
      [⟨"lib/A.class", false, .ok bareClass⟩, ⟨"lib/scraps/bad.class", false, .ok ⟨#[0]⟩⟩,
        ⟨"lib/z.jar", false, .ok mixedJar⟩] := by
  rw [library, FileTree.candidates_directory, ← FileTree.eq_arranged (by decide)
    (List.reverse_perm (libraryEntries mixedJar)) (by decide)]
  have hpath : FileTree.entryPath "lib" ("scraps", scraps) = "lib/scraps" := by decide
  simp only [libraryEntries, List.reverse_cons, List.reverse_nil, List.nil_append, List.cons_append,
    List.flatMap_cons, List.flatMap_nil, hpath, candidates_scraps]
  rfl

theorem distinct_library : library.Distinct := by
  refine .directory (by decide) ?_
  simp only [libraryEntries, List.forall_mem_cons]
  refine ⟨.file _, .directory (by decide) ?_, .file _, nofun⟩
  simp only [List.forall_mem_cons]
  exact ⟨.file _, nofun⟩

/-- The class, if it is found at the given place. -/
def classAt (uri : String) : Class :=
  { name := "A", majorVersion := 52, fields := [], methods := [], uri := some uri }

def libraryScan : Scan :=
  { classes := [classAt "file:///work/lib/A.class", classAt "jar:file:///work/lib/z.jar!/A.class"]
    classCount := 2
    skipped := ["lib/scraps/bad.class", "lib/z.jar:b.class"] }

def libraryInput : Input :=
  { path := "lib", tree := .ok library }

/-- The sites of the library, in order. -/
def librarySites : List Site :=
  [.ofFile "/work" ⟨"lib/A.class", false, .ok bareClass⟩,
    .ofFile "/work" ⟨"lib/scraps/bad.class", false, .ok ⟨#[0]⟩⟩,
    .ofEntry "/work" "lib/z.jar" "A.class" bareClass,
    .ofEntry "/work" "lib/z.jar" "b.class" ⟨#[0]⟩]

theorem survey_library :
    Candidate.Survey "/work" Archive.unpack ([libraryInput].flatMap Input.candidates)
      librarySites := by
  have hcandidates : [libraryInput].flatMap Input.candidates = library.candidates "lib" :=
    List.append_nil _
  rw [hcandidates, candidates_library]
  exact ⟨_, .cons (.classFile (by decide)) (.cons (.classFile (by decide))
    (.cons sites_mixedJar .nil)), rfl⟩

theorem scan_library : scan "/work" [libraryInput] = .ok libraryScan :=
  scan_eq_ok_iff.2 ⟨librarySites, survey_library, Site.settled_of_unnamed (by decide),
    by decide +kernel⟩

/-- The library with all its entries listed the other way round. -/
def reversedInput : Input :=
  { path := "lib", tree := .ok (.directory (libraryEntries swappedJar).reverse) }

/-- What stands in place of an entry of the library. -/
def relistedEntry (entry : String × FileTree) : FileTree :=
  if entry.1 = "z.jar" then .file swappedJar else entry.2

theorem relisted_library : List.Forall₂ Input.Relisted [libraryInput] [reversedInput] := by
  have hscraps : FileTree.Revised Archive.Relisted (fun _ _ => False) "lib/scraps" scraps scraps :=
    .reordered (·.2) (.refl _) (List.forall_mem_singleton.2 (.file (.inl rfl)))
  refine .cons (.found (.reordered relistedEntry (List.reverse_perm _) ?_)) .nil
  simp only [libraryEntries, List.forall_mem_cons]
  exact ⟨.file relisted_mixedJar, hscraps, .file (.inl rfl), nofun⟩

/-- Both ways round, the same sites have classes and the same are skipped. -/
theorem library_conserves :
    (∀ input ∈ [libraryInput], input.Distinct) ∧
      scan "/work" [libraryInput] = .ok libraryScan ∧
      (∃ sites, (∀ others, Surveys "/work" Archive.unpack [libraryInput] others ↔ others = sites) ∧
        libraryScan.classes = sites.filterMap (·.class?) ∧
        libraryScan.skipped = (sites.filter (·.class?.isNone)).map (·.label)) ∧
      List.Forall₂ Input.Relisted [libraryInput] [reversedInput] ∧
      scan "/work" [reversedInput] = .ok libraryScan := by
  have hdistinct : ∀ input ∈ [libraryInput], input.Distinct := by
    rw [List.forall_mem_singleton]
    rintro _ ⟨⟩
    exact distinct_library
  obtain ⟨-, ⟨sites, hsites, hclasses, hskipped, -⟩, hrelisted⟩ :=
    scan_conserves hdistinct scan_library
  exact ⟨hdistinct, scan_library, ⟨sites, hsites, hclasses, hskipped⟩, relisted_library,
    hrelisted [reversedInput] relisted_library⟩

end BytecodeLint
