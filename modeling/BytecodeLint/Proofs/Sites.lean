import BytecodeLint.Proofs.Members

/-!
# The sites of a scan

A scan looks for classes in class files and in the entries of archives.  Such a
place is called a site here.  Which sites there are, and in what order they are
taken, is said without a sort and without the tables that a scan uses.  What a
scan gives is then read off its sites: each has a class or is skipped.

There are five groups.

* `Site` is a place with its bytes, and `Site.class?` is the class there.
* `Candidate.Sites` gives the sites of a file, and `Candidate.Sites.inj` shows
  that there is just one answer.  `scanCandidate_eq_ok_iff` scans a file by its
  sites.
* `Surveys` gives the sites of all inputs, and `surveys_iff` shows that these
  are the sites of the candidates of a scan.
* `scan_eq_ok_iff` says when a scan succeeds, and what it gives.
* `Candidate.Thinned.survey` follows a change of the files.
-/

namespace BytecodeLint

/-! ## Sites -/

/-- A place where a class may be found: a class file, or an entry of an
archive. -/
structure Site where
  /-- The URI of a class that is found there. -/
  uri : String
  /-- The name under which the site is skipped. -/
  label : String
  /-- The site was given as an input. -/
  named : Bool
  /-- The bytes there, if they can be read. -/
  content : Option ByteArray

namespace Site

/-- The class at a site. -/
def class? (site : Site) : Option Class :=
  site.content.bind fun data => (ClassFile.decode data (some site.uri)).toOption

/-- The site of an entry of the archive at `path`. -/
def ofEntry (workingDirectory path name : String) (content : ByteArray) : Site :=
  { uri := entryUri (Pathname.fileUri workingDirectory path) name
    label := path ++ ":" ++ name
    named := false
    content := some content }

/-- The site of a class file. -/
def ofFile (workingDirectory : String) (candidate : Candidate) : Site :=
  { uri := Pathname.fileUri workingDirectory candidate.path
    label := candidate.path
    named := candidate.named
    content := candidate.content.toOption }

/-- Sites that were given as inputs have classes. -/
def Settled (sites : List Site) : Prop :=
  ∀ site ∈ sites, site.named = true → site.class?.isSome

theorem settled_of_unnamed {sites : List Site} (h : ∀ site ∈ sites, site.named = false) :
    Settled sites :=
  fun site hsite hnamed => absurd ((h site hsite).symm.trans hnamed) nofun

end Site

theorem ClassFile.uri_of_decode {data : ByteArray} {uri : Option String} {cls : Class}
    (h : ClassFile.decode data uri = .ok cls) : cls.uri = uri := by
  obtain ⟨_, _, h⟩ := exists_ok_of_bind h
  obtain ⟨_, _, h⟩ := exists_ok_of_bind h
  obtain ⟨_, _, h⟩ := exists_ok_of_bind h
  obtain ⟨_, _, h⟩ := exists_ok_of_bind h
  obtain ⟨_, _, h⟩ := exists_ok_of_bind h
  cases h
  rfl

/-- A class has the URI of its site. -/
theorem Site.uri_of_class? {site : Site} {cls : Class} (h : site.class? = some cls) :
    cls.uri = some site.uri := by
  obtain ⟨data, _, hdecode⟩ := Option.bind_eq_some_iff.1 h
  cases hresult : ClassFile.decode data (some site.uri) with
  | error fault =>
    rw [hresult] at hdecode
    cases hdecode
  | ok found =>
    rw [hresult] at hdecode
    cases hdecode
    exact ClassFile.uri_of_decode hresult

namespace Scan

/-- The classes at some sites, and the names of the sites without a class. -/
def ofSites (sites : List Site) : Scan :=
  { classes := sites.filterMap (·.class?)
    classCount := (sites.filterMap (·.class?)).length
    skipped := (sites.filter (·.class?.isNone)).map (·.label) }

theorem ofSites_append (left right : List Site) :
    ofSites (left ++ right) = ofSites left ++ ofSites right := by
  show ofSites (left ++ right) = append (ofSites left) (ofSites right)
  simp only [ofSites, append, List.filterMap_append, List.filter_append, List.map_append,
    List.length_append]

theorem join_map_ofSites (found : List (List Site)) :
    join (found.map ofSites) = ofSites found.flatten := by
  induction found with
  | nil => rfl
  | cons sites rest ih =>
    rw [List.flatten_cons, ofSites_append, ← ih]
    rfl

theorem ofSites_of_class {site : Site} {cls : Class} (h : site.class? = some cls) :
    ofSites [site] = ofClass cls := by
  simp [ofSites, ofClass, h]

theorem ofSites_of_none {site : Site} (h : site.class? = none) :
    ofSites [site] = ofSkipped site.label := by
  simp [ofSites, ofSkipped, h]

/-- Every site has a class or is skipped. -/
theorem length_ofSites (sites : List Site) :
    (ofSites sites).classes.length + (ofSites sites).skipped.length = sites.length := by
  induction sites with
  | nil => rfl
  | cons site rest ih =>
    simp only [ofSites, List.length_map] at ih ⊢
    cases hclass : site.class? with
    | none =>
      simp [hclass]
      omega
    | some cls =>
      simp [hclass]
      omega

end Scan

/-! ## The sites of a file -/

/-- The sites of a file, in the order in which they are taken.  The entries of
an archive are taken by ascending names, and what is in them is found by their
names.  A file of another kind has no sites, unless it was given as an input:
then it has no answer. -/
inductive Candidate.Sites (workingDirectory : String) (unpack : Archive.Unpacker) :
    Candidate → List Site → Prop
  | classFile {candidate : Candidate}
      (extension : Pathname.extension? candidate.path = some "class") :
      Sites workingDirectory unpack candidate [Site.ofFile workingDirectory candidate]
  | archive {path : String} {named : Bool} {data : ByteArray} {entries : List Archive.Entry}
      {order : List String} {content : String → ByteArray}
      (extension : Pathname.extension? path = some "jar")
      (read : Archive.entries data = .ok entries)
      (perm : order.Perm ((entries.map (·.name)).filter isClassEntry))
      (ascending : order.Pairwise fun left right => (compare left right).isLE)
      (holds : ∀ name ∈ order, Archive.Holds unpack entries name (content name)) :
      Sites workingDirectory unpack { path, named, content := .ok data }
        (order.map fun name => Site.ofEntry workingDirectory path name (content name))
  | other {candidate : Candidate}
      (noClass : Pathname.extension? candidate.path ≠ some "class")
      (noJar : Pathname.extension? candidate.path ≠ some "jar")
      (unnamed : candidate.named = false) : Sites workingDirectory unpack candidate []

variable {workingDirectory path : String} {unpack : Archive.Unpacker} {candidate : Candidate}
  {sites others : List Site}

/-- There is just one answer to what the sites of a file are. -/
theorem Candidate.Sites.inj (h : candidate.Sites workingDirectory unpack sites)
    (hother : candidate.Sites workingDirectory unpack others) : sites = others := by
  cases h with
  | classFile extension =>
    cases hother with
    | classFile => rfl
    | archive jar => exact absurd (extension.symm.trans jar) (by decide)
    | other noClass => exact absurd extension noClass
  | archive extension read perm ascending holds =>
    cases hother with
    | classFile cls => exact absurd (extension.symm.trans cls) (by decide)
    | archive jar read' perm' ascending' holds' =>
      cases read.symm.trans read'
      obtain rfl := (eq_classNames perm ascending).trans (eq_classNames perm' ascending').symm
      refine List.map_congr_left fun name hname => ?_
      rw [(holds name hname).inj (Archive.nodup_nameBytes read) (holds' name hname)]
    | other _ noJar => exact absurd extension noJar
  | other noClass noJar =>
    cases hother with
    | classFile extension => exact absurd extension noClass
    | archive extension => exact absurd extension noJar
    | other => rfl

/-! ## Scans of files -/

section Files

variable {entries : List Archive.Entry} {result : Scan}

theorem Site.class?_ofFile (workingDirectory : String) (candidate : Candidate) :
    (ofFile workingDirectory candidate).class? =
      (candidate.decode workingDirectory).toOption := by
  obtain ⟨path, named, content⟩ := candidate
  cases content with
  | error fault => rfl
  | ok data => exact (toOption_mapError (ScanFault.undecodable path) (ClassFile.decode data _)).symm

theorem scanClass_eq_ok_iff :
    scanClass workingDirectory candidate = .ok result ↔
      Site.Settled [Site.ofFile workingDirectory candidate] ∧
        result = Scan.ofSites [Site.ofFile workingDirectory candidate] := by
  have hclass := Site.class?_ofFile workingDirectory candidate
  unfold scanClass Site.Settled
  rw [List.forall_mem_singleton]
  cases hdecode : candidate.decode workingDirectory with
  | ok cls =>
    rw [hdecode] at hclass
    rw [Scan.ofSites_of_class hclass, hclass]
    exact ⟨fun h => ⟨fun _ => rfl, (Except.ok.inj h).symm⟩, fun h => congrArg _ h.2.symm⟩
  | error fault =>
    rw [hdecode] at hclass
    rw [Scan.ofSites_of_none hclass, hclass]
    by_cases hnamed : candidate.named = true
    · simp only [if_pos hnamed]
      exact ⟨nofun, fun h => absurd (h.1 hnamed) nofun⟩
    · simp only [if_neg hnamed]
      exact ⟨fun h => ⟨fun hname => absurd hname hnamed, (Except.ok.inj h).symm⟩,
        fun h => congrArg _ h.2.symm⟩

/-- What is in an entry of an archive never makes a scan fail. -/
theorem scanEntry_of_holds (hnames : (entries.map (·.nameBytes)).Nodup) {name : String}
    {content : ByteArray} (h : Archive.Holds unpack entries name content) :
    scanEntry workingDirectory unpack path (Archive.index entries) name =
      .ok (Scan.ofSites [Site.ofEntry workingDirectory path name content]) := by
  unfold scanEntry
  rw [(Archive.contentOf_eq_ok_iff hnames).2 h]
  have hclass : (Site.ofEntry workingDirectory path name content).class? =
      (ClassFile.decode content
        (some (entryUri (Pathname.fileUri workingDirectory path) name))).toOption := rfl
  simp only [Except.mapError, bind, Except.bind]
  cases hdecode : ClassFile.decode content
      (some (entryUri (Pathname.fileUri workingDirectory path) name)) with
  | ok cls =>
    rw [hdecode] at hclass
    rw [Scan.ofSites_of_class hclass]
    rfl
  | error fault =>
    rw [hdecode] at hclass
    rw [Scan.ofSites_of_none hclass]
    rfl

theorem exists_holds_of_scanEntry (hnames : (entries.map (·.nameBytes)).Nodup) {name : String}
    (h : scanEntry workingDirectory unpack path (Archive.index entries) name = .ok result) :
    ∃ content, Archive.Holds unpack entries name content := by
  obtain ⟨content, hcontent, _⟩ := exists_ok_of_bind h
  exact ⟨content, (Archive.contentOf_eq_ok_iff hnames).1 (ok_of_mapError hcontent)⟩

theorem scanEntries_of_holds (hnames : (entries.map (·.nameBytes)).Nodup)
    {content : String → ByteArray}
    (h : ∀ name ∈ classNames entries, Archive.Holds unpack entries name (content name)) :
    scanEntries workingDirectory unpack path entries =
      .ok (Scan.ofSites ((classNames entries).map fun name =>
        Site.ofEntry workingDirectory path name (content name))) := by
  have hread : (classNames entries).mapM
      (scanEntry workingDirectory unpack path (Archive.index entries)) =
      .ok ((classNames entries).map fun name =>
        Scan.ofSites [Site.ofEntry workingDirectory path name (content name)]) := by
    rw [mapM_eq_ok_iff, List.forall₂_map_right_iff]
    exact List.forall₂_same.2 fun name hname => scanEntry_of_holds hnames (h name hname)
  unfold scanEntries
  rw [hread, List.map_eq_flatMap (f := fun name => Site.ofEntry _ path name (content name)),
    List.flatMap_def, ← Scan.join_map_ofSites, List.map_map]
  rfl

theorem exists_holds_of_scanEntries (hnames : (entries.map (·.nameBytes)).Nodup)
    (h : scanEntries workingDirectory unpack path entries = .ok result) :
    ∃ content : String → ByteArray,
      ∀ name ∈ classNames entries, Archive.Holds unpack entries name (content name) := by
  obtain ⟨results, hread, _⟩ := map_eq_ok_iff.1 h
  have heach : ∀ name ∈ classNames entries, ∃ content, Archive.Holds unpack entries name content :=
    ((List.forall₂_and_left _ _).1 ((mapM_eq_ok_iff.1 hread).imp fun _ _ hname =>
      ⟨exists_holds_of_scanEntry hnames hname, hname⟩)).1
  choose! content hcontent using heach
  exact ⟨content, hcontent⟩

theorem scanArchive_of_entries {named : Bool} {data : ByteArray}
    (h : Archive.entries data = .ok entries) :
    scanArchive workingDirectory unpack { path, named, content := .ok data } =
      scanEntries workingDirectory unpack path entries := by
  show (Archive.entries data).mapError _ >>= _ = _
  rw [h]
  rfl

theorem scanArchive_eq_ok_iff (hextension : Pathname.extension? candidate.path = some "jar") :
    scanArchive workingDirectory unpack candidate = .ok result ↔
      ∃ sites, candidate.Sites workingDirectory unpack sites ∧ Site.Settled sites ∧
        result = Scan.ofSites sites := by
  obtain ⟨path, named, content⟩ := candidate
  have hclass : Pathname.extension? path ≠ some "class" := by
    rw [show Pathname.extension? path = some "jar" from hextension]
    decide
  constructor
  · intro h
    obtain ⟨data, hdata, h⟩ := exists_ok_of_bind h
    obtain ⟨entries, hentries, h⟩ := exists_ok_of_bind h
    cases ok_of_mapError hdata
    have hread := ok_of_mapError hentries
    have hnames := Archive.nodup_nameBytes hread
    obtain ⟨content, hcontent⟩ := exists_holds_of_scanEntries hnames h
    refine ⟨_, .archive hextension hread (classNames_perm_filter entries)
      (pairwise_classNames entries) hcontent, Site.settled_of_unnamed ?_, ?_⟩
    · exact List.forall_mem_map.2 fun _ _ => rfl
    rw [scanEntries_of_holds hnames hcontent] at h
    exact (Except.ok.inj h).symm
  · rintro ⟨sites, hsites, -, rfl⟩
    cases hsites with
    | classFile extension => exact absurd extension hclass
    | archive extension read perm ascending holds =>
      obtain rfl := eq_classNames perm ascending
      rw [scanArchive_of_entries read]
      exact scanEntries_of_holds (Archive.nodup_nameBytes read) holds
    | other _ noJar => exact absurd hextension noJar

/-- A file is scanned by its sites. -/
theorem scanCandidate_eq_ok_iff :
    scanCandidate workingDirectory unpack candidate = .ok result ↔
      ∃ sites, candidate.Sites workingDirectory unpack sites ∧ Site.Settled sites ∧
        result = Scan.ofSites sites := by
  unfold scanCandidate
  split
  · rename_i hextension
    rw [scanClass_eq_ok_iff]
    refine ⟨fun h => ⟨_, .classFile hextension, h⟩, fun ⟨sites, hsites, h⟩ => ?_⟩
    rwa [hsites.inj (.classFile hextension)] at h
  · rename_i hextension
    exact scanArchive_eq_ok_iff hextension
  · rename_i hclass hjar
    by_cases hnamed : candidate.named = true
    · rw [if_pos hnamed]
      refine ⟨nofun, fun ⟨sites, hsites, _⟩ => ?_⟩
      cases hsites with
      | classFile extension => exact absurd extension hclass
      | archive extension => exact absurd extension hjar
      | other _ _ unnamed => exact absurd (unnamed.symm.trans hnamed) nofun
    · rw [if_neg hnamed]
      have hnone : candidate.Sites workingDirectory unpack [] :=
        .other hclass hjar (Bool.eq_false_iff.2 hnamed)
      refine ⟨fun h => ⟨_, hnone, nofun, (Except.ok.inj h).symm⟩, fun ⟨sites, hsites, h⟩ => ?_⟩
      rw [h.2, hsites.inj hnone]
      rfl

end Files

/-! ## Surveys -/

/-- The sites of some files, one file after another. -/
def Candidate.Survey (workingDirectory : String) (unpack : Archive.Unpacker)
    (candidates : List Candidate) (sites : List Site) : Prop :=
  ∃ found, List.Forall₂ (Candidate.Sites workingDirectory unpack) candidates found ∧
    sites = found.flatten

/-- The files of an input, in the order in which they are visited. -/
inductive Input.Visited : Input → List Candidate → Prop
  | missing {path : String} (fault : PathFault) :
      Visited { path, tree := .error fault } [{ path, named := true, content := .error fault }]
  | file {path : String} (content : ByteArray) :
      Visited { path, tree := .ok (.file content) }
        [{ path, named := true, content := .ok content }]
  | unreadable {path : String} (fault : PathFault) :
      Visited { path, tree := .ok (.unreadable fault) }
        [{ path, named := true, content := .error fault }]
  | directory {path : String} {entries : List (String × FileTree)} {visited : List Candidate}
      (traversal : FileTree.Traversal path (.directory entries) visited) :
      Visited { path, tree := .ok (.directory entries) } visited

/-- The sites of some inputs, one input after another. -/
def Surveys (workingDirectory : String) (unpack : Archive.Unpacker) (inputs : List Input)
    (sites : List Site) : Prop :=
  ∃ visits, List.Forall₂ Input.Visited inputs visits ∧
    Candidate.Survey workingDirectory unpack visits.flatten sites

/-- No directory of the input has two entries of one name. -/
def Input.Distinct (input : Input) : Prop :=
  ∀ tree, input.tree = .ok tree → tree.Distinct

theorem Candidate.Survey.inj {candidates : List Candidate}
    (h : Candidate.Survey workingDirectory unpack candidates sites)
    (hother : Candidate.Survey workingDirectory unpack candidates others) : sites = others := by
  obtain ⟨found, hfound, rfl⟩ := h
  obtain ⟨_, hsame, rfl⟩ := hother
  have hunique : Relator.RightUnique (Candidate.Sites workingDirectory unpack) :=
    fun _ _ _ hsites => hsites.inj
  rw [List.right_unique_forall₂' hunique hfound hsame]

theorem Input.visited_iff {input : Input} (h : input.Distinct) {visited : List Candidate} :
    input.Visited visited ↔ visited = input.candidates := by
  obtain ⟨path, tree⟩ := input
  constructor
  · intro hvisited
    cases hvisited with
    | missing => rfl
    | file => rfl
    | unreadable => rfl
    | directory traversal => exact (FileTree.traversal_iff (h _ rfl)).1 traversal
  · rintro rfl
    match tree with
    | .error fault => exact .missing fault
    | .ok (.file content) => exact .file content
    | .ok (.unreadable fault) => exact .unreadable fault
    | .ok (.directory entries) => exact .directory ((FileTree.traversal_iff (h _ rfl)).2 rfl)

theorem forall₂_visited_iff {inputs : List Input} (h : ∀ input ∈ inputs, input.Distinct)
    {visits : List (List Candidate)} :
    List.Forall₂ Input.Visited inputs visits ↔ visits = inputs.map Input.candidates := by
  induction inputs generalizing visits with
  | nil => exact List.forall₂_nil_left_iff
  | cons input rest ih =>
    rw [List.forall₂_cons_left_iff, List.map_cons]
    simp only [Input.visited_iff (h input (List.mem_cons_self ..)),
      ih fun other hother => h other (List.mem_cons_of_mem _ hother)]
    constructor
    · rintro ⟨_, _, rfl, rfl, rfl⟩
      rfl
    · rintro rfl
      exact ⟨_, _, rfl, rfl, rfl⟩

/-- The files of a survey are those of a scan. -/
theorem surveys_iff {inputs : List Input} (h : ∀ input ∈ inputs, input.Distinct) :
    Surveys workingDirectory unpack inputs sites ↔
      Candidate.Survey workingDirectory unpack (inputs.flatMap Input.candidates) sites := by
  unfold Surveys
  simp only [forall₂_visited_iff h, exists_eq_left, List.flatMap_def]

/-! ## Scans -/

theorem mapM_scanCandidate_iff {candidates : List Candidate} {results : List Scan} :
    candidates.mapM (scanCandidate workingDirectory unpack) = .ok results ↔
      ∃ found, List.Forall₂ (Candidate.Sites workingDirectory unpack) candidates found ∧
        Site.Settled found.flatten ∧ results = found.map Scan.ofSites := by
  rw [mapM_eq_ok_iff]
  simp only [scanCandidate_eq_ok_iff]
  induction candidates generalizing results with
  | nil =>
    simp only [List.forall₂_nil_left_iff]
    exact ⟨fun h => ⟨[], rfl, nofun, h⟩, fun ⟨_, hfound, _, h⟩ => by rw [h, hfound]; rfl⟩
  | cons candidate rest ih =>
    simp only [List.forall₂_cons_left_iff, ih]
    constructor
    · rintro ⟨_, _, ⟨sites, hsites, hsettled, rfl⟩, ⟨found, hfound, hrest, rfl⟩, rfl⟩
      refine ⟨sites :: found, ⟨sites, found, hsites, hfound, rfl⟩, ?_, rfl⟩
      exact List.forall_mem_append.2 ⟨hsettled, hrest⟩
    · rintro ⟨_, ⟨sites, found, hsites, hfound, rfl⟩, hsettled, rfl⟩
      obtain ⟨hfirst, hrest⟩ := List.forall_mem_append.1 hsettled
      exact ⟨_, _, ⟨sites, hsites, hfirst, rfl⟩, ⟨found, hfound, hrest, rfl⟩, rfl⟩

/-- A scan succeeds if all sites that were given as inputs have classes.  It
gives the classes at its sites. -/
theorem scan_eq_ok_iff {inputs : List Input} {result : Scan} :
    scan workingDirectory inputs unpack = .ok result ↔
      ∃ sites, Candidate.Survey workingDirectory unpack (inputs.flatMap Input.candidates) sites ∧
        Site.Settled sites ∧ result = Scan.ofSites sites := by
  unfold scan
  rw [map_eq_ok_iff]
  simp only [mapM_scanCandidate_iff]
  constructor
  · rintro ⟨_, ⟨found, hfound, hsettled, rfl⟩, rfl⟩
    exact ⟨_, ⟨found, hfound, rfl⟩, hsettled, Scan.join_map_ofSites found⟩
  · rintro ⟨_, ⟨found, hfound, rfl⟩, hsettled, rfl⟩
    exact ⟨_, ⟨found, hfound, hsettled, rfl⟩, Scan.join_map_ofSites found⟩

/-! ## Surveys after a change -/

section Changes

variable {same : String → ByteArray → ByteArray → Prop} {lost : String → ByteArray → Prop}
  {candidates revised : List Candidate}

/-- If every change of a file keeps some of its sites, the survey of the changed
files has these sites. -/
theorem Candidate.Thinned.survey (h : Candidate.Thinned same lost candidates revised)
    (keep : Site → Bool)
    (hsame : ∀ first ∈ candidates, ∀ second, Candidate.Revised same first second →
      ∀ sites, first.Sites workingDirectory unpack sites →
        second.Sites workingDirectory unpack (sites.filter keep))
    (hlost : ∀ path content, lost path content → ∀ sites,
      Candidate.Sites workingDirectory unpack ⟨path, false, .ok content⟩ sites →
        sites.filter keep = [])
    (hsurvey : Candidate.Survey workingDirectory unpack candidates sites) :
    Candidate.Survey workingDirectory unpack revised (sites.filter keep) := by
  induction h generalizing sites with
  | nil =>
    obtain ⟨_, _ | _, rfl⟩ := hsurvey
    exact ⟨[], .nil, rfl⟩
  | @keep first second rest others h later ih =>
    obtain ⟨_, _ | ⟨hfirst, hrest⟩, rfl⟩ := hsurvey
    obtain ⟨found, hfound, hsites⟩ := ih
      (fun other hother => hsame other (List.mem_cons_of_mem _ hother)) ⟨_, hrest, rfl⟩
    refine ⟨_, .cons (hsame first (List.mem_cons_self ..) second h _ hfirst) hfound, ?_⟩
    rw [List.flatten_cons, List.flatten_cons, List.filter_append, hsites]
  | drop h later ih =>
    obtain ⟨_, _ | ⟨hfirst, hrest⟩, rfl⟩ := hsurvey
    obtain ⟨found, hfound, hsites⟩ := ih
      (fun other hother => hsame other (List.mem_cons_of_mem _ hother)) ⟨_, hrest, rfl⟩
    refine ⟨found, hfound, ?_⟩
    rw [List.flatten_cons, List.filter_append, hlost _ _ h _ hfirst, hsites]
    rfl

end Changes

end BytecodeLint
