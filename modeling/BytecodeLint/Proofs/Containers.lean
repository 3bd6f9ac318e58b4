import BytecodeLint.Proofs.Idiom
import BytecodeLint.Proofs.Log
import BytecodeLint.Proofs.Placement
import BytecodeLint.Proofs.Sites

/-!
# Where the report shows a class

A scan gives every class a URI.  That of an entry of an archive is put together
from the URI of the archive, the mark `!/` and the name of the entry, and the
report takes it apart again to show the archive.  It cuts at the first mark, so
it does not find the archive if the mark stands in the path name of the archive
itself.

There are four groups.

* `beforeEntryMark_append_iff`: when a text can be taken apart again.
* What the report shows for the URI of a file and for that of an entry.
* `shown_place` follows a finding from the file that is scanned to the report.
* One class with a finding, in a class file and in an archive.
-/

namespace BytecodeLint

/-! ## The entry mark -/

/-- The mark that separates an archive from an entry stands in the text. -/
def HasEntryMark (text : String) : Prop :=
  ['!', '/'] <:+: text.toList

namespace Sarif

/-- Nothing behind a mark is kept. -/
theorem length_beforeEntryMark_le (front back : List Char) :
    (beforeEntryMark (front ++ '!' :: '/' :: back)).length ≤ front.length := by
  induction front with
  | nil => exact Nat.le_refl 0
  | cons c rest ih =>
    rw [List.cons_append]
    unfold beforeEntryMark
    split
    · exact Nat.zero_le _
    · exact Nat.zero_le _
    · rename_i heq
      cases heq
      exact Nat.succ_le_succ ih

theorem beforeEntryMark_append {front : List Char} (h : ¬['!', '/'] <:+: front)
    (back : List Char) : beforeEntryMark (front ++ '!' :: '/' :: back) = front := by
  induction front with
  | nil => rfl
  | cons c rest ih =>
    rw [List.infix_cons_iff, not_or] at h
    rw [List.cons_append]
    unfold beforeEntryMark
    split
    · rename_i heq
      cases heq
    · -- A mark that begins here would have its slash in `rest`.
      rename_i heq
      obtain ⟨rfl, hrest⟩ := List.cons.inj heq
      cases rest with
      | nil => cases hrest
      | cons d later =>
        obtain ⟨rfl, -⟩ := List.cons.inj hrest
        exact absurd ⟨later, rfl⟩ h.1
    · rename_i heq
      cases heq
      rw [ih h.2]

/-- A text is found again in front of a mark just if it has no mark itself. -/
theorem beforeEntryMark_append_iff {front back : List Char} :
    beforeEntryMark (front ++ '!' :: '/' :: back) = front ↔ ¬['!', '/'] <:+: front := by
  refine ⟨fun h hmark => ?_, fun h => beforeEntryMark_append h back⟩
  obtain ⟨before, after, rfl⟩ := hmark
  have hshort := length_beforeEntryMark_le before (after ++ '!' :: '/' :: back)
  have hsame : before ++ ['!', '/'] ++ after ++ '!' :: '/' :: back =
      before ++ '!' :: '/' :: (after ++ '!' :: '/' :: back) := by simp
  rw [hsame] at h
  rw [h, List.length_append, List.length_append] at hshort
  simp only [List.length_cons, List.length_nil] at hshort
  omega

end Sarif

/-! ## Places in the report -/

theorem toList_fileUri (workingDirectory path : String) :
    (Pathname.fileUri workingDirectory path).toList =
      "file://".toList ++ (Pathname.absolute workingDirectory path).toList :=
  String.toList_append ..

/-- In the URI of a file, a mark can only stand in the path name. -/
theorem hasEntryMark_fileUri {workingDirectory path : String} :
    HasEntryMark (Pathname.fileUri workingDirectory path) ↔
      HasEntryMark (Pathname.absolute workingDirectory path) := by
  unfold HasEntryMark
  rw [toList_fileUri]
  simp [List.infix_cons_iff, List.cons_prefix_cons]

namespace Sarif

theorem container?_fileUri (workingDirectory path : String) :
    container? (Pathname.fileUri workingDirectory path) = none := by
  unfold container?
  rw [Option.map_eq_none_iff]
  cases h : Text.stripStart? (Pathname.fileUri workingDirectory path) "jar:" with
  | none => rfl
  | some rest =>
    have htext := congrArg String.toList (Text.stripStart?_eq_some_iff.1 h)
    rw [toList_fileUri, String.toList_append] at htext
    exact absurd (List.cons.inj htext).1 (by decide)

/-- The archive is found again in the URI of an entry, unless a mark stands in
the URI of the archive. -/
theorem container?_entryUri_iff {uri name : String} :
    container? (entryUri uri name) = some uri ↔ ¬HasEntryMark uri := by
  have hstrip : Text.stripStart? (entryUri uri name) "jar:" = some (uri ++ "!/" ++ name) :=
    Text.stripStart?_eq_some_iff.2 (by simp only [entryUri, String.append_assoc])
  have htext : (uri ++ "!/" ++ name).toList = uri.toList ++ '!' :: '/' :: name.toList := by
    simp
  unfold container? HasEntryMark
  rw [hstrip, Option.map_some, Option.some_inj, htext, ← String.toList_inj, String.toList_ofList]
  exact beforeEntryMark_append_iff

theorem isSome_container?_entryUri (uri name : String) :
    (container? (entryUri uri name)).isSome = true := by
  have hstrip : Text.stripStart? (entryUri uri name) "jar:" = some (uri ++ "!/" ++ name) :=
    Text.stripStart?_eq_some_iff.2 (by simp only [entryUri, String.append_assoc])
  unfold container?
  rw [hstrip]
  rfl

open Json.Step

/-- The file that a result shows. -/
def artifact? (value : Json) : Option String :=
  value.textAt? [member "locations", item 0, member "physicalLocation",
    member "artifactLocation", member "uri"]

/-- The lines that a result shows. -/
def region? (value : Json) : Option Json :=
  value.at? [member "locations", item 0, member "physicalLocation", member "region"]

variable {rules : List Rule} {finding : Finding} {uri : String}

theorem artifact?_result (h : finding.location.uri = some uri) :
    artifact? (result rules finding) = some ((container? uri).getD uri) := by
  have hplace : artifact? (result rules finding) =
      (physicalLocation uri finding.location.line).textAt?
        [member "artifactLocation", member "uri"] := by
    unfold artifact? result location
    rw [h]
    rfl
  rw [hplace, physicalLocation]
  cases container? uri <;> rfl

theorem region?_result (h : finding.location.uri = some uri) :
    region? (result rules finding) =
      if (container? uri).isSome then none
      else finding.location.line.map fun line => .object [("startLine", .number line)] := by
  have hplace : region? (result rules finding) =
      (physicalLocation uri finding.location.line).at? [member "region"] := by
    unfold region? result location
    rw [h]
    rfl
  rw [hplace, physicalLocation]
  cases container? uri with
  | some container => rfl
  | none => cases finding.location.line <;> rfl

end Sarif

/-! ## From the file to the report -/

/-- A class that is scanned in a file is at one of the sites of the file. -/
theorem exists_site_of_scanCandidate {workingDirectory : String} {unpack : Archive.Unpacker}
    {candidate : Candidate} {scanned : Scan}
    (h : scanCandidate workingDirectory unpack candidate = .ok scanned) {cls : Class}
    (hcls : cls ∈ scanned.classes) :
    ∃ sites, candidate.Sites workingDirectory unpack sites ∧
      ∃ site ∈ sites, cls.uri = some site.uri := by
  obtain ⟨sites, hsites, -, rfl⟩ := scanCandidate_eq_ok_iff.1 h
  obtain ⟨site, hsite, hclass⟩ := List.mem_filterMap.1 hcls
  exact ⟨sites, hsites, site, hsite, site.uri_of_class? hclass⟩

/-- A finding is shown at the class file that its class was read from, with its
line if that is known.  If the class was read from an archive, no line is shown.
Then the archive is shown, unless the mark of entries stands in its path name. -/
theorem shown_place {ids : List String} {detectors : List Detector}
    (hselected : selectDetectors ids = .ok detectors) {workingDirectory : String}
    {unpack : Archive.Unpacker} {candidate : Candidate} {scanned : Scan}
    (hscan : scanCandidate workingDirectory unpack candidate = .ok scanned) {cls : Class}
    (hcls : cls ∈ scanned.classes) {finding : Finding}
    (hfinding : finding ∈ (analyzeClass detectors cls).findings) (rules : List Rule) :
    (Pathname.extension? candidate.path = some "class" ∧
        Sarif.artifact? (Sarif.result rules finding) =
          some (Pathname.fileUri workingDirectory candidate.path) ∧
        Sarif.region? (Sarif.result rules finding) =
          finding.location.line.map fun line => .object [("startLine", .number line)]) ∨
      (Pathname.extension? candidate.path = some "jar" ∧
        Sarif.region? (Sarif.result rules finding) = none ∧
        (Sarif.artifact? (Sarif.result rules finding) =
            some (Pathname.fileUri workingDirectory candidate.path) ↔
          ¬HasEntryMark (Pathname.absolute workingDirectory candidate.path))) := by
  obtain ⟨_, _, _, method, _, _, rule, _, visit, _, _, subject, rfl⟩ :=
    exists_marksCall (sublist_of_selected hselected) hfinding
  obtain ⟨sites, hsites, site, hsite, huri⟩ := exists_site_of_scanCandidate hscan hcls
  cases hsites with
  | classFile extension =>
    obtain rfl := List.mem_singleton.1 hsite
    have hfile : Sarif.container? (Site.ofFile workingDirectory candidate).uri = none :=
      Sarif.container?_fileUri ..
    refine .inl ⟨extension, ?_, ?_⟩
    · rw [Sarif.artifact?_result huri, hfile]
      rfl
    · rw [Sarif.region?_result huri, hfile]
      rfl
  | archive extension =>
    obtain ⟨name, _, rfl⟩ := List.mem_map.1 hsite
    refine .inr ⟨extension, ?_, ?_⟩
    · rw [Sarif.region?_result huri]
      exact if_pos (Sarif.isSome_container?_entryUri ..)
    · obtain ⟨container, hcontainer⟩ := Option.isSome_iff_exists.1
        (Sarif.isSome_container?_entryUri (Pathname.fileUri workingDirectory _) name)
      rw [Sarif.artifact?_result huri, ← hasEntryMark_fileUri, ← Sarif.container?_entryUri_iff]
      show some ((Sarif.container? (entryUri _ name)).getD _) = _ ↔ _
      rw [hcontainer]
      rfl
  | other => cases hsite

/-! ## A finding in two places -/

/-- The start of a class file: its first constants name a class `A` above `Object`. -/
def droppingStart : List UInt8 :=
  [0xca, 0xfe, 0xba, 0xbe, 0, 0, 0, 0x34, 0, 0xc, 1, 0, 1, 0x41, 7, 0, 1, 1, 0, 0x10, 0x6a, 0x61,
    0x76, 0x61, 0x2f, 0x6c, 0x61, 0x6e, 0x67, 0x2f, 0x4f, 0x62, 0x6a, 0x65, 0x63, 0x74, 7, 0, 3]

/-- The constants for a call of the constructor. -/
def droppingConstants : List UInt8 :=
  [1, 0, 6, 0x3c, 0x69, 0x6e, 0x69, 0x74, 0x3e, 1, 0, 3, 0x28, 0x29, 0x56, 0xc, 0, 5, 0, 6, 0xa,
    0, 4, 0, 7, 1, 0, 4, 0x43, 0x6f, 0x64, 0x65]

/-- The last constants, and the class without fields. -/
def droppingMiddle : List UInt8 :=
  [1, 0, 3, 0x72, 0x75, 0x6e, 1, 0, 0xf, 0x4c, 0x69, 0x6e, 0x65, 0x4e, 0x75, 0x6d, 0x62, 0x65,
    0x72, 0x54, 0x61, 0x62, 0x6c, 0x65, 0, 0x21, 0, 2, 0, 4, 0, 0, 0, 0, 0, 1]

/-- A method `run` that constructs an object and drops it, in line 7. -/
def droppingMethod : List UInt8 :=
  [0, 9, 0, 0xa, 0, 6, 0, 1, 0, 9, 0, 0, 0, 0x21, 0, 2, 0, 0, 0, 0, 0, 9, 0xbb, 0, 4, 0x59, 0xb7,
    0, 8, 0x57, 0xb1, 0, 0, 0, 1, 0, 0xb, 0, 0, 0, 6, 0, 1, 0, 0, 0, 7, 0, 0]

def droppingFile : ByteArray :=
  ⟨[droppingStart, droppingConstants, droppingMiddle, droppingMethod].flatten.toArray⟩

/-- The checksum is computed part by part, as the kernel cannot go through all of the
file at once. -/
theorem crc32_droppingFile : Checksum.crc32 droppingFile = 0x86bece3f := by
  have hstart : droppingStart.foldl Checksum.step 0xffffffff = 0xd9ce2f1d := by decide +kernel
  have hconstants : droppingConstants.foldl Checksum.step 0xd9ce2f1d = 0x75d1dc62 := by
    decide +kernel
  have hmiddle : droppingMiddle.foldl Checksum.step 0x75d1dc62 = 0xe774b59d := by decide +kernel
  have hmethod : droppingMethod.foldl Checksum.step 0xe774b59d = 0x794131c0 := by decide +kernel
  rw [droppingFile, Checksum.crc32_flatten]
  simp only [List.foldl_cons, List.foldl_nil, hstart, hconstants, hmiddle, hmethod]
  decide

/-- The class in this file, if it is found at the given place. -/
def droppingClass (uri : String) : Class :=
  { name := "A"
    majorVersion := 52
    fields := []
    methods :=
      [ { name := "run"
          descriptor := "()V"
          maxStack := some 2
          code :=
            [ ⟨0, .new, .type "java/lang/Object"⟩
            , ⟨3, 0x59, .none⟩
            , ⟨4, .invokespecial, .call ⟨.special, "java/lang/Object", "<init>", "()V"⟩⟩
            , ⟨7, .pop, .none⟩
            , ⟨8, .voidReturn, .none⟩ ]
          lines := [⟨0, 7⟩]
          handlers := [] } ]
    uri := some uri }

/-- The finding in this class. -/
def droppedAt (uri : String) : Finding :=
  DiscardedObject.discarded.report ⟨"A", "run", "()V", 4, some 7, some uri⟩ none

/-- The header of an entry `A.class` that holds the class file. -/
def droppingHeader : Archive.Header :=
  { name := "A.class"
    nameBytes := "A.class".toUTF8.toList
    comment := ""
    flags := 0
    hasCipher := false
    packing := .stored
    checksum := 0x86bece3f
    size := 156
    fullSize := 156
    position := 0 }

def droppingJar : ByteArray :=
  Archive.plain [(droppingHeader, droppingFile.data.toList)] [droppingHeader]

theorem content_droppingJar :
    (droppingHeader.located droppingJar).content Archive.unpack = .ok droppingFile := by
  have hpacked : (droppingHeader.located droppingJar).packed = droppingFile :=
    ByteArray.ext (Array.ext' (by decide +kernel))
  have hchecksum : Checksum.crc32 (droppingHeader.located droppingJar).packed =
      (droppingHeader.located droppingJar).checksum := by
    rw [hpacked, crc32_droppingFile, Archive.Header.located, droppingHeader]
  rw [Archive.Entry.content_of_stored rfl hchecksum, hpacked]

theorem scan_droppingJar :
    scanCandidate "/work" Archive.unpack ⟨"lib/app.jar", false, .ok droppingJar⟩ =
      .ok (.ofClass (droppingClass "jar:file:///work/lib/app.jar!/A.class")) := by
  have hentries : Archive.entries droppingJar =
      .ok ([droppingHeader].map (·.located droppingJar)) :=
    Archive.entries_of_headers (by decide +kernel) (List.nodup_singleton _) (by decide +kernel)
  have hsites : Candidate.Sites "/work" Archive.unpack ⟨"lib/app.jar", false, .ok droppingJar⟩
      (["A.class"].map fun name => .ofEntry "/work" "lib/app.jar" name droppingFile) := by
    refine .archive (by decide) hentries (by decide +kernel) (List.pairwise_singleton _ _) ?_
    rw [List.forall_mem_singleton]
    exact ⟨_, List.mem_singleton_self _, rfl, content_droppingJar⟩
  exact scanCandidate_eq_ok_iff.2
    ⟨_, hsites, Site.settled_of_unnamed (by decide), by decide +kernel⟩

/-- Read from a class file, the class is shown with the line.  Read from an archive,
it is shown at the archive without a line. -/
theorem dropping_shown_place :
    selectDetectors [] = .ok catalog ∧
      (scanCandidate "/work" Archive.unpack ⟨"lib/A.class", false, .ok droppingFile⟩ =
          .ok (.ofClass (droppingClass "file:///work/lib/A.class")) ∧
        droppedAt "file:///work/lib/A.class" ∈
          (analyzeClass catalog (droppingClass "file:///work/lib/A.class")).findings ∧
        Sarif.artifact? (Sarif.result [] (droppedAt "file:///work/lib/A.class")) =
          some "file:///work/lib/A.class" ∧
        Sarif.region? (Sarif.result [] (droppedAt "file:///work/lib/A.class")) =
          some (.object [("startLine", .number 7)])) ∧
      scanCandidate "/work" Archive.unpack ⟨"lib/app.jar", false, .ok droppingJar⟩ =
          .ok (.ofClass (droppingClass "jar:file:///work/lib/app.jar!/A.class")) ∧
        droppedAt "jar:file:///work/lib/app.jar!/A.class" ∈
          (analyzeClass catalog
            (droppingClass "jar:file:///work/lib/app.jar!/A.class")).findings ∧
        Sarif.artifact? (Sarif.result [] (droppedAt "jar:file:///work/lib/app.jar!/A.class")) =
          some "file:///work/lib/app.jar" ∧
        Sarif.region? (Sarif.result [] (droppedAt "jar:file:///work/lib/app.jar!/A.class")) =
          none := by
  have hselected : selectDetectors [] = .ok catalog := rfl
  have hscan : scanCandidate "/work" Archive.unpack ⟨"lib/A.class", false, .ok droppingFile⟩ =
      .ok (.ofClass (droppingClass "file:///work/lib/A.class")) := by decide +kernel
  have hfound : droppedAt "file:///work/lib/A.class" ∈
      (analyzeClass catalog (droppingClass "file:///work/lib/A.class")).findings := by
    decide +kernel
  have hpacked : droppedAt "jar:file:///work/lib/app.jar!/A.class" ∈
      (analyzeClass catalog (droppingClass "jar:file:///work/lib/app.jar!/A.class")).findings := by
    decide +kernel
  refine ⟨hselected, ?_, ?_⟩
  · rcases shown_place hselected hscan (List.mem_singleton_self _) hfound [] with
      ⟨-, hartifact, hregion⟩ | ⟨hjar, -⟩
    · exact ⟨hscan, hfound, hartifact, hregion⟩
    · exact absurd hjar (by decide)
  · rcases shown_place hselected scan_droppingJar (List.mem_singleton_self _) hpacked [] with
      ⟨hclass, -⟩ | ⟨-, hregion, hartifact⟩
    · exact absurd hclass (by decide)
    · have hmark : ¬HasEntryMark (Pathname.absolute "/work" "lib/app.jar") := by
        unfold HasEntryMark
        decide +kernel
      exact ⟨scan_droppingJar, hpacked, hartifact.2 hmark, hregion⟩

/-- The URI of the same class in an archive `app.jar` in the directory `lib!`.
What is shown for it is no archive at all. -/
theorem dropping_misplaced :
    Pathname.extension? "lib!/app.jar" = some "jar" ∧ isClassEntry "A.class" = true ∧
      ∃ finding ∈ (analyzeClass catalog
          (droppingClass (entryUri (Pathname.fileUri "/work" "lib!/app.jar") "A.class"))).findings,
        Pathname.fileUri "/work" "lib!/app.jar" = "file:///work/lib!/app.jar" ∧
          Sarif.artifact? (Sarif.result [] finding) = some "file:///work/lib" :=
  ⟨by decide, by decide,
    droppedAt (entryUri (Pathname.fileUri "/work" "lib!/app.jar") "A.class"),
    by decide +kernel, by decide, by decide +kernel⟩

end BytecodeLint
