import BytecodeLint.Proofs.Order
import BytecodeLint.Scan
import Mathlib.Data.List.Nodup

/-!
# The order in which a tree is gone through

A scan goes through a tree from the root down, and takes the entries of a
directory by their path names.  A disk may list the entries in any order.  So
the order of a scan is said here without a sort, by what is true of the files
that are visited, and it is shown that there is just one such order.

There are three groups.

* `FileTree.Distinct`: no directory has two entries of one name.
* `FileTree.Traversal` says in which order the files of a tree may be visited.
  `traversal_iff` shows that `candidates` is the only such order.
* `FileTree.Revised` relates a tree to another one in which files have other
  contents or are missing, and in which directories are listed in another
  order.  `Revised.thinned` follows this change through the visits.
-/

namespace BytecodeLint

/-! ## Names -/

/-- No directory of the tree has two entries of one name. -/
inductive FileTree.Distinct : FileTree → Prop
  | file (content : ByteArray) : Distinct (.file content)
  | unreadable (fault : PathFault) : Distinct (.unreadable fault)
  | directory {entries : List (String × FileTree)} (names : (entries.map (·.1)).Nodup)
      (each : ∀ entry ∈ entries, Distinct entry.2) : Distinct (.directory entries)

/-- The path name of an entry of a directory. -/
def FileTree.entryPath (path : String) (entry : String × FileTree) : String :=
  Pathname.join path entry.1

theorem Pathname.join_inj {directory name other : String}
    (h : join directory name = join directory other) : name = other := by
  unfold join at h
  split at h
  · exact (String.append_right_inj _).1 h
  · exact (String.append_right_inj _).1 h

/-- Texts are put in one order only. -/
theorem eq_of_ascending {left right : String} (h : (compare left right).isLE = true)
    (hback : (compare right left).isLE = true) : left = right :=
  Std.LawfulEqCmp.eq_of_compare (Std.OrientedCmp.isLE_antisymm h hback)

/-! ## Visits in order -/

namespace FileTree

/-- The files of the tree that stands at `path`, in an order in which they may
be visited.  A directory is left when all that is in it has been visited, and
its entries are taken by ascending path names. -/
inductive Traversal : String → FileTree → List Candidate → Prop
  | file {path : String} (content : ByteArray) :
      Traversal path (.file content) [{ path, named := false, content := .ok content }]
  | unreadable {path : String} (fault : PathFault) :
      Traversal path (.unreadable fault) [{ path, named := false, content := .error fault }]
  | directory {path : String} {entries order : List (String × FileTree)}
      {visited : String × FileTree → List Candidate} (perm : order.Perm entries)
      (ascending : order.Pairwise fun left right =>
        (compare (entryPath path left) (entryPath path right)).isLE)
      (each : ∀ entry ∈ order, Traversal (entryPath path entry) entry.2 (visited entry)) :
      Traversal path (.directory entries) (order.flatMap visited)

/-- The entries of a directory by ascending path names. -/
def arranged (path : String) (entries : List (String × FileTree)) : List (String × FileTree) :=
  entries.mergeSort fun left right => (compare (entryPath path left) (entryPath path right)).isLE

variable {path : String} {tree : FileTree} {entries order : List (String × FileTree)}

theorem listing_eq_map (path : String) (entries : List (String × FileTree)) :
    listing path entries = entries.map fun entry =>
      (entryPath path entry, entry.2.candidates (entryPath path entry)) := by
  induction entries with
  | nil => rfl
  | cons entry rest ih =>
    obtain ⟨name, tree⟩ := entry
    exact congrArg (entryCandidates path (name, tree) :: ·) ih

theorem candidates_directory (path : String) (entries : List (String × FileTree)) :
    (directory entries).candidates path =
      (arranged path entries).flatMap fun entry => entry.2.candidates (entryPath path entry) := by
  have hsort : ((listing path entries).mergeSort fun left right =>
        (compare left.1 right.1).isLE) =
      (arranged path entries).map fun entry =>
        (entryPath path entry, entry.2.candidates (entryPath path entry)) := by
    rw [listing_eq_map, arranged, List.map_mergeSort]
    exact fun _ _ _ _ => rfl
  show ((listing path entries).mergeSort _).flatMap (·.2) = _
  rw [hsort, List.flatMap_map]

theorem arranged_perm (path : String) (entries : List (String × FileTree)) :
    (arranged path entries).Perm entries :=
  List.mergeSort_perm ..

theorem pairwise_arranged (path : String) (entries : List (String × FileTree)) :
    (arranged path entries).Pairwise fun left right =>
      (compare (entryPath path left) (entryPath path right)).isLE :=
  List.pairwise_mergeSort (fun _ _ _ => Std.TransCmp.isLE_trans) (fun _ _ => isLE_total _ _) entries

/-- Entries of different names can be arranged in one way only. -/
theorem eq_arranged (hnames : (entries.map (·.1)).Nodup) (hperm : order.Perm entries)
    (hascending : order.Pairwise fun left right =>
      (compare (entryPath path left) (entryPath path right)).isLE) :
    order = arranged path entries := by
  refine List.Perm.eq_of_pairwise ?_ hascending (pairwise_arranged path entries)
    (hperm.trans (arranged_perm path entries).symm)
  intro left right hleft hright hle hback
  refine List.inj_on_of_nodup_map hnames (hperm.mem_iff.1 hleft)
    ((arranged_perm path entries).mem_iff.1 hright) ?_
  exact Pathname.join_inj (eq_of_ascending hle hback)

/-- The files of a tree are visited in just one order. -/
theorem traversal_iff (h : tree.Distinct) {visited : List Candidate} :
    Traversal path tree visited ↔ visited = tree.candidates path := by
  induction h generalizing path visited with
  | file content =>
    refine ⟨fun h => ?_, fun h => h ▸ .file content⟩
    cases h
    rfl
  | unreadable fault =>
    refine ⟨fun h => ?_, fun h => h ▸ .unreadable fault⟩
    cases h
    rfl
  | @directory entries names each ih =>
    rw [candidates_directory]
    constructor
    · intro h
      cases h with
      | @directory _ _ order found perm ascending parts =>
        obtain rfl := eq_arranged names perm ascending
        refine List.flatMap_congr fun entry hentry => ?_
        exact (ih entry (perm.mem_iff.1 hentry)).1 (parts entry hentry)
    · rintro rfl
      refine .directory (arranged_perm path entries) (pairwise_arranged path entries) ?_
      intro entry hentry
      exact (ih entry ((arranged_perm path entries).mem_iff.1 hentry)).2 rfl

end FileTree

/-! ## Changes of a tree -/

section Changes

-- Here `same` tells which contents may stand in place of others, and `lost`
-- which files may be missing, both by the path names of the files.
variable {same : String → ByteArray → ByteArray → Prop} {lost : String → ByteArray → Prop}
  {path : String}

/-- What is left of an entry, under the name of the entry. -/
def FileTree.leftEntry (left : String × FileTree → Option FileTree)
    (entry : String × FileTree) : Option (String × FileTree) :=
  (left entry).map (entry.1, ·)

/-- The second tree is the first one with other contents of files.  Some files
may be missing, and directories may list what is left in any order.  Here
`left` gives what is left of an entry. -/
inductive FileTree.Revised (same : String → ByteArray → ByteArray → Prop)
    (lost : String → ByteArray → Prop) : String → FileTree → FileTree → Prop
  | file {path : String} {content revised : ByteArray} (h : same path content revised) :
      Revised same lost path (.file content) (.file revised)
  | unreadable {path : String} (fault : PathFault) :
      Revised same lost path (.unreadable fault) (.unreadable fault)
  | directory {path : String} {entries revised : List (String × FileTree)}
      (left : String × FileTree → Option FileTree)
      (listed : revised.Perm (entries.filterMap (leftEntry left)))
      (kept : ∀ entry ∈ entries, ∀ tree, left entry = some tree →
        Revised same lost (FileTree.entryPath path entry) entry.2 tree)
      (missing : ∀ entry ∈ entries, left entry = none → ∃ content,
        entry.2 = .file content ∧ lost (FileTree.entryPath path entry) content) :
      Revised same lost path (.directory entries) (.directory revised)

/-- A change that leaves out no entry of a directory. -/
theorem FileTree.Revised.reordered {entries revised : List (String × FileTree)}
    (changed : String × FileTree → FileTree)
    (hperm : revised.Perm (entries.map fun entry => (entry.1, changed entry)))
    (heach : ∀ entry ∈ entries,
      Revised same lost (entryPath path entry) entry.2 (changed entry)) :
    Revised same lost path (.directory entries) (.directory revised) := by
  refine .directory (fun entry => some (changed entry)) ?_ ?_ fun _ _ => nofun
  · have hsame : entries.filterMap (leftEntry fun entry => some (changed entry)) =
        entries.map fun entry => (entry.1, changed entry) :=
      congrFun List.filterMap_eq_map' entries
    rwa [hsame]
  · rintro entry hentry _ ⟨⟩
    exact heach entry hentry

/-- The same file, with a content that may stand in place of its own. -/
inductive Candidate.Revised (same : String → ByteArray → ByteArray → Prop) :
    Candidate → Candidate → Prop
  | read {path : String} {named : Bool} {content revised : ByteArray}
      (h : same path content revised) :
      Revised same ⟨path, named, .ok content⟩ ⟨path, named, .ok revised⟩
  | unread (path : String) (named : Bool) (fault : PathFault) :
      Revised same ⟨path, named, .error fault⟩ ⟨path, named, .error fault⟩

/-- The second list has the same files in the same order, but those that may be
missing. -/
inductive Candidate.Thinned (same : String → ByteArray → ByteArray → Prop)
    (lost : String → ByteArray → Prop) : List Candidate → List Candidate → Prop
  | nil : Thinned same lost [] []
  | keep {first revised : Candidate} {rest others : List Candidate}
      (h : Candidate.Revised same first revised) (later : Thinned same lost rest others) :
      Thinned same lost (first :: rest) (revised :: others)
  | drop {path : String} {content : ByteArray} {rest others : List Candidate}
      (h : lost path content) (later : Thinned same lost rest others) :
      Thinned same lost (⟨path, false, .ok content⟩ :: rest) others

theorem Candidate.Thinned.append {first others rest behind : List Candidate}
    (h : Thinned same lost first others) (hrest : Thinned same lost rest behind) :
    Thinned same lost (first ++ rest) (others ++ behind) := by
  induction h with
  | nil => exact hrest
  | keep h _ ih => exact .keep h ih
  | drop h _ ih => exact .drop h ih

namespace FileTree

theorem name_of_leftEntry {left : String × FileTree → Option FileTree}
    {entry other : String × FileTree} (h : leftEntry left entry = some other) :
    other.1 = entry.1 := by
  obtain ⟨tree, _, rfl⟩ := Option.map_eq_some_iff.1 h
  rfl

private theorem thinned_flatMap {left : String × FileTree → Option FileTree}
    (order : List (String × FileTree))
    (hkept : ∀ entry ∈ order, ∀ tree, left entry = some tree →
      Candidate.Thinned same lost (entry.2.candidates (entryPath path entry))
        (tree.candidates (entryPath path entry)))
    (hmissing : ∀ entry ∈ order, left entry = none → ∃ content,
      entry.2 = .file content ∧ lost (entryPath path entry) content) :
    Candidate.Thinned same lost
      (order.flatMap fun entry => entry.2.candidates (entryPath path entry))
      ((order.filterMap (leftEntry left)).flatMap fun entry =>
        entry.2.candidates (entryPath path entry)) := by
  induction order with
  | nil => exact .nil
  | cons entry rest ih =>
    have hrest := ih (fun other hother => hkept other (List.mem_cons_of_mem _ hother))
      (fun other hother => hmissing other (List.mem_cons_of_mem _ hother))
    rw [List.flatMap_cons, List.filterMap_cons, leftEntry]
    cases hleft : left entry with
    | some tree => exact (hkept entry (List.mem_cons_self ..) tree hleft).append hrest
    | none =>
      obtain ⟨content, hfile, hlost⟩ := hmissing entry (List.mem_cons_self ..) hleft
      rw [hfile]
      exact .drop hlost hrest

/-- The files of a changed tree are visited in the order of the first one. -/
theorem Revised.thinned {tree revised : FileTree} (h : Revised same lost path tree revised)
    (hdistinct : tree.Distinct) :
    Candidate.Thinned same lost (tree.candidates path) (revised.candidates path) := by
  induction h with
  | file h => exact .keep (.read h) .nil
  | unreadable fault => exact .keep (.unread _ false fault) .nil
  | @directory path entries revised left listed kept missing ih =>
    cases hdistinct with
    | directory names each =>
    have hmem : ∀ entry ∈ arranged path entries, entry ∈ entries := fun entry hentry =>
      (arranged_perm path entries).mem_iff.1 hentry
    -- What is left of the entries in order is in order, and it is all that is listed.
    have hlisted := ((arranged_perm path entries).filterMap (leftEntry left)).trans listed.symm
    have harranged :
        (arranged path entries).filterMap (leftEntry left) = arranged path revised := by
      refine eq_arranged ?_ hlisted ?_
      · have hsub : ((entries.filterMap (leftEntry left)).map (·.1)).Nodup := by
          refine List.pairwise_map.2 ?_
          refine List.Pairwise.filterMap (leftEntry left) ?_ (List.pairwise_map.1 names)
          intro entry other hne first hfirst second hsecond heq
          exact hne ((name_of_leftEntry hfirst).symm.trans (heq.trans (name_of_leftEntry hsecond)))
        exact ((listed.map (·.1)).nodup_iff).2 hsub
      · refine List.Pairwise.filterMap (leftEntry left) ?_ (pairwise_arranged path entries)
        intro entry other hle first hfirst second hsecond
        unfold entryPath
        rw [name_of_leftEntry hfirst, name_of_leftEntry hsecond]
        exact hle
    rw [candidates_directory, candidates_directory, ← harranged]
    refine thinned_flatMap (arranged path entries) ?_ ?_
    · exact fun entry hentry tree hleft => ih entry (hmem entry hentry) tree hleft
        (each entry (hmem entry hentry))
    · exact fun entry hentry => missing entry (hmem entry hentry)

end FileTree

end Changes

end BytecodeLint
