import BytecodeLint.Proofs.Results
import BytecodeLint.Proofs.Traversal

/-!
# The entries of an archive

The directory of an archive may list its entries in any order, and it may give
the same name more than once.  After the reading every name is there once, told
apart by its bytes.  So an entry is found by its name whatever the order is, and
the classes of an archive are taken in the order of their names.

There are four groups.

* `nodup_nameBytes`: the entries of an archive have different names.
* `Holds` says what is in an archive without a table, and
  `contentOf_eq_ok_iff` shows that the table finds just that, however contents
  are unpacked.
* `plain` writes an archive.
* `classNames` is the only order in which the names of the classes can be put.
-/

namespace BytecodeLint

namespace Archive

/-! ## Names are told apart -/

private theorem getElem?_insertMany_mem {β : Type} {table : Std.HashMap (List UInt8) β}
    {list : List (List UInt8 × β)} {bytes : List UInt8} {found : β}
    (h : (table.insertMany list)[bytes]? = some found) :
    table[bytes]? = some found ∨ (bytes, found) ∈ list := by
  induction list generalizing table with
  | nil => exact .inl (by simpa using h)
  | cons pair rest ih =>
    obtain ⟨key, value⟩ := pair
    rw [Std.HashMap.insertMany_cons] at h
    rcases ih h with hinsert | hrest
    · rw [Std.HashMap.getElem?_insert] at hinsert
      split at hinsert
      · rename_i hkey
        obtain rfl : key = bytes := by simpa using hkey
        cases hinsert
        exact .inr (List.mem_cons_self ..)
      · exact .inl hinsert
    · exact .inr (List.mem_cons_of_mem _ hrest)

/-- A table of items with different names has each under its name. -/
theorem getElem?_ofList_of_nodup {β : Type} {key : β → List UInt8} {list : List β} {item : β}
    (h : (list.map key).Nodup) (hitem : item ∈ list) :
    (Std.HashMap.ofList (list.map fun item => (key item, item)))[key item]? = some item := by
  refine Std.HashMap.getElem?_ofList_of_mem (beq_self_eq_true (key item)) ?_
    (List.mem_map_of_mem hitem)
  rw [List.pairwise_map]
  refine (List.pairwise_map.1 h).imp fun hne => ?_
  exact beq_eq_false_iff_ne.2 hne

/-- What a table of named items has under a name is an item of that name. -/
theorem mem_of_getElem?_ofList {β : Type} {key : β → List UInt8} {list : List β}
    {bytes : List UInt8} {found : β}
    (h : (Std.HashMap.ofList (list.map fun item => (key item, item)))[bytes]? = some found) :
    found ∈ list ∧ key found = bytes := by
  rw [Std.HashMap.ofList_eq_insertMany_empty] at h
  rcases getElem?_insertMany_mem h with hempty | hmem
  · rw [Std.HashMap.getElem?_empty] at hempty
    cases hempty
  · obtain ⟨item, hitem, heq⟩ := List.mem_map.1 hmem
    cases heq
    exact ⟨hitem, rfl⟩

theorem nodup_firstOfEach {table : Std.HashMap (List UInt8) Header}
    (htable : ∀ (bytes : List UInt8) (header : Header),
      table[bytes]? = some header → header.nameBytes = bytes)
    (headers : List Header) (seen : Std.HashSet (List UInt8)) :
    ((firstOfEach table seen headers).map (·.nameBytes)).Nodup ∧
      ∀ header ∈ firstOfEach table seen headers, seen.contains header.nameBytes = false := by
  induction headers generalizing seen with
  | nil => exact ⟨List.nodup_nil, nofun⟩
  | cons header rest ih =>
    rw [firstOfEach]
    by_cases hseen : seen.contains header.nameBytes = true
    · rw [if_pos hseen]
      exact ih seen
    · rw [if_neg hseen]
      obtain ⟨hnodup, hunseen⟩ := ih (seen.insert header.nameBytes)
      have hname : (table.getD header.nameBytes header).nameBytes = header.nameBytes := by
        rw [Std.HashMap.getD_eq_getD_getElem?]
        cases hfound : table[header.nameBytes]? with
        | none => rfl
        | some found => exact htable _ _ hfound
      constructor
      · refine List.nodup_cons.2 ⟨fun hmem => ?_, hnodup⟩
        obtain ⟨other, hother, heq⟩ := List.mem_map.1 hmem
        have hout := hunseen other hother
        have hsame : other.nameBytes = header.nameBytes := heq.trans hname
        rw [hsame, Std.HashSet.contains_insert_self] at hout
        cases hout
      · intro other hother
        rcases List.mem_cons.1 hother with rfl | hother
        · rw [hname]
          exact Bool.eq_false_iff.2 hseen
        · have hout := hunseen other hother
          rw [Std.HashSet.contains_insert, Bool.or_eq_false_iff] at hout
          exact hout.2

theorem nodup_distinct (headers : List Header) : ((distinct headers).map (·.nameBytes)).Nodup :=
  (nodup_firstOfEach (fun _ _ hfound => (mem_of_getElem?_ofList hfound).2) headers ∅).1

theorem firstOfEach_of_nodup {table : Std.HashMap (List UInt8) Header} {headers : List Header}
    {seen : Std.HashSet (List UInt8)}
    (htable : ∀ header ∈ headers, table[header.nameBytes]? = some header)
    (hnames : (headers.map (·.nameBytes)).Nodup)
    (hunseen : ∀ header ∈ headers, seen.contains header.nameBytes = false) :
    firstOfEach table seen headers = headers := by
  induction headers generalizing seen with
  | nil => rfl
  | cons header rest ih =>
    have hfirst := hunseen header (List.mem_cons_self ..)
    rw [List.map_cons, List.nodup_cons] at hnames
    rw [firstOfEach, if_neg (Bool.eq_false_iff.1 hfirst), Std.HashMap.getD_eq_getD_getElem?,
      htable header (List.mem_cons_self ..)]
    refine congrArg (header :: ·) (ih (fun other hother => htable other
      (List.mem_cons_of_mem _ hother)) hnames.2 fun other hother => ?_)
    rw [Std.HashSet.contains_insert, hunseen other (List.mem_cons_of_mem _ hother),
      Bool.or_false, beq_eq_false_iff_ne]
    exact fun heq => hnames.1 (heq ▸ List.mem_map_of_mem hother)

/-- If no name is there twice, all headers are kept in their order. -/
theorem distinct_of_nodup {headers : List Header} (h : (headers.map (·.nameBytes)).Nodup) :
    distinct headers = headers := by
  refine firstOfEach_of_nodup (fun header hheader => ?_) h fun _ _ =>
    Std.HashSet.contains_empty
  exact getElem?_ofList_of_nodup h hheader

/-- The entry that the header tells of can be had. -/
def Header.Opens (data : ByteArray) (header : Header) : Prop :=
  header.isLocked = false ∧
    header.position + Record.entryHeader.size ≤ 0x7fffffffffffffff ∧
    Record.entryHeader.require data header.position = .ok () ∧
    header.packing ≠ .unknown ∧ header.hasCipher = false

instance (data : ByteArray) (header : Header) : Decidable (header.Opens data) :=
  inferInstanceAs (Decidable (_ ∧ _ ∧ _ ∧ _ ∧ _))

theorem Header.entry_eq_ok_iff {data : ByteArray} {header : Header} {entry : Entry} :
    header.entry data = .ok entry ↔ header.Opens data ∧ entry = header.located data := by
  unfold Header.Opens
  unfold Header.entry
  cases header.isLocked with
  | true => exact ⟨nofun, fun h => absurd h.1.1 nofun⟩
  | false =>
  by_cases hfar : 0x7fffffffffffffff < header.position + Record.entryHeader.size
  · rw [if_neg Bool.false_ne_true, if_pos hfar]
    exact ⟨nofun, fun h => absurd h.1.2.1 (Nat.not_le.2 hfar)⟩
  rw [if_neg Bool.false_ne_true, if_neg hfar]
  cases hrequire : Record.entryHeader.require data header.position with
  | error fault => exact ⟨nofun, fun h => absurd h.1.2.2.1 nofun⟩
  | ok =>
  by_cases hpacking : header.packing = .unknown
  · rw [if_pos hpacking]
    exact ⟨nofun, fun h => absurd hpacking h.1.2.2.2.1⟩
  rw [if_neg hpacking]
  cases header.hasCipher with
  | true => exact ⟨nofun, fun h => absurd h.1.2.2.2.2 nofun⟩
  | false =>
    refine ⟨fun h => ⟨⟨rfl, Nat.not_lt.1 hfar, rfl, hpacking, rfl⟩, ?_⟩, fun h => ?_⟩
    · cases h
      rfl
    · rw [h.2]
      rfl

/-- Two archives have the same entry for a header if they have the same bytes in
it. -/
theorem Header.located_congr {data other : ByteArray} {header : Header}
    (h : (header.located data).packed = (header.located other).packed) :
    header.located data = header.located other := by
  simp only [located] at h ⊢
  rw [h]

/-- An archive that names nothing twice has an entry for every header of its
directory, if all of them can be had. -/
theorem entries_of_headers {data : ByteArray} {list : List Header} (h : headers data = .ok list)
    (hnames : (list.map (·.nameBytes)).Nodup) (hopens : ∀ header ∈ list, header.Opens data) :
    Archive.entries data = .ok (list.map (·.located data)) := by
  unfold Archive.entries
  rw [h]
  show (distinct list).mapM _ = _
  rw [distinct_of_nodup hnames, mapM_eq_ok_iff, List.forall₂_map_right_iff]
  exact List.forall₂_same.2 fun header hheader =>
    Header.entry_eq_ok_iff.2 ⟨hopens header hheader, rfl⟩

/-- The entries of an archive have different names. -/
theorem nodup_nameBytes {data : ByteArray} {entries : List Entry}
    (h : Archive.entries data = .ok entries) : (entries.map (·.nameBytes)).Nodup := by
  obtain ⟨list, _, hread⟩ := exists_ok_of_bind h
  have hnames : List.Forall₂ (· = ·) ((distinct list).map (·.nameBytes))
      (entries.map (·.nameBytes)) := by
    rw [List.forall₂_map_left_iff, List.forall₂_map_right_iff]
    refine (mapM_eq_ok_iff.1 hread).imp fun header entry hentry => ?_
    rw [(Header.entry_eq_ok_iff.1 hentry).2]
    rfl
  rw [List.forall₂_eq_eq_eq] at hnames
  rw [← hnames]
  exact nodup_distinct list

/-! ## Entries by their names -/

/-- The archive has an entry of that name with that content, and the content is
in order. -/
def Holds (unpack : Unpacker) (entries : List Entry) (name : String) (content : ByteArray) : Prop :=
  ∃ entry ∈ entries, entry.nameBytes = name.toUTF8.toList ∧ entry.content unpack = .ok content

variable {unpack : Unpacker}

theorem Holds.perm {entries others : List Entry} {name : String} {content : ByteArray}
    (h : Holds unpack entries name content) (hperm : entries.Perm others) :
    Holds unpack others name content := by
  obtain ⟨entry, hentry, hrest⟩ := h
  exact ⟨entry, hperm.mem_iff.1 hentry, hrest⟩

/-- What is found under a name does not depend on the order of the entries. -/
theorem contentOf_eq_ok_iff {entries : List Entry} (hnames : (entries.map (·.nameBytes)).Nodup)
    {name : String} {content : ByteArray} :
    contentOf unpack (index entries) name = .ok content ↔ Holds unpack entries name content := by
  unfold contentOf
  constructor
  · intro h
    cases hfound : (index entries)[name.toUTF8.toList]? with
    | none =>
      rw [hfound] at h
      cases h
    | some entry =>
      rw [hfound] at h
      obtain ⟨hentry, hbytes⟩ := mem_of_getElem?_ofList hfound
      exact ⟨entry, hentry, hbytes, h⟩
  · rintro ⟨entry, hentry, hbytes, hcontent⟩
    rw [← hbytes, index, getElem?_ofList_of_nodup hnames hentry]
    exact hcontent

theorem Holds.inj {entries : List Entry} (hnames : (entries.map (·.nameBytes)).Nodup)
    {name : String} {content other : ByteArray} (h : Holds unpack entries name content)
    (hother : Holds unpack entries name other) : content = other := by
  have hsame := (contentOf_eq_ok_iff hnames).2 h
  rw [(contentOf_eq_ok_iff hnames).2 hother] at hsame
  cases hsame
  rfl

/-! ## Plain archives -/

/-- The bytes of a number, the least significant one first. -/
def spelled (width value : Nat) : List UInt8 :=
  (List.range width).map fun place => UInt8.ofNat (value >>> (8 * place))

def Packing.number : Packing → Nat
  | stored => 0
  | packed method => method
  | enciphered => 99
  | unknown => 1

/-- What an entry and the directory both tell in front of the name. -/
def Header.shared (header : Header) : List UInt8 :=
  spelled 2 20 ++ spelled 2 header.flags ++ spelled 2 header.packing.number ++ spelled 4 0 ++
    spelled 4 header.checksum.toNat ++ spelled 4 header.size ++ spelled 4 header.fullSize ++
    spelled 2 header.nameBytes.length ++ spelled 2 0

/-- An archive without extra fields and comments: entries with the bytes in them, and
a directory. -/
def plain (contents : List (Header × List UInt8)) (directory : List Header) : ByteArray :=
  let front := contents.flatMap fun (header, packed) =>
    spelled 4 Record.entryHeader.mark ++ header.shared ++ header.nameBytes ++ packed
  let middle := directory.flatMap fun header =>
    spelled 4 Record.directoryHeader.mark ++ spelled 2 20 ++ header.shared ++ spelled 10 0 ++
      spelled 4 header.position ++ header.nameBytes
  let back := spelled 4 Record.endRecord.mark ++ spelled 4 0 ++ spelled 2 directory.length ++
    spelled 2 directory.length ++ spelled 4 middle.length ++ spelled 4 front.length ++ spelled 2 0
  ⟨(front ++ middle ++ back).toArray⟩

end Archive

/-! ## The order of the names -/

variable {entries : List Archive.Entry} {order : List String}

theorem classNames_perm_filter (entries : List Archive.Entry) :
    (classNames entries).Perm ((entries.map (·.name)).filter isClassEntry) :=
  List.mergeSort_perm ..

theorem pairwise_classNames (entries : List Archive.Entry) :
    (classNames entries).Pairwise fun left right => (compare left right).isLE :=
  List.pairwise_mergeSort (fun _ _ _ => Std.TransCmp.isLE_trans) (fun _ _ => isLE_total _ _) _

/-- Names can be put in order in one way only. -/
theorem eq_classNames (hperm : order.Perm ((entries.map (·.name)).filter isClassEntry))
    (hascending : order.Pairwise fun left right => (compare left right).isLE) :
    order = classNames entries := by
  refine List.Perm.eq_of_pairwise ?_ hascending (pairwise_classNames entries)
    (hperm.trans (classNames_perm_filter entries).symm)
  exact fun _ _ _ _ => eq_of_ascending

end BytecodeLint
