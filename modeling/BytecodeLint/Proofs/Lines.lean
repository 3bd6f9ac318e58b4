import BytecodeLint.ClassFile
import BytecodeLint.Proofs.Order
import BytecodeLint.Proofs.Results

/-!
# Source lines

A method may have several tables of line numbers, and the entries of a table may
stand in any order.  The decoder puts all of them into one list, sorted by where
they start, and a look-up reads this list up to the first entry that starts
behind the offset.  `LineEntry.Governs` says which entry counts, by the entries
as they stand in the tables.

There are five groups.

* `Governs`, which holds of one entry at most.
* Entries by ascending starts: what is read last governs the offset.
* The sort is stable, so an entry governs an offset after it just if it does
  before.
* Look-ups.  `Method.lineAt?_of_tables` is the result.
* In a method that has been decoded, the tables are those of its code.
-/

namespace BytecodeLint

namespace LineEntry

variable {entries lines : List LineEntry} {offset : Nat} {entry other : LineEntry}

/-! ## The entry that governs an offset -/

/-- Of the entries that do not start behind the offset, none starts later than
this one, and of those with one start it stands last. -/
structure Governs (entries : List LineEntry) (offset : Nat) (entry : LineEntry) : Prop where
  starts : entry.start ≤ offset
  latest : ∀ other ∈ entries, other.start ≤ offset → other.start ≤ entry.start
  last : ∃ before after, entries = before ++ entry :: after ∧
    ∀ other ∈ after, other.start ≠ entry.start

/-- The last element for which `p` holds, found by leaving out the others. -/
private theorem getLast?_filter_eq_some_iff {α : Type} {p : α → Bool} {list : List α} {a : α} :
    (list.filter p).getLast? = some a ↔
      p a = true ∧ ∃ before after, list = before ++ a :: after ∧ ∀ x ∈ after, ¬p x = true := by
  rw [← List.head?_reverse, ← List.filter_reverse, List.head?_filter,
    List.find?_eq_some_iff_append]
  refine and_congr_right fun _ => ⟨?_, ?_⟩
  · rintro ⟨after, before, hlist, hafter⟩
    refine ⟨before.reverse, after.reverse, ?_, fun x hx => ?_⟩
    · rw [← List.reverse_inj, hlist]
      simp
    · simpa using hafter x (List.mem_reverse.1 hx)
  · rintro ⟨before, after, rfl, hafter⟩
    refine ⟨after.reverse, before.reverse, by simp, fun x hx => ?_⟩
    simpa using hafter x (List.mem_reverse.1 hx)

/-- It only matters which entries there are, and how those with one start are
ordered. -/
theorem governs_iff : Governs entries offset entry ↔
    entry.start ≤ offset ∧
      (∀ other ∈ entries, other.start ≤ offset → other.start ≤ entry.start) ∧
      (entries.filter (·.start = entry.start)).getLast? = some entry := by
  rw [getLast?_filter_eq_some_iff]
  simp only [decide_eq_true_eq]
  constructor
  · intro h
    exact ⟨h.starts, h.latest, trivial, h.last⟩
  · rintro ⟨starts, latest, -, last⟩
    exact ⟨starts, latest, last⟩

theorem Governs.mem (h : Governs entries offset entry) : entry ∈ entries := by
  obtain ⟨before, after, rfl, -⟩ := h.last
  exact List.mem_append_right _ (List.mem_cons_self ..)

theorem Governs.unique (h : Governs entries offset entry) (hother : Governs entries offset other) :
    entry = other := by
  have hstart : entry.start = other.start :=
    Nat.le_antisymm (hother.latest entry h.mem h.starts) (h.latest other hother.mem hother.starts)
  have hlast := (governs_iff.1 h).2.2
  rw [hstart, (governs_iff.1 hother).2.2] at hlast
  exact (Option.some_inj.1 hlast).symm

/-! ## Entries by ascending starts -/

/-- The first entry that starts too late is followed by such entries only. -/
theorem takeWhile_eq_filter (hascending : lines.Pairwise (·.start ≤ ·.start)) (offset : Nat) :
    lines.takeWhile (·.start ≤ offset) = lines.filter (·.start ≤ offset) := by
  induction lines with
  | nil => rfl
  | cons first rest ih =>
    rw [List.pairwise_cons] at hascending
    by_cases hfirst : first.start ≤ offset
    · rw [List.takeWhile_cons_of_pos (by simpa using hfirst),
        List.filter_cons_of_pos (by simpa using hfirst), ih hascending.2]
    · have hrest : ∀ later ∈ rest, ¬later.start ≤ offset := by
        intro later hlater
        have := hascending.1 later hlater
        omega
      rw [List.takeWhile_cons_of_neg (by simpa using hfirst),
        List.filter_cons_of_neg (by simpa using hfirst),
        List.filter_eq_nil_iff.2 (by simpa using hrest)]

/-- What is read last, up to the first entry that starts too late, governs the
offset. -/
theorem governs_of_takeWhile (hascending : lines.Pairwise (·.start ≤ ·.start))
    (h : (lines.takeWhile (·.start ≤ offset)).getLast? = some entry) :
    Governs lines offset entry := by
  rw [takeWhile_eq_filter hascending, getLast?_filter_eq_some_iff] at h
  simp only [decide_eq_true_eq] at h
  obtain ⟨hstarts, before, after, rfl, hafter⟩ := h
  refine ⟨hstarts, fun other hother hle => ?_, before, after, rfl, fun other hother heq => ?_⟩
  · rcases List.mem_append.1 hother with hbefore | hbehind
    · exact (List.pairwise_append.1 hascending).2.2 other hbefore entry (List.mem_cons_self ..)
    · rcases List.mem_cons.1 hbehind with rfl | hbehind
      · exact Nat.le_refl _
      · exact absurd hle (hafter other hbehind)
  · exact hafter other hother (heq ▸ hstarts)

end LineEntry

/-! ## The sort -/

namespace ClassFile

open LineEntry

variable {tables : List (List LineEntry)} {offset : Nat} {entry : LineEntry}

theorem mem_sortedLines : entry ∈ sortedLines tables ↔ entry ∈ tables.flatten :=
  (List.mergeSort_perm ..).mem_iff

/-- The order of the starts is transitive and total, as a sort needs it. -/
private theorem startLE_trans (a b c : LineEntry) :
    decide (a.start ≤ b.start) = true → decide (b.start ≤ c.start) = true →
      decide (a.start ≤ c.start) = true := by
  simp only [decide_eq_true_eq]
  exact Nat.le_trans

private theorem startLE_total (a b : LineEntry) :
    (decide (a.start ≤ b.start) || decide (b.start ≤ a.start)) = true := by
  simpa using Nat.le_total a.start b.start

theorem pairwise_sortedLines (tables : List (List LineEntry)) :
    (sortedLines tables).Pairwise (·.start ≤ ·.start) :=
  (List.pairwise_mergeSort startLE_trans startLE_total tables.flatten).imp of_decide_eq_true

/-- Entries with one start keep their order. -/
theorem filter_sortedLines (tables : List (List LineEntry)) (start : Nat) :
    (sortedLines tables).filter (·.start = start) = tables.flatten.filter (·.start = start) := by
  unfold sortedLines
  rw [filter_mergeSort startLE_trans startLE_total]
  refine List.mergeSort_of_pairwise (List.pairwise_of_forall_mem_list fun a ha b hb => ?_)
  have hstart : a.start = b.start :=
    (of_decide_eq_true (List.mem_filter.1 ha).2).trans
      (of_decide_eq_true (List.mem_filter.1 hb).2).symm
  exact decide_eq_true (Nat.le_of_eq hstart)

theorem governs_sortedLines_iff :
    Governs (sortedLines tables) offset entry ↔ Governs tables.flatten offset entry := by
  simp only [governs_iff, mem_sortedLines, filter_sortedLines]

end ClassFile

/-! ## Look-ups -/

section LookUp

open ClassFile LineEntry

variable {method : Method} {tables : List (List LineEntry)} {offset : Nat}

/-- What is read last, up to the first entry that starts behind the offset. -/
theorem governs_of_lines (hlines : method.lines = sortedLines tables) {entry : LineEntry}
    (h : (method.lines.takeWhile (·.start ≤ offset)).getLast? = some entry) :
    Governs tables.flatten offset entry := by
  rw [hlines] at h
  exact governs_sortedLines_iff.1 (governs_of_takeWhile (pairwise_sortedLines tables) h)

theorem Method.lineAt?_eq_none_iff (hlines : method.lines = sortedLines tables) :
    method.lineAt? offset = none ↔ ∀ entry ∈ tables.flatten, offset < entry.start := by
  unfold Method.lineAt?
  rw [Option.map_eq_none_iff, List.getLast?_eq_none_iff, hlines,
    takeWhile_eq_filter (pairwise_sortedLines tables), List.filter_eq_nil_iff]
  simp [mem_sortedLines]

theorem Method.lineAt?_eq_some_iff (hlines : method.lines = sortedLines tables) {line : Nat} :
    method.lineAt? offset = some line ↔
      ∃ entry, Governs tables.flatten offset entry ∧ entry.line = line := by
  constructor
  · intro h
    obtain ⟨entry, hentry, hline⟩ := Option.map_eq_some_iff.1 h
    exact ⟨entry, governs_of_lines hlines hentry, hline⟩
  · rintro ⟨entry, hgoverns, rfl⟩
    cases hline : method.lineAt? offset with
    | none =>
      have hlate := (lineAt?_eq_none_iff hlines).1 hline entry hgoverns.mem
      exact absurd hgoverns.starts (Nat.not_le.2 hlate)
    | some line =>
      obtain ⟨other, hother, rfl⟩ := Option.map_eq_some_iff.1 hline
      rw [hgoverns.unique (governs_of_lines hlines hother)]

/-- The line of an offset is that of the entry which governs the offset, whatever
tables the code has.  There is none just if every entry starts behind the
offset. -/
theorem Method.lineAt?_of_tables {attributes : List Attribute}
    (hlines : method.lines = sortedLines (attributes.filterMap Attribute.lineTable?))
    (offset : Nat) :
    (∀ line, method.lineAt? offset = some line ↔
        ∃ entry, Governs (attributes.filterMap Attribute.lineTable?).flatten offset entry ∧
          entry.line = line) ∧
      (method.lineAt? offset = none ↔
        ∀ entry ∈ (attributes.filterMap Attribute.lineTable?).flatten, offset < entry.start) :=
  ⟨fun _ => lineAt?_eq_some_iff hlines, lineAt?_eq_none_iff hlines⟩

/-- Two tables around an attribute that is none.  The first is not sorted, and
the second begins at an offset where the first has an entry as well. -/
def scatteredTables : List Attribute :=
  [.lineTable [⟨9, 14⟩, ⟨4, 12⟩, ⟨0, 10⟩], .other, .lineTable [⟨4, 13⟩]]

/-- A method with these tables. -/
def scattered : Method where
  name := "run"
  descriptor := "()V"
  maxStack := some 0
  code := []
  lines := [⟨0, 10⟩, ⟨4, 12⟩, ⟨4, 13⟩, ⟨9, 14⟩]
  handlers := []

/-- From the offset 4 on the entry of the second table counts. -/
theorem scattered_lineAt? :
    scattered.lines = sortedLines (scatteredTables.filterMap Attribute.lineTable?) ∧
      Governs (scatteredTables.filterMap Attribute.lineTable?).flatten 8 ⟨4, 13⟩ ∧
      scattered.lineAt? 8 = some 13 := by
  have hlines :
      scattered.lines = sortedLines (scatteredTables.filterMap Attribute.lineTable?) := by
    have htables : (scatteredTables.filterMap Attribute.lineTable?).flatten =
        [⟨9, 14⟩, ⟨4, 12⟩, ⟨0, 10⟩, ⟨4, 13⟩] := rfl
    rw [sortedLines, htables]
    simp [scattered, List.mergeSort]
  have hgoverns : Governs (scatteredTables.filterMap Attribute.lineTable?).flatten 8 ⟨4, 13⟩ :=
    ⟨by decide, by decide, [⟨9, 14⟩, ⟨4, 12⟩, ⟨0, 10⟩], [], rfl, nofun⟩
  exact ⟨hlines, hgoverns,
    ((Method.lineAt?_of_tables hlines 8).1 13).2 ⟨⟨4, 13⟩, hgoverns, rfl⟩⟩

/-! ## Decoded methods -/

/-- The tables of line numbers in an attribute that is a code. -/
def ClassFile.Attribute.lineTables? : Attribute → Option (List (List LineEntry))
  | .code _ _ _ tables => some tables
  | _ => none

/-- The tables of the first code of a method.  Without a code there are none. -/
def ClassFile.MemberImage.lineTables (image : MemberImage) : List (List LineEntry) :=
  (image.attributes.findSome? Attribute.lineTables?).getD []

theorem ClassFile.lines_of_decoded {pool : ConstantPool} {image : MemberImage}
    (h : ClassFile.method pool image = .ok method) :
    method.lines = sortedLines image.lineTables := by
  obtain ⟨name, -, h⟩ := exists_ok_of_bind h
  obtain ⟨descriptor, -, h⟩ := exists_ok_of_bind h
  simp only at h
  -- The decoder looks for a code with all its parts, of which only the tables count here.
  have htables : image.attributes.findSome? Attribute.lineTables? =
      (image.attributes.filterMap fun
        | .code maxStack bytes handlers tables => some (maxStack, bytes, handlers, tables)
        | _ => none).head?.map (·.2.2.2) := by
    rw [List.head?_filterMap, List.map_findSome?]
    refine congrArg (List.findSome? · image.attributes) (funext fun attr => ?_)
    cases attr <;> rfl
  unfold MemberImage.lineTables
  split at h
  · rename_i hcode
    cases h
    rw [htables.trans (congrArg (Option.map _) hcode)]
    exact List.mergeSort_nil.symm
  · rename_i maxStack bytes handlers tables hcode
    obtain ⟨code, -, h⟩ := exists_ok_of_bind h
    cases h
    rw [htables.trans (congrArg (Option.map _) hcode)]
    rfl

/-- In a decoded method, the line of an offset is that of the entry which governs
the offset among the tables of its code. -/
theorem Method.lineAt?_of_decoded {pool : ConstantPool} {image : MemberImage}
    (h : ClassFile.method pool image = .ok method) {line : Nat} :
    method.lineAt? offset = some line ↔
      ∃ entry, Governs image.lineTables.flatten offset entry ∧ entry.line = line :=
  lineAt?_eq_some_iff (lines_of_decoded h)

end LookUp

end BytecodeLint
