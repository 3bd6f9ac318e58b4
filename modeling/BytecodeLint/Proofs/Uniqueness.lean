import BytecodeLint.Proofs.Placement

/-!
# No finding is reported twice

Findings are sorted by a key.  Findings with one key would stay in the order
in which they were made, and so would show the order of the classes.  There
are none, where classes and methods are told apart by their names and
instructions by their offsets.

* Two findings of a detector in one method point at different calls: the
  detector accounts for each call once.
* Findings in different methods, or in different classes, name them.
* What is reported at the end of a class is about different fields.  A call
  fills one field, so these findings point at different calls as well.
* Findings of different detectors have different rules.

There are three groups: keys, the findings of a class, and the result
`findings_strictly_sorted`.
-/

namespace BytecodeLint

/-! ## Keys -/

namespace Finding

/-- What the order of reports looks at. -/
structure Key where
  ruleId : String
  className : String
  methodName : String
  methodDescriptor : String
  offset : Nat
  deriving DecidableEq, Repr

def key (finding : Finding) : Key :=
  { ruleId := finding.ruleId
    className := finding.location.className
    methodName := finding.location.methodName
    methodDescriptor := finding.location.methodDescriptor
    offset := finding.location.offset }

variable {finding other : Finding}

theorem order_eq_eq_iff : finding.order other = .eq ↔ finding.key = other.key := by
  simp [order, compareLex_eq_eq, compareOn, key]

theorem ruleId_of_key (h : finding.key = other.key) : finding.ruleId = other.ruleId :=
  congrArg Key.ruleId h

theorem className_of_key (h : finding.key = other.key) :
    finding.location.className = other.location.className :=
  congrArg Key.className h

theorem nameAndType_of_key (h : finding.key = other.key) :
    (finding.location.methodName, finding.location.methodDescriptor) =
      (other.location.methodName, other.location.methodDescriptor) :=
  congrArg (fun key : Key => (key.methodName, key.methodDescriptor)) h

theorem offset_of_key (h : finding.key = other.key) :
    finding.location.offset = other.location.offset :=
  congrArg Key.offset h

end Finding

/-- No two of the findings have one key. -/
def KeysDiffer (findings : List Finding) : Prop :=
  findings.Pairwise (·.key ≠ ·.key)

instance (findings : List Finding) : Decidable (KeysDiffer findings) :=
  inferInstanceAs (Decidable (findings.Pairwise _))

section Keys

variable {findings others : List Finding}

theorem KeysDiffer.sublist (h : KeysDiffer findings) (hsublist : others.Sublist findings) :
    KeysDiffer others :=
  List.Pairwise.sublist hsublist h

/-- A finding is found by its key. -/
theorem KeysDiffer.key_inj (h : KeysDiffer findings) {finding other : Finding}
    (hfinding : finding ∈ findings) (hother : other ∈ findings)
    (hkey : finding.key = other.key) : finding = other := by
  have hnodup : (findings.map (·.key)).Nodup := List.pairwise_map.2 h
  exact List.inj_on_of_nodup_map hnodup hfinding hother hkey

/-- Findings with different keys have one order. -/
theorem KeysDiffer.sortFindings_eq (h : KeysDiffer findings)
    (hsorted : findings.Pairwise fun finding other => (finding.order other).isLE)
    (hperm : findings.Perm others) : sortFindings others = findings := by
  have hfound : (sortFindings others).Perm findings := (List.mergeSort_perm ..).trans hperm.symm
  refine List.Perm.eq_of_pairwise (fun finding other hfinding hother hle hge => ?_)
    (pairwise_sortFindings others) hsorted hfound
  exact h.key_inj (hfound.mem_iff.1 hfinding) hother
    (Finding.order_eq_eq_iff.1 (Std.OrientedCmp.isLE_antisymm hle hge))

/-- It is enough to look at the findings of one rule at a time. -/
theorem KeysDiffer.of_rules
    (h : ∀ finding ∈ findings, KeysDiffer (findings.filter (·.ruleId == finding.ruleId))) :
    KeysDiffer findings := by
  refine List.pairwise_iff_forall_sublist.2 fun {finding other} hpair hkey => ?_
  have hsame : [finding, other].filter (·.ruleId == finding.ruleId) = [finding, other] := by
    refine List.filter_eq_self.2 fun item hitem => beq_iff_eq.2 ?_
    rcases List.mem_pair.1 hitem with rfl | rfl
    · rfl
    · exact (Finding.ruleId_of_key hkey).symm
  have hkept := hpair.filter (·.ruleId == finding.ruleId)
  rw [hsame] at hkept
  exact List.pairwise_iff_forall_sublist.1 (h finding (hpair.subset (List.mem_cons_self ..)))
    hkept hkey

end Keys

/-! ## The findings of a class -/

/-- What tells the methods of a class apart. -/
def Method.nameAndType (method : Method) : String × String :=
  (method.name, method.descriptor)

/-- Methods are told apart by their names and types, and instructions by their
offsets. -/
structure Class.Distinct (cls : Class) : Prop where
  names : (cls.methods.map (·.nameAndType)).Nodup
  ascending : ∀ method ∈ cls.methods, method.Ascending

section Classes

variable {cls : Class} {method : Method} {detector : Detector}

theorem Method.Ascending.nodup_visited (hascending : method.Ascending) :
    (method.walk.visits.map (·.instruction.offset)).Nodup :=
  List.pairwise_map.2 (hascending.visits.imp Nat.ne_of_lt)

/-- A detector that accounts for the calls of a method reports each call
once. -/
theorem Detector.Ledger.keysDiffer_foundIn (ledger : detector.Ledger)
    (hascending : method.Ascending) (cls : Class) (state : detector.State) :
    KeysDiffer (detector.foundIn cls state method) := by
  obtain ⟨⟨spent, hperm, hsublist⟩, _⟩ := ledger.foundIn cls state method
  have hcalled : (calledOffsets method.walk.visits).Nodup :=
    hascending.nodup_visited.sublist (List.filter_sublist.map _)
  have hoffsets := hperm.nodup_iff.1 (hcalled.sublist hsublist)
  exact (List.pairwise_map.1 hoffsets).imp fun hne hkey => hne (Finding.offset_of_key hkey)

/-- A finding with the mark of a detector names the method. -/
theorem Detector.MarksCall.nameAndType {finding : Finding}
    (h : detector.MarksCall cls method finding) :
    (finding.location.methodName, finding.location.methodDescriptor) = method.nameAndType := by
  obtain ⟨_, _, _, _, _, _, rfl⟩ := h
  rfl

theorem Detector.MarksCall.className {finding : Finding}
    (h : detector.MarksCall cls method finding) : finding.location.className = cls.name := by
  obtain ⟨_, _, _, _, _, _, rfl⟩ := h
  rfl

/-- Findings in different methods name different methods. -/
theorem Detector.Ledger.keysDiffer_methods {methods : List Method}
    (hnames : (methods.map (·.nameAndType)).Nodup)
    (hascending : ∀ method ∈ methods, method.Ascending) {pass : Pass}
    (ledger : pass.detector.Ledger) :
    KeysDiffer (analyzeMethods cls [pass] methods).2.findings := by
  induction methods generalizing pass with
  | nil => exact List.Pairwise.nil
  | cons method rest ih =>
    rw [List.map_cons, List.nodup_cons] at hnames
    obtain ⟨hfirst, hrest⟩ := hnames
    rw [analyzeMethods_cons_findings, analyzeMethod_findings, analyzeMethod_passes,
      List.flatMap_singleton, List.map_singleton]
    refine List.pairwise_append.2 ⟨?_, ?_, fun finding hfinding other hother hkey => ?_⟩
    · exact ledger.keysDiffer_foundIn (hascending method (List.mem_cons_self ..)) cls pass.state
    · exact ih hrest (fun later hlater => hascending later (List.mem_cons_of_mem _ hlater)) ledger
    · obtain ⟨after, hafter, later, hlater, state, hfound⟩ := foundIn_of_mem_findings hother
      obtain rfl := List.mem_singleton.1 hafter
      have hmethod := (ledger.marksCall hfinding).nameAndType
      have hlater' := (Detector.Ledger.marksCall ledger hfound).nameAndType
      refine hfirst (List.mem_map.2 ⟨later, hlater, ?_⟩)
      rw [← hmethod, ← hlater', Finding.nameAndType_of_key hkey]

theorem begun_singleton (cls : Class) (detector : Detector) :
    begun [detector] cls = (Pass.start? cls detector).toList := by
  unfold begun
  rw [List.filterMap_cons]
  cases Pass.start? cls detector <;> rfl

theorem Detector.Ledger.keysDiffer_begun (ledger : detector.Ledger) (hdistinct : cls.Distinct) :
    KeysDiffer (analyzeMethods cls (begun [detector] cls)
      (cls.methods.filter Method.hasBody)).2.findings := by
  rw [begun_singleton]
  unfold Pass.start?
  cases detector.start cls with
  | none =>
    have hnone : (analyzeMethods cls [] (cls.methods.filter Method.hasBody)).2.findings = [] :=
      List.eq_nil_iff_forall_not_mem.2 fun finding hfinding => by
        obtain ⟨pass, hpass, _⟩ := foundIn_of_mem_findings hfinding
        cases hpass
    exact hnone ▸ List.Pairwise.nil
  | some state =>
    have hbodies : (cls.methods.filter Method.hasBody).Sublist cls.methods := List.filter_sublist
    exact keysDiffer_methods (hdistinct.names.sublist (hbodies.map _))
      (fun method hmethod => hdistinct.ascending method (hbodies.subset hmethod)) ledger

/-- The detector of memory bloat finds nothing in methods. -/
theorem MemoryBloat.findings_begun (cls : Class) (methods : List Method) :
    (analyzeMethods cls (begun [MemoryBloat.detector] cls) methods).2.findings = [] := by
  refine List.eq_nil_iff_forall_not_mem.2 fun finding hfinding => ?_
  obtain ⟨⟨detector, state⟩, hpass, method, _, before, hfound⟩ := foundIn_of_mem_findings hfinding
  obtain rfl : detector = MemoryBloat.detector := List.mem_singleton.1 (mem_of_mem_begun hpass)
  obtain ⟨_, _, found, last, hfollow, hmem⟩ := Detector.mem_foundIn.1 hfound
  obtain ⟨_, _, _, _, _, _, first, _, _, hvisit, hfirst⟩ := Detector.mem_follow hfollow hmem
  rw [found_eq_nil hvisit] at hfirst
  cases hfirst

/-- A call is on one field. -/
theorem Visit.CallsOn.ref_unique {visit : Visit} {names : List String} {ref other : FieldRef}
    (h : visit.CallsOn names ref) (hother : visit.CallsOn names other) : ref = other := by
  obtain ⟨_, site, slots, receiver, hsite, _, hslots, hreceiver, href⟩ := h
  obtain ⟨_, site', slots', receiver', hsite', _, hslots', hreceiver', href'⟩ := hother
  cases hsite.symm.trans hsite'
  cases hslots.symm.trans hslots'
  cases hreceiver.symm.trans hreceiver'
  exact Option.some_inj.1 (href.symm.trans href')

/-- The growths of two fields are reported at different calls. -/
theorem MemoryBloat.keysDiffer_endOf (hdistinct : cls.Distinct) :
    KeysDiffer (MemoryBloat.detector.endOf cls) := by
  rw [endOf_eq]
  refine List.pairwise_filterMap.2 ((nodup_collectionFields cls).imp ?_)
  intro ref other hne finding hfinding finding' hfinding' hkey
  obtain ⟨_, method, visit, ⟨before, after, front, back, hmethods, hvisits, _, hcalls, _⟩, rfl⟩ :=
    growth?_eq_some_iff.1 hfinding
  obtain ⟨_, method', visit', ⟨before', after', front', back', hmethods', hvisits', _, hcalls', _⟩,
    rfl⟩ := growth?_eq_some_iff.1 hfinding'
  have hmethod : method ∈ cls.methods := by simp [hmethods]
  obtain rfl : method = method' :=
    List.inj_on_of_nodup_map hdistinct.names hmethod (by simp [hmethods'])
      (Finding.nameAndType_of_key hkey)
  obtain rfl : visit = visit' :=
    List.inj_on_of_nodup_map (hdistinct.ascending method hmethod).nodup_visited (by simp [hvisits])
      (by simp [hvisits']) (Finding.offset_of_key hkey)
  exact hne (hcalls.ref_unique hcalls')

/-- A detector reports in the methods, or it is the one about memory bloat and
reports at the end of the class. -/
theorem keysDiffer_alone (hdetector : detector ∈ catalog) (hdistinct : cls.Distinct) :
    KeysDiffer (analyzeClass [detector] cls).findings := by
  rw [findings_analyzeClass, flatMap_finish, List.flatMap_singleton]
  by_cases hend : detector.endOf cls = []
  · obtain ⟨ledger⟩ := ledger_of_mem_catalog hdetector
    rw [hend, List.append_nil]
    exact ledger.keysDiffer_begun hdistinct
  · obtain ⟨finding, hfinding⟩ := List.exists_mem_of_ne_nil _ hend
    obtain ⟨rfl, _⟩ := growth?_of_mem_endOf hdetector hfinding
    rw [MemoryBloat.findings_begun, List.nil_append]
    exact MemoryBloat.keysDiffer_endOf hdistinct

/-- A detector of the catalog is selected alone by its id. -/
theorem filter_catalog_of_mem (hdetector : detector ∈ catalog) :
    (catalog.filter fun other => [detector.id].contains other.id) = [detector] := by
  simp only [catalog, List.mem_cons, List.not_mem_nil, or_false] at hdetector
  rcases hdetector with rfl | rfl | rfl | rfl | rfl
  · rfl
  · rfl
  · rfl
  · rfl
  · rfl

/-- Findings by one rule are findings of one detector, which finds them
alone. -/
theorem keysDiffer_class (hdistinct : cls.Distinct) :
    KeysDiffer (analyzeClass catalog cls).findings := by
  refine KeysDiffer.of_rules fun finding hfinding => ?_
  obtain ⟨detector, hdetector, _, _, _, _, rule, hrule, _, _, _, _, rfl⟩ :=
    exists_marksCall (List.Sublist.refl catalog) hfinding
  refine (keysDiffer_alone hdetector hdistinct).sublist ?_
  have hselected := findings_selected [detector.id] cls
  rw [filter_catalog_of_mem hdetector] at hselected
  rw [hselected]
  refine List.monotone_filter_right _ fun other hother => ?_
  have hrules : rulesOf [detector.id] = detector.rules.map (·.id) := by
    rw [rulesOf, filter_catalog_of_mem hdetector, List.flatMap_singleton]
  rw [hrules, List.contains_iff_mem, eq_of_beq hother]
  exact List.mem_map_of_mem hrule

end Classes

/-! ## The result -/

section Result

variable {detectors : List Detector} {classes : List Class}

/-- Findings name the class in which they were made. -/
theorem className_of_mem_findings {cls : Class} {finding : Finding}
    (h : finding ∈ (analyzeClass catalog cls).findings) :
    finding.location.className = cls.name := by
  obtain ⟨_, _, _, _, _, _, hmarks⟩ := exists_marksCall (List.Sublist.refl catalog) h
  exact hmarks.className

/-- No two findings of the catalog have one key. -/
theorem keysDiffer_catalog (hclasses : (classes.map (·.name)).Nodup)
    (hdistinct : ∀ cls ∈ classes, cls.Distinct) :
    KeysDiffer (classes.flatMap fun cls => (analyzeClass catalog cls).findings) := by
  refine List.pairwise_flatMap.2 ⟨fun cls hcls => ?_, ?_⟩
  · exact keysDiffer_class (hdistinct cls hcls)
  · refine (List.pairwise_map.1 hclasses).imp fun hne finding hfinding other hother hkey => ?_
    apply hne
    rw [← className_of_mem_findings hfinding, ← className_of_mem_findings hother,
      Finding.className_of_key hkey]

theorem keysDiffer_analyze {ids : List String}
    (hselected : selectDetectors ids = .ok detectors) (hclasses : (classes.map (·.name)).Nodup)
    (hdistinct : ∀ cls ∈ classes, cls.Distinct) :
    KeysDiffer (analyze detectors classes).findings := by
  obtain ⟨kept, rfl⟩ := exists_filter_of_selected hselected
  rw [analyze_selected, findings_analyze]
  refine KeysDiffer.sublist ?_ List.filter_sublist
  have hperm := List.mergeSort_perm
    (classes.flatMap fun cls => (analyzeClass catalog cls).findings)
    (fun left right => (left.order right).isLE)
  exact (hperm.pairwise_iff Ne.symm).2 (keysDiffer_catalog hclasses hdistinct)

/-- Where classes have different names, methods of a class different names or
types, and instructions of a method ascending offsets, no two findings have one
key.  So the findings are strictly sorted, and do not depend on the order of the
classes. -/
theorem findings_strictly_sorted {ids : List String}
    (hselected : selectDetectors ids = .ok detectors) (hclasses : (classes.map (·.name)).Nodup)
    (hdistinct : ∀ cls ∈ classes, cls.Distinct) :
    KeysDiffer (analyze detectors classes).findings ∧
      (analyze detectors classes).findings.Pairwise
        (fun finding other => finding.order other = .lt) ∧
      ∀ others : List Class, others.Perm classes →
        (analyze detectors others).findings = (analyze detectors classes).findings := by
  have hdiffer := keysDiffer_analyze hselected hclasses hdistinct
  have hsorted : (analyze detectors classes).findings.Pairwise
      fun finding other => (finding.order other).isLE := by
    rw [findings_analyze]
    exact pairwise_sortFindings _
  refine ⟨hdiffer, ?_, fun others hperm => ?_⟩
  · refine (hsorted.and hdiffer).imp fun {finding other} ⟨hle, hne⟩ => ?_
    cases horder : finding.order other with
    | lt => rfl
    | eq => exact absurd (Finding.order_eq_eq_iff.1 horder) hne
    | gt =>
      rw [horder] at hle
      cases hle
  · rw [findings_analyze detectors others]
    refine hdiffer.sortFindings_eq hsorted ?_
    rw [findings_analyze]
    exact (List.mergeSort_perm ..).trans (hperm.flatMap_right _).symm

end Result

/-- A class whose one method constructs two objects and drops both. -/
def dropsTwice : Class where
  name := "Aside"
  majorVersion := 52
  fields := []
  methods :=
    [ { name := "run"
        descriptor := "()V"
        maxStack := some 2
        code :=
          [ ⟨0, .new, .type "java/lang/Object"⟩
          , ⟨3, 0x59, .none⟩
          , ⟨4, .invokespecial, .call ⟨.special, "java/lang/Object", "<init>", "()V"⟩⟩
          , ⟨7, .pop, .none⟩
          , ⟨8, .new, .type "java/lang/Object"⟩
          , ⟨11, 0x59, .none⟩
          , ⟨12, .invokespecial, .call ⟨.special, "java/lang/Object", "<init>", "()V"⟩⟩
          , ⟨15, .pop, .none⟩
          , ⟨16, .voidReturn, .none⟩ ]
        lines := []
        handlers := [] } ]
  uri := none

/-- Both classes have a method `run` in which an object is dropped at the same
offset, and one of them drops a second object.  The findings are the same for
the classes in either order. -/
theorem dropsTwice_findings_strictly_sorted :
    selectDetectors [] = .ok catalog ∧
      ([keepsLog, dropsTwice].map (·.name)).Nodup ∧
      (∀ cls ∈ [keepsLog, dropsTwice], cls.Distinct) ∧
      (analyzeClass catalog dropsTwice).findings =
        [ DiscardedObject.discarded.report ⟨"Aside", "run", "()V", 4, none, none⟩ none
        , DiscardedObject.discarded.report ⟨"Aside", "run", "()V", 12, none, none⟩ none ] ∧
      (analyze catalog [keepsLog, dropsTwice]).findings.Pairwise
        (fun finding other => finding.order other = .lt) ∧
      (analyze catalog [dropsTwice, keepsLog]).findings =
        (analyze catalog [keepsLog, dropsTwice]).findings := by
  have hselected : selectDetectors [] = .ok catalog := rfl
  have hclasses : ([keepsLog, dropsTwice].map (·.name)).Nodup := by decide
  have hdistinct : ∀ cls ∈ [keepsLog, dropsTwice], cls.Distinct := by
    intro cls hcls
    rcases List.mem_pair.1 hcls with rfl | rfl
    · exact ⟨by decide, by decide⟩
    · exact ⟨by decide, by decide⟩
  obtain ⟨_, hstrict, horder⟩ := findings_strictly_sorted hselected hclasses hdistinct
  exact ⟨hselected, hclasses, hdistinct, by decide +kernel, hstrict,
    horder _ (List.Perm.swap ..)⟩

end BytecodeLint
