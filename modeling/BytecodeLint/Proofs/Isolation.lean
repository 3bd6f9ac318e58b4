import BytecodeLint.Proofs.Order
import BytecodeLint.Proofs.Reports

/-!
# Detectors do not interfere

The detectors of an analysis share one walk, one list of findings and one
list of diagnostics.  This module shows that they do not notice: what a
detector contributes is what it finds alone, whatever the others do and
wherever they fail.  So to select detectors is to select their findings.

There are four groups.

* The labels.  A list of detectors is labelled by position.
* What the detector with a label contributes.  `of_numbered` says that it is
  what the detector finds alone.
* Selections.  The catalog is labelled by id, and the rule of a finding
  tells the id of its detector.
* `detectors_isolated` is the result.
-/

namespace BytecodeLint

/-! ## Labels -/

/-- The detectors with their positions in the list. -/
def numbered (detectors : List Detector) : List (Nat × Detector) :=
  detectors.zipIdx.map Prod.swap

theorem numbered_detectors (detectors : List Detector) :
    (numbered detectors).map (·.2) = detectors := by
  unfold numbered
  rw [List.map_map]
  exact List.zipIdx_map_fst 0 detectors

theorem mem_numbered {detectors : List Detector} {index : Nat} {detector : Detector} :
    (index, detector) ∈ numbered detectors ↔ detectors[index]? = some detector := by
  unfold numbered
  rw [List.mem_map]
  constructor
  · rintro ⟨⟨_, _⟩, hmem, heq⟩
    cases heq
    exact List.mem_zipIdx_iff_getElem?.1 hmem
  · intro h
    exact ⟨(detector, index), List.mem_zipIdx_iff_getElem?.2 h, rfl⟩

private theorem filter_zipIdx_aux {detectors : List Detector} {index : Nat} {detector : Detector}
    (start : Nat) (h : detectors[index]? = some detector) :
    (detectors.zipIdx start).filter (·.2 == start + index) = [(detector, start + index)] := by
  induction detectors generalizing start index with
  | nil => cases h
  | cons first rest ih =>
    rw [List.zipIdx_cons, List.filter_cons]
    cases index with
    | zero =>
      cases h
      have hfirst : ((detector, start).2 == start + 0) = true := beq_self_eq_true start
      rw [if_pos hfirst, List.filter_eq_nil_iff.2, Nat.add_zero]
      intro entry hentry
      have hlater := List.le_snd_of_mem_zipIdx hentry
      simp only [beq_iff_eq]
      omega
    | succ index =>
      have hne : ¬ (start == start + (index + 1)) = true := by
        simp only [beq_iff_eq]
        omega
      rw [if_neg hne, ← Nat.add_assoc, Nat.add_right_comm]
      exact ih (start + 1) h

theorem filter_numbered {detectors : List Detector} {index : Nat} {detector : Detector}
    (h : detectors[index]? = some detector) :
    (numbered detectors).filter (·.1 == index) = [(index, detector)] := by
  have hsplit := filter_zipIdx_aux 0 h
  rw [Nat.zero_add] at hsplit
  unfold numbered
  rw [List.filter_map]
  exact congrArg (List.map Prod.swap) hsplit

/-! ## Contributions -/

section Contributions

variable {ι : Type}

/-- What the detector with the label contributes. -/
def Attributed.of [DecidableEq ι] (all : Attributed ι) (label : ι) : Analysis :=
  (all.only (· == label)).total

private theorem map_snd_filter {κ β : Type} {entries : List (κ × β)} {kept : κ → Bool}
    {p : β → Bool} (h : ∀ entry ∈ entries, kept entry.1 = p entry.2) :
    (entries.filter (kept ·.1)).map (·.2) = (entries.map (·.2)).filter p := by
  rw [List.filter_map, List.filter_congr h]
  rfl

/-- The findings with the kept labels are the findings of their
detectors. -/
theorem findings_only (keep : ι → Bool) (detectors : List (ι × Detector)) (cls : Class) :
    ((analyzeClassBy detectors cls).only keep).total.findings =
      (analyzeClass ((detectors.filter (keep ·.1)).map (·.2)) cls).findings := by
  rw [only_analyzeClassBy, ← total_analyzeClassBy]
  have hall : (analyzeClassBy (detectors.filter (keep ·.1)) cls).findings.filter (keep ·.1) =
      (analyzeClassBy (detectors.filter (keep ·.1)) cls).findings := by
    refine List.filter_eq_self.2 fun entry hentry => ?_
    obtain ⟨detector, hmem, _⟩ := reports_of_mem_findings hentry
    exact (List.mem_filter.1 hmem).2
  exact congrArg (List.map (·.2)) hall

/-- The diagnostics with a label are those that name its detector, if no
other detector has the name. -/
theorem diagnostics_of [DecidableEq ι] {detectors : List (ι × Detector)} {label : ι}
    {detector : Detector} (cls : Class)
    (h : ∀ entry ∈ detectors, entry.1 = label ↔ entry.2.id = detector.id) :
    ((analyzeClassBy detectors cls).of label).diagnostics =
      (analyzeClass (detectors.map (·.2)) cls).diagnostics.filter
        (·.detector == some detector.id) := by
  rw [← total_analyzeClassBy]
  refine map_snd_filter fun entry hentry => ?_
  rcases named_of_mem_diagnostics hentry with ⟨hlabel, hname⟩ | ⟨found, named, hmem, hlabel, hname⟩
  · rw [hlabel, hname]
    rfl
  · rw [hlabel, hname, Bool.eq_iff_iff]
    simpa using h _ hmem

end Contributions

/-- What a detector contributes is what it finds alone. -/
theorem of_numbered {detectors : List Detector} {index : Nat} {detector : Detector}
    (h : detectors[index]? = some detector) (cls : Class) :
    ((analyzeClassBy (numbered detectors) cls).of index).findings =
        (analyzeClass [detector] cls).findings ∧
      ((analyzeClassBy (numbered detectors) cls).of index).diagnostics =
        (analyzeClass [detector] cls).diagnostics.filter (·.detector == some detector.id) := by
  constructor
  · show ((analyzeClassBy (numbered detectors) cls).only (· == index)).total.findings = _
    rw [findings_only, filter_numbered h]
    rfl
  · have halone : (analyzeClassBy (numbered detectors) cls).of index =
        (analyzeClassBy [(index, detector)] cls).of index := by
      unfold Attributed.of
      rw [only_analyzeClassBy, filter_numbered h]
    rw [halone, diagnostics_of cls]
    · rfl
    · intro entry hentry
      rw [List.mem_singleton.1 hentry]
      simp

/-- The same without labels, where no two detectors have one name. -/
theorem diagnostics_alone {detectors : List Detector} {detector : Detector}
    (hdetector : detector ∈ detectors) (hnames : (detectors.map (·.id)).Nodup) (cls : Class) :
    (analyzeClass detectors cls).diagnostics.filter (·.detector == some detector.id) =
      (analyzeClass [detector] cls).diagnostics.filter (·.detector == some detector.id) := by
  obtain ⟨index, hindex⟩ := List.mem_iff_getElem?.1 hdetector
  have hlabels : ∀ entry ∈ numbered detectors, entry.1 = index ↔ entry.2.id = detector.id := by
    rintro ⟨other, named⟩ hmem
    have hother := mem_numbered.1 hmem
    constructor
    · rintro rfl
      rw [hindex] at hother
      cases hother
      rfl
    · intro hid
      have hbound : other < (detectors.map (·.id)).length := by
        rw [List.length_map]
        exact (List.getElem?_eq_some_iff.1 hother).1
      refine (List.getElem?_inj hbound hnames).1 ?_
      rw [List.getElem?_map, List.getElem?_map, hother, hindex]
      exact congrArg some hid
  have hcontributed := diagnostics_of cls hlabels
  rw [numbered_detectors] at hcontributed
  rw [← hcontributed, (of_numbered hindex cls).2]

/-! ## Selections -/

/-- The rules of the detectors with the given ids. -/
def rulesOf (ids : List String) : List String :=
  (catalog.filter fun detector => ids.contains detector.id).flatMap (·.rules.map (·.id))

theorem selectDetectors_of_known {ids : List String} (hsome : ids ≠ [])
    (hknown : ∀ id ∈ ids, ∃ detector ∈ catalog, detector.id = id) :
    selectDetectors ids = .ok (catalog.filter fun detector => ids.contains detector.id) := by
  have hnone : (ids.find? fun id => !catalog.any (·.id == id)) = none := by
    refine List.find?_eq_none.2 fun id hid => ?_
    obtain ⟨detector, hdetector, rfl⟩ := hknown id hid
    simp only [Bool.not_eq_true, Bool.not_eq_false']
    exact List.any_eq_true.2 ⟨detector, hdetector, beq_self_eq_true _⟩
  unfold selectDetectors
  rw [if_neg hsome, hnone]

/-- The rule of a finding tells whether its detector is selected. -/
theorem contains_rulesOf {detector : Detector} (hdetector : detector ∈ catalog) {cls : Class}
    {finding : Finding} (hreports : detector.Reports cls finding) (ids : List String) :
    ids.contains detector.id = (rulesOf ids).contains finding.ruleId := by
  obtain ⟨rule, hrule, hid⟩ := keepsToRules_of_mem_catalog hdetector cls finding hreports
  rw [hid, Bool.eq_iff_iff, List.contains_iff_mem, List.contains_iff_mem]
  unfold rulesOf
  constructor
  · intro hmem
    refine List.mem_flatMap.2 ⟨detector, List.mem_filter.2 ⟨hdetector, ?_⟩, ?_⟩
    · exact List.contains_iff_mem.2 hmem
    · exact List.mem_map_of_mem hrule
  · intro hmem
    obtain ⟨other, hother, hshared⟩ := List.mem_flatMap.1 hmem
    obtain ⟨shared, hsharedRule, hsharedId⟩ := List.mem_map.1 hshared
    obtain ⟨hotherCatalog, hselected⟩ := List.mem_filter.1 hother
    rw [← id_eq_of_rule_id_eq other hotherCatalog detector hdetector shared hsharedRule rule hrule
      hsharedId]
    exact List.contains_iff_mem.1 hselected

/-- For one class, selecting detectors selects their findings. -/
theorem findings_selected (ids : List String) (cls : Class) :
    (analyzeClass (catalog.filter fun detector => ids.contains detector.id) cls).findings =
      (analyzeClass catalog cls).findings.filter fun finding =>
        (rulesOf ids).contains finding.ruleId := by
  let labelled := catalog.map fun detector => (detector.id, detector)
  have hlabelled : labelled.map (·.2) = catalog := by
    simp [labelled, Function.comp_def]
  have hselected : (labelled.filter (ids.contains ·.1)).map (·.2) =
      catalog.filter fun detector => ids.contains detector.id := by
    simp [labelled, List.filter_map, Function.comp_def]
  rw [← hselected, ← findings_only, ← hlabelled, ← total_analyzeClassBy]
  refine map_snd_filter fun entry hentry => ?_
  obtain ⟨detector, hmem, hreports⟩ := reports_of_mem_findings hentry
  obtain ⟨found, hfound, heq⟩ := List.mem_map.1 hmem
  obtain ⟨hlabel, rfl⟩ := Prod.mk.inj heq
  rw [← hlabel]
  exact contains_rulesOf hfound hreports ids

theorem findings_analyze (detectors : List Detector) (classes : List Class) :
    (analyze detectors classes).findings =
      sortFindings (classes.flatMap fun cls => (analyzeClass detectors cls).findings) := by
  simp [analyze, List.flatMap_map]

/-- The same for many classes.  The sort keeps the order of what it is
given, so it does not matter either. -/
theorem analyze_selected (ids : List String) (classes : List Class) :
    (analyze (catalog.filter fun detector => ids.contains detector.id) classes).findings =
      (analyze catalog classes).findings.filter fun finding =>
        (rulesOf ids).contains finding.ruleId := by
  rw [findings_analyze, findings_analyze, filter_sortFindings, List.filter_flatMap]
  exact congrArg sortFindings (List.flatMap_congr fun cls _ => findings_selected ids cls)

/-! ## The result -/

/-- Detectors do not interfere.  Whatever the detectors of a class are, each
contributes what it finds alone.  So the analysis by selected detectors of
the catalog finds what the full analysis finds by their rules. -/
theorem detectors_isolated :
    (∀ (detectors : List Detector) (cls : Class),
      (analyzeClassBy (numbered detectors) cls).total = analyzeClass detectors cls ∧
        (∀ (index : Nat) (detector : Detector), detectors[index]? = some detector →
          ((analyzeClassBy (numbered detectors) cls).of index).findings =
              (analyzeClass [detector] cls).findings ∧
            ((analyzeClassBy (numbered detectors) cls).of index).diagnostics =
              (analyzeClass [detector] cls).diagnostics.filter
                (·.detector == some detector.id)) ∧
        ((detectors.map (·.id)).Nodup → ∀ detector ∈ detectors,
          (analyzeClass detectors cls).diagnostics.filter (·.detector == some detector.id) =
            (analyzeClass [detector] cls).diagnostics.filter
              (·.detector == some detector.id))) ∧
      ∀ (ids : List String) (classes : List Class), ids ≠ [] →
        (∀ id ∈ ids, ∃ detector ∈ catalog, detector.id = id) →
        ∃ selected, selectDetectors ids = .ok selected ∧
          (analyze selected classes).findings =
            (analyze catalog classes).findings.filter fun finding =>
              (rulesOf ids).contains finding.ruleId := by
  refine ⟨fun detectors cls => ⟨?_, fun index detector h => of_numbered h cls,
    fun hnames detector h => diagnostics_alone h hnames cls⟩, fun ids classes hsome hknown => ?_⟩
  · rw [total_analyzeClassBy, numbered_detectors]
  · exact ⟨_, selectDetectors_of_known hsome hknown, analyze_selected ids classes⟩

/-- A detector that fails at every visit. -/
def failing : Detector where
  id := "FAIL"
  name := "Failing"
  slug := "failing"
  rules := []
  State := Unit
  accepts _ _ := true
  start _ := some ()
  visit _ := throw ⟨"failed"⟩

/-- A class whose one method constructs an object and drops it. -/
def discarding : Class where
  name := "Demo"
  majorVersion := 52
  fields := []
  methods :=
    [ { name := "run"
        descriptor := "()V"
        maxStack := some 2
        code :=
          [ ⟨0, .new, .type "java/lang/Object"⟩
          , ⟨3, 0x59, .none⟩
          , ⟨4, .invokespecial, .call ⟨.special, "java/lang/Object", "<init>", "()V"⟩⟩
          , ⟨7, .pop, .none⟩
          , ⟨8, .voidReturn, .none⟩ ]
        lines := []
        handlers := [] } ]
  uri := none

/-- The dropped object is found beside a detector that fails in the same
method. -/
theorem isolated_from_failing :
    ((analyzeClassBy (numbered [failing, DiscardedObject.detector]) discarding).of 1).findings =
        [DiscardedObject.discarded.report ⟨"Demo", "run", "()V", 4, none, none⟩ none] ∧
      (analyzeClass [failing, DiscardedObject.detector] discarding).diagnostics.filter
        (·.detector == some "SEC") = [] ∧
      ∃ selected, selectDetectors ["SEC", "SEC"] = .ok selected ∧
        (analyze selected [discarding]).findings =
          (analyze catalog [discarding]).findings.filter fun finding =>
            (rulesOf ["SEC", "SEC"]).contains finding.ruleId := by
  obtain ⟨hisolated, hselected⟩ := detectors_isolated
  obtain ⟨_, hcontributed, hnamed⟩ := hisolated [failing, DiscardedObject.detector] discarding
  have hnames : ([failing, DiscardedObject.detector].map (·.id)).Nodup := by decide
  refine ⟨?_, ?_, hselected _ _ (by decide) (by decide)⟩
  · rw [(hcontributed 1 DiscardedObject.detector rfl).1]
    decide +kernel
  · have halone := hnamed hnames DiscardedObject.detector (by simp)
    refine Eq.trans halone ?_
    decide +kernel

end BytecodeLint
