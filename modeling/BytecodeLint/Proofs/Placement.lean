import BytecodeLint.Proofs.Collections
import BytecodeLint.Proofs.Discard
import BytecodeLint.Proofs.Isolation
import Mathlib.Data.List.Perm.Subperm

/-!
# Findings point at calls

A detector may report a call when it comes to it, at a later instruction, or
at the end of the class.  Wherever that is, the finding points at a call in a
method that was walked to its end, and it is made by a rule of the detector.

A detector that reports later keeps the offset of the call in its state.  So
the invariant is an account: the offsets that are reported or kept after a
visit are those that were kept before it, and the offset of the call that is
visited, each at most once.  The account says where findings point, and it
says as well that no call is reported twice.

There are five groups.

* `Instruction.isCall` and the calls among the visits of a walk.
* `Detector.Ledger` is the account.  `Ledger.follow` draws it up for a run of
  visits and `Ledger.foundIn` for a method.
* The ledgers of the detectors of the catalog.
* What is found by one detector alone, and at the end of a class.
* `finding_pointsAt_call` is the result.
-/

namespace BytecodeLint

/-! ## Calls -/

/-- The opcodes that call a method by its name. -/
def Opcode.invocations : List Opcode :=
  [.invokevirtual, .invokespecial, .invokestatic, .invokeinterface]

/-- The instruction calls a method by its name, and names it. -/
def Instruction.isCall (inst : Instruction) : Bool :=
  Opcode.invocations.contains inst.opcode && inst.call?.isSome

namespace Instruction

variable {inst : Instruction} {opcode : Opcode} {site : CallSite}

theorem isCall_of_call? (hopcode : inst.opcode ∈ Opcode.invocations)
    (hcall : inst.call? = some site) : inst.isCall = true := by
  unfold isCall
  rw [List.contains_iff_mem.2 hopcode, hcall]
  rfl

/-- An instruction that is no call has none of the properties that calls are
looked for by. -/
theorem any_call?_eq_false (h : inst.isCall = false) (hopcode : opcode ∈ Opcode.invocations)
    (p : CallSite → Bool) : (inst.opcode == opcode && inst.call?.any p) = false := by
  cases hcall : inst.call? with
  | none => exact Bool.and_false _
  | some site =>
    have hother : inst.opcode ≠ opcode := fun hsame => by
      rw [isCall_of_call? (hsame ▸ hopcode) hcall] at h
      cases h
    rw [beq_eq_false_iff_ne.2 hother, Bool.false_and]

theorem isCall_of_any (hopcode : opcode ∈ Opcode.invocations) {p : CallSite → Bool}
    (h : (inst.opcode == opcode && inst.call?.any p) = true) : inst.isCall = true := by
  cases hcall : inst.isCall with
  | true => rfl
  | false =>
    rw [any_call?_eq_false hcall hopcode p] at h
    cases h

end Instruction

/-- The offsets of the calls among the visits. -/
def calledOffsets (visits : List Visit) : List Nat :=
  (visits.filter (·.instruction.isCall)).map (·.instruction.offset)

theorem calledOffsets_cons (visit : Visit) (rest : List Visit) :
    calledOffsets (visit :: rest) = calledOffsets [visit] ++ calledOffsets rest := by
  unfold calledOffsets
  rw [← List.map_append, ← List.filter_append]
  rfl

theorem calledOffsets_of_isCall {visit : Visit} (h : visit.instruction.isCall = true) :
    calledOffsets [visit] = [visit.instruction.offset] := by
  unfold calledOffsets
  rw [List.filter_singleton, h]
  rfl

theorem mem_calledOffsets {visits : List Visit} {offset : Nat} :
    offset ∈ calledOffsets visits ↔
      ∃ visit ∈ visits, visit.instruction.isCall = true ∧ visit.instruction.offset = offset := by
  simp [calledOffsets, and_assoc]

/-! ## Accounts of calls -/

/-- The finding is made by a rule of the detector, at some place in the
method. -/
def Detector.Signs (detector : Detector) (cls : Class) (method : Method) (finding : Finding) :
    Prop :=
  ∃ rule ∈ detector.rules, ∃ offset subject,
    finding = rule.report (cls.locate method offset) subject

/-- An account of the calls that a detector reports.  `pending` are the
offsets that it keeps, and the law `visit` allows it to report a call that it
kept or one that it comes to, and no call twice. -/
structure Detector.Ledger (detector : Detector) where
  pending : detector.State → List Nat
  enter : ∀ method state, pending (detector.enter method state) = []
  visit : ∀ {step state found after}, detector.visit step state = .ok found after →
    (found.map (·.location.offset) ++ pending after).Subperm
      (pending state ++ calledOffsets [step.toVisit])
  signs : ∀ {step state found after}, detector.visit step state = .ok found after →
    ∀ finding ∈ found, detector.Signs step.cls step.method finding

namespace Detector

variable {detector : Detector} {cls : Class} {method : Method} {finding : Finding}

namespace Ledger

/-- What holds of the calls at one visit holds of the calls at any number of
visits. -/
theorem follow (ledger : detector.Ledger) {visits : List Visit} {state last : detector.State}
    {found : List Finding} (h : detector.follow cls method visits state = .ok found last) :
    (found.map (·.location.offset) ++ ledger.pending last).Subperm
        (ledger.pending state ++ calledOffsets visits) ∧
      ∀ finding ∈ found, detector.Signs cls method finding := by
  induction visits generalizing state found with
  | nil =>
    cases h
    refine ⟨?_, fun _ hmem => absurd hmem List.not_mem_nil⟩
    simp [calledOffsets, List.Subperm.refl]
  | cons visit rest ih =>
    obtain ⟨first, after, later, hvisit, hrest, rfl⟩ := follow_cons_ok h
    obtain ⟨hspent, hsigned⟩ := ih hrest
    constructor
    · have hlater := (List.subperm_append_left (first.map (·.location.offset))).2 hspent
      rw [← List.append_assoc, ← List.append_assoc] at hlater
      rw [List.map_append, calledOffsets_cons, ← List.append_assoc (ledger.pending state)]
      exact hlater.trans ((List.subperm_append_right _).2 (ledger.visit hvisit))
    · intro finding hmem
      rcases List.mem_append.1 hmem with hmem | hmem
      · exact ledger.signs hvisit finding hmem
      · exact hsigned finding hmem

/-- In a method each call is reported at most once. -/
theorem foundIn (ledger : detector.Ledger) (cls : Class) (state : detector.State)
    (method : Method) :
    ((detector.foundIn cls state method).map (·.location.offset)).Subperm
        (calledOffsets method.walk.visits) ∧
      ∀ finding ∈ detector.foundIn cls state method, detector.Signs cls method finding := by
  unfold Detector.foundIn
  split
  · cases hfollow : detector.follow cls method method.walk.visits
        (detector.enter method state) with
    | error fault last => exact ⟨List.nil_subperm, fun _ hmem => absurd hmem List.not_mem_nil⟩
    | ok found last =>
      obtain ⟨hspent, hsigned⟩ := ledger.follow hfollow
      rw [ledger.enter, List.nil_append] at hspent
      exact ⟨(List.sublist_append_left ..).subperm.trans hspent, hsigned⟩
  · exact ⟨List.nil_subperm, fun _ hmem => absurd hmem List.not_mem_nil⟩

end Ledger

/-- A detector that reports a call when it comes to it, if at all. -/
def Immediate (detector : Detector) : Prop :=
  ∀ step state found after, detector.visit step state = .ok found after →
    found = [] ∨ step.instruction.isCall = true ∧ ∃ rule ∈ detector.rules, ∃ subject,
      found = [step.finding rule subject]

/-- Such a detector keeps nothing. -/
def Ledger.ofImmediate (h : detector.Immediate) : detector.Ledger where
  pending _ := []
  enter _ _ := rfl
  visit hvisit := by
    rcases h _ _ _ _ hvisit with rfl | ⟨hcall, rule, _, subject, rfl⟩
    · exact List.nil_subperm
    · rw [calledOffsets_of_isCall hcall]
      exact List.Subperm.refl _
  signs hvisit finding hmem := by
    rcases h _ _ _ _ hvisit with rfl | ⟨_, rule, hrule, subject, rfl⟩
    · cases hmem
    · exact ⟨rule, hrule, _, subject, List.mem_singleton.1 hmem⟩

end Detector

/-! ## The ledgers of the catalog -/

theorem LiteralComparison.immediate : detector.Immediate := by
  intro step state found after hvisit
  cases (visit_eq step state).symm.trans hvisit
  split
  · rename_i hreported
    refine Or.inr ⟨?_, literalArgument, List.mem_singleton_self _, none, rfl⟩
    exact Instruction.isCall_of_any (by decide) (Bool.and_eq_true_iff.1 hreported).1
  · exact Or.inl rfl

theorem Boxing.immediate : detector.Immediate := by
  intro step progress found after hvisit
  have hfound := (visit_eq step progress).symm.trans hvisit
  split at hfound
  · cases hfound
    exact Or.inl rfl
  · cases hfound
    cases hrule : progress.state.rule? step.instruction with
    | none => exact Or.inl rfl
    | some rule =>
      refine Or.inr ⟨?_, rule, State.rule_mem hrule, none, rfl⟩
      cases hcall : step.instruction.isCall with
      | true => rfl
      | false =>
        have hkinds : [Opcode.invokevirtual, .invokespecial, .invokestatic] ⊆
            Opcode.invocations := by decide
        rw [State.rule?_eq_none fun opcode hopcode =>
          Instruction.any_call?_eq_false hcall (hkinds hopcode)] at hrule
        cases hrule

theorem SelfAssignment.isCall_of_advance {progress : Progress} {inst : Instruction}
    {subject : Subject} (h : (progress.advance inst).2 = some subject) : inst.isCall = true := by
  obtain ⟨_, _, _, _, hsetter, _⟩ := Progress.got_of_advance h
  exact Instruction.isCall_of_any (by decide) hsetter

theorem SelfAssignment.immediate : detector.Immediate := by
  intro step progress found after hvisit
  cases (visit_eq step progress).symm.trans hvisit
  cases hsubject : (progress.advance step.instruction).2 with
  | none => exact Or.inl rfl
  | some subject =>
    exact Or.inr ⟨isCall_of_advance hsubject, selfAssignment, List.mem_singleton_self _,
      some subject, rfl⟩

theorem MemoryBloat.immediate : detector.Immediate :=
  fun _ _ _ _ hvisit => Or.inl (found_eq_nil hvisit)

namespace DiscardedObject

variable {step : Step} {pending after : Option Survivor} {found : List Finding}

/-- The offset of the object that is followed. -/
def pendingOffsets (pending : Option Survivor) : List Nat :=
  pending.toList.map (·.offset)

/-- An object that is reported is followed no longer. -/
theorem settle_subperm (step : Step) (pending : Option Survivor) :
    ((settle step pending).2.map (·.location.offset) ++
      pendingOffsets (settle step pending).1).Subperm (pendingOffsets pending) := by
  cases pending with
  | none => exact List.nil_subperm
  | some survivor =>
    simp only [settle]
    cases fate survivor step with
    | pending => exact List.Subperm.refl _
    | discarded => exact List.Subperm.refl _
    | used => exact List.nil_subperm

/-- Something is left of an object only where a constructor is called. -/
theorem isCall_of_remainsAt {remains : Remains} (h : remainsAt step = .ok (some remains)) :
    step.instruction.isCall = true := by
  unfold remainsAt constructorCall? at h
  by_cases hopcode : step.opcode = .invokespecial
  · rw [hopcode, beq_self_eq_true, if_pos rfl] at h
    cases hcall : step.instruction.call?.filter (·.name == "<init>") with
    | none =>
      rw [hcall] at h
      cases h
    | some site =>
      have hinvocation : step.instruction.opcode ∈ Opcode.invocations := by
        rw [show step.instruction.opcode = .invokespecial from hopcode]
        decide
      exact Instruction.isCall_of_call? hinvocation (Option.filter_eq_some_iff.1 hcall).1
  · rw [if_neg fun heq => hopcode (eq_of_beq heq)] at h
    cases h

theorem visit_subperm (h : visit step pending = .ok found after) :
    (found.map (·.location.offset) ++ pendingOffsets after).Subperm
      (pendingOffsets pending ++ calledOffsets [step.toVisit]) := by
  have hsettled := settle_subperm step pending
  rw [visit_eq] at h
  cases hremains : remainsAt step with
  | error fault =>
    rw [hremains] at h
    cases h
  | ok remains =>
    rw [hremains] at h
    rcases remains with _ | ⟨survivor | _⟩
    · cases h
      exact hsettled.trans (List.sublist_append_left ..).subperm
    · -- The object that was followed before is dropped for the new one.
      cases h
      obtain ⟨_, _, _, _, _, rfl⟩ := copies_of_remainsAt hremains
      rw [calledOffsets_of_isCall (isCall_of_remainsAt hremains)]
      exact (List.subperm_append_right _).2
        ((List.sublist_append_left ..).subperm.trans hsettled)
    · cases h
      rw [calledOffsets_of_isCall (isCall_of_remainsAt hremains), List.map_append,
        List.append_assoc]
      refine (List.perm_append_comm.append_left _).subperm.trans ?_
      rw [← List.append_assoc]
      exact (List.subperm_append_right _).2 hsettled

theorem signs_visit (h : visit step pending = .ok found after) :
    ∀ finding ∈ found, detector.Signs step.cls step.method finding := by
  intro finding hfinding
  refine ⟨discarded, List.mem_singleton_self _, ?_⟩
  rcases mem_of_visit h hfinding with hsettled | ⟨_, rfl⟩
  · obtain ⟨survivor, _, _, rfl⟩ := mem_settle hsettled
    exact ⟨survivor.offset, none, rfl⟩
  · exact ⟨step.offset, none, rfl⟩

def ledger : detector.Ledger where
  pending := pendingOffsets
  enter _ _ := rfl
  visit := visit_subperm
  signs := signs_visit

end DiscardedObject

theorem ledger_of_mem_catalog {detector : Detector} (h : detector ∈ catalog) :
    Nonempty detector.Ledger := by
  simp only [catalog, List.mem_cons, List.not_mem_nil, or_false] at h
  rcases h with rfl | rfl | rfl | rfl | rfl
  · exact ⟨.ofImmediate LiteralComparison.immediate⟩
  · exact ⟨.ofImmediate Boxing.immediate⟩
  · exact ⟨.ofImmediate MemoryBloat.immediate⟩
  · exact ⟨DiscardedObject.ledger⟩
  · exact ⟨.ofImmediate SelfAssignment.immediate⟩

/-! ## Where findings come from -/

/-- The finding is made by a rule of the detector, and points at a call that
the walk of the method visits. -/
def Detector.MarksCall (detector : Detector) (cls : Class) (method : Method)
    (finding : Finding) : Prop :=
  ∃ rule ∈ detector.rules, ∃ visit ∈ method.walk.visits, visit.instruction.isCall = true ∧
    ∃ subject, finding = rule.report (cls.locate method visit.instruction.offset) subject

theorem Detector.Ledger.marksCall {detector : Detector} (ledger : detector.Ledger) {cls : Class}
    {state : detector.State} {method : Method} {finding : Finding}
    (h : finding ∈ detector.foundIn cls state method) : detector.MarksCall cls method finding := by
  obtain ⟨hspent, hsigned⟩ := ledger.foundIn cls state method
  obtain ⟨rule, hrule, offset, subject, rfl⟩ := hsigned finding h
  have hcalled : offset ∈ calledOffsets method.walk.visits :=
    hspent.subset (List.mem_map_of_mem h)
  obtain ⟨visit, hvisit, hcall, rfl⟩ := mem_calledOffsets.1 hcalled
  exact ⟨rule, hrule, visit, hvisit, hcall, subject, rfl⟩

theorem MemoryBloat.marksCall_of_growth? {cls : Class} {ref : FieldRef} {finding : Finding}
    (h : growth? cls ref = some finding) :
    ∃ method ∈ cls.methods, method.walk.completes = true ∧
      detector.MarksCall cls method finding := by
  obtain ⟨_, method, visit, hfirst, rfl⟩ := growth?_eq_some_iff.1 h
  obtain ⟨before, after, front, back, hmethods, hvisits, hsettles, hcalls, _, _⟩ := hfirst
  obtain ⟨hopcode, site, _, _, hsite, _⟩ := hcalls
  have hinvocation : visit.instruction.opcode ∈ Opcode.invocations := by
    rcases hopcode with hopcode | hopcode
    · rw [hopcode]
      decide
    · rw [hopcode]
      decide
  refine ⟨method, by simp [hmethods], hsettles.2.2, onlyGrows, List.mem_singleton_self _, visit,
    by simp [hvisits], Instruction.isCall_of_call? hinvocation hsite, some ref.subject, rfl⟩

/-- What the catalog reports at the end of a class is a growth of a field. -/
theorem growth?_of_mem_endOf {detector : Detector} (hdetector : detector ∈ catalog) {cls : Class}
    {finding : Finding} (h : finding ∈ detector.endOf cls) :
    detector = MemoryBloat.detector ∧
      ∃ ref ∈ MemoryBloat.collectionFields cls, MemoryBloat.growth? cls ref = some finding := by
  simp only [catalog, List.mem_cons, List.not_mem_nil, or_false] at hdetector
  rcases hdetector with rfl | rfl | rfl | rfl | rfl
  · cases h
  · cases h
  · rw [MemoryBloat.endOf_eq] at h
    exact ⟨rfl, List.mem_filterMap.1 h⟩
  · cases h
  · cases h

/-- What a detector of the catalog finds in a class points at calls. -/
theorem marksCall_of_mem_findings {detector : Detector} (hdetector : detector ∈ catalog)
    {cls : Class} {finding : Finding} (h : finding ∈ (analyzeClass [detector] cls).findings) :
    ∃ method ∈ cls.methods, method.walk.completes = true ∧
      detector.MarksCall cls method finding := by
  rw [findings_analyzeClass, flatMap_finish] at h
  rcases List.mem_append.1 h with hmethods | hend
  · obtain ⟨pass, hpass, method, hmethod, state, hfound⟩ := foundIn_of_mem_findings hmethods
    obtain ⟨ledger⟩ := ledger_of_mem_catalog hdetector
    obtain rfl : pass.detector = detector := List.mem_singleton.1 (mem_of_mem_begun hpass)
    exact ⟨method, (List.mem_filter.1 hmethod).1, (Detector.mem_foundIn.1 hfound).2.1,
      ledger.marksCall hfound⟩
  · rw [List.flatMap_singleton] at hend
    obtain ⟨rfl, ref, _, hgrowth⟩ := growth?_of_mem_endOf hdetector hend
    exact MemoryBloat.marksCall_of_growth? hgrowth

/-- What an analysis finds in a class is found by one of its detectors
alone. -/
theorem alone_of_mem_findings {detectors : List Detector} {cls : Class} {finding : Finding}
    (h : finding ∈ (analyzeClass detectors cls).findings) :
    ∃ detector ∈ detectors, finding ∈ (analyzeClass [detector] cls).findings := by
  rw [← numbered_detectors detectors, ← total_analyzeClassBy] at h
  obtain ⟨entry, hentry, rfl⟩ := List.mem_map.1 h
  obtain ⟨detector, hnumbered, _⟩ := reports_of_mem_findings hentry
  have hindex : detectors[entry.1]? = some detector := mem_numbered.1 hnumbered
  refine ⟨detector, List.mem_of_getElem? hindex, ?_⟩
  rw [← (of_numbered hindex cls).1]
  exact List.mem_map_of_mem (List.mem_filter.2 ⟨hentry, beq_self_eq_true _⟩)

/-- Every finding in a class is found by one detector alone, and has its mark. -/
theorem exists_marksCall {detectors : List Detector} (hdetectors : detectors.Sublist catalog)
    {cls : Class} {finding : Finding} (h : finding ∈ (analyzeClass detectors cls).findings) :
    ∃ detector ∈ detectors, finding ∈ (analyzeClass [detector] cls).findings ∧
      ∃ method ∈ cls.methods, method.walk.completes = true ∧
        detector.MarksCall cls method finding := by
  obtain ⟨detector, hdetector, halone⟩ := alone_of_mem_findings h
  exact ⟨detector, hdetector, halone,
    marksCall_of_mem_findings (hdetectors.subset hdetector) halone⟩

theorem mem_findings_analyze {detectors : List Detector} {classes : List Class}
    {finding : Finding} :
    finding ∈ (analyze detectors classes).findings ↔
      ∃ cls ∈ classes, finding ∈ (analyzeClass detectors cls).findings := by
  rw [findings_analyze, sortFindings, List.mem_mergeSort, List.mem_flatMap]

/-! ## The result -/

/-- What is selected is what the catalog has by the ids of the selection. -/
theorem exists_filter_of_selected {ids : List String}
    {detectors : List Detector} (h : selectDetectors ids = .ok detectors) :
    ∃ kept : List String, detectors = catalog.filter fun detector => kept.contains detector.id := by
  unfold selectDetectors at h
  split at h
  · cases h
    refine ⟨catalog.map (·.id), (List.filter_eq_self.2 fun detector hdetector => ?_).symm⟩
    exact List.contains_iff_mem.2 (List.mem_map_of_mem hdetector)
  · split at h
    · cases h
    · cases h
      exact ⟨ids, rfl⟩

/-- A selection keeps the order of the catalog. -/
theorem sublist_of_selected {ids : List String} {detectors : List Detector}
    (h : selectDetectors ids = .ok detectors) : detectors.Sublist catalog := by
  obtain ⟨kept, rfl⟩ := exists_filter_of_selected h
  exact List.filter_sublist

/-- The finding names the class and the method, and the place of the call in
the method. -/
structure Finding.PointsAt (finding : Finding) (cls : Class) (method : Method)
    (call : Instruction) : Prop where
  className : finding.location.className = cls.name
  uri : finding.location.uri = cls.uri
  methodName : finding.location.methodName = method.name
  methodDescriptor : finding.location.methodDescriptor = method.descriptor
  offset : finding.location.offset = call.offset
  line : finding.location.line = method.lineAt? call.offset

/-- Every finding points at a call, in a method that was walked to its end.
It is found by one of the selected detectors alone, and that detector has a
rule with the id and the priority of the finding. -/
theorem finding_pointsAt_call {ids : List String} {detectors : List Detector}
    (hselected : selectDetectors ids = .ok detectors) {classes : List Class} {finding : Finding}
    (h : finding ∈ (analyze detectors classes).findings) :
    ∃ cls ∈ classes, ∃ method ∈ cls.methods, method.walk.completes = true ∧
      (∃ call ∈ method.code, call.isCall = true ∧ finding.PointsAt cls method call) ∧
      ∃ detector ∈ detectors, finding ∈ (analyzeClass [detector] cls).findings ∧
        ∃ rule ∈ detector.rules,
          finding.ruleId = rule.id ∧ finding.priority = rule.priority := by
  obtain ⟨cls, hcls, hfinding⟩ := mem_findings_analyze.1 h
  obtain ⟨detector, hdetector, halone, method, hmethod, hcompletes, rule, hrule, visit, hvisit,
    hcall, subject, rfl⟩ := exists_marksCall (sublist_of_selected hselected) hfinding
  refine ⟨cls, hcls, method, hmethod, hcompletes, ?_, detector, hdetector, halone, rule, hrule,
    rfl, rfl⟩
  exact ⟨visit.instruction, Method.mem_code_of_visit hvisit, hcall, rfl, rfl, rfl, rfl, rfl, rfl⟩

/-- A class with a static list that only grows, a method that constructs an
object and drops it three lines below, and the lines of both. -/
def keepsLog : Class where
  name := "Demo"
  majorVersion := 52
  fields := [⟨"log", "Ljava/util/List;", true⟩]
  methods :=
    [ { addToLog with lines := [⟨0, 3⟩, ⟨9, 4⟩] }
    , clearThenUnderflow
    , { name := "run"
        descriptor := "()V"
        maxStack := some 2
        code :=
          [ ⟨0, .new, .type "java/lang/Object"⟩
          , ⟨3, 0x59, .none⟩
          , ⟨4, .invokespecial, .call ⟨.special, "java/lang/Object", "<init>", "()V"⟩⟩
          , ⟨7, .pop, .none⟩
          , ⟨8, .voidReturn, .none⟩ ]
        lines := [⟨0, 7⟩, ⟨7, 10⟩]
        handlers := [] } ]
  uri := some "file:///work/Demo.class"

/-- Both findings are made after the call that they point at: one at the `pop`
in line 10, and one at the end of the class. -/
theorem keepsLog_findings_pointAt :
    selectDetectors [] = .ok catalog ∧
      (analyzeClass catalog keepsLog).findings =
        [ DiscardedObject.discarded.report
            ⟨"Demo", "run", "()V", 4, some 7, some "file:///work/Demo.class"⟩ none
        , MemoryBloat.onlyGrows.report
            ⟨"Demo", "add", "(Ljava/lang/Object;)V", 4, some 3, some "file:///work/Demo.class"⟩
            (some (.field "Demo" "log" "Ljava/util/List;")) ] ∧
      ∀ finding ∈ (analyzeClass catalog keepsLog).findings,
        finding ∈ (analyze catalog [keepsLog]).findings ∧
          ∃ cls ∈ [keepsLog], ∃ method ∈ cls.methods, method.walk.completes = true ∧
            (∃ call ∈ method.code, call.isCall = true ∧ finding.PointsAt cls method call) ∧
            ∃ detector ∈ catalog, finding ∈ (analyzeClass [detector] cls).findings ∧
              ∃ rule ∈ detector.rules,
                finding.ruleId = rule.id ∧ finding.priority = rule.priority := by
  have hselected : selectDetectors [] = .ok catalog := rfl
  refine ⟨hselected, by decide +kernel, fun finding h => ?_⟩
  have hfound : finding ∈ (analyze catalog [keepsLog]).findings :=
    mem_findings_analyze.2 ⟨keepsLog, List.mem_singleton_self _, h⟩
  exact ⟨hfound, finding_pointsAt_call hselected hfound⟩

end BytecodeLint
