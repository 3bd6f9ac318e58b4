import BytecodeLint.Proofs.Attribution
import BytecodeLint.Proofs.Transitions

/-!
# What a detector reports

A finding of an analysis was made by one of its detectors, at a visit of a
method that was walked to its end or at the end of the class.  A diagnostic
that names a detector names the one whose visit failed.

There are three groups.

* `Detector.Reports`, what a detector may report about a class.
* `reports_of_mem_findings` and `named_of_mem_diagnostics` say where the
  results of an analysis with labels come from.
* The detectors of the catalog.  Each reports its own rules only, and no
  two of them share a rule.
-/

namespace BytecodeLint

variable {ι : Type}

/-! ## What a detector may report -/

namespace Detector

/-- The detector makes the finding at some visit of the method. -/
def ReportsIn (detector : Detector) (cls : Class) (method : Method) (finding : Finding) : Prop :=
  ∃ visit ∈ method.walk.visits, ∃ state found after,
    detector.visit { visit with cls, method } state = .ok found after ∧ finding ∈ found

/-- The detector makes the finding in a method that is walked to its end, or
at the end of the class. -/
def Reports (detector : Detector) (cls : Class) (finding : Finding) : Prop :=
  (∃ method ∈ cls.methods, method.walk.completes = true ∧ detector.ReportsIn cls method finding) ∨
    ∃ state, finding ∈ detector.finish state

end Detector

/-! ## A run -/

section Run

variable {detectors : List (ι × Detector)} {cls : Class} {method : Method}

/-- The attempt is one of the detector with its label, and its findings are
findings of the detector. -/
structure Owned (detectors : List (ι × Detector)) (cls : Class) (method : Method)
    (entry : ι × Attempt) : Prop where
  detector : (entry.1, entry.2.pass.detector) ∈ detectors
  findings : ∀ finding ∈ entry.2.findings, entry.2.pass.detector.ReportsIn cls method finding

/-- The diagnostic names the detector with its label, or neither a detector
nor a label. -/
def Named (detectors : List (ι × Detector)) (entry : Option ι × Diagnostic) : Prop :=
  (entry.1 = none ∧ entry.2.detector = none) ∨
    ∃ label detector, (label, detector) ∈ detectors ∧ entry.1 = some label ∧
      entry.2.detector = some detector.id

theorem Owned.visit {visit : Visit} (hvisit : visit ∈ method.walk.visits) {label : ι}
    {attempt : Attempt} (h : Owned detectors cls method (label, attempt)) :
    Owned detectors cls method (label, (attempt.visit { visit with cls, method }).1) where
  detector := by
    rw [Attempt.visit_detector]
    exact h.detector
  findings := by
    intro finding hfinding
    rw [Attempt.visit_detector]
    rcases Attempt.mem_findings_visit hfinding with hold | ⟨state, found, after, hnew, hmem⟩
    · exact h.findings finding hold
    · exact ⟨visit, hvisit, state, found, after, hnew, hmem⟩

theorem owned_followBy {visits : List Visit} {attempts : List (ι × Attempt)}
    (hvisits : ∀ visit ∈ visits, visit ∈ method.walk.visits)
    (h : ∀ entry ∈ attempts, Owned detectors cls method entry) :
    (∀ entry ∈ (Attempt.followBy cls method visits attempts).1,
        Owned detectors cls method entry) ∧
      ∀ entry ∈ (Attempt.followBy cls method visits attempts).2, Named detectors entry := by
  induction visits generalizing attempts with
  | nil => exact ⟨h, fun _ hentry => absurd hentry List.not_mem_nil⟩
  | cons visit rest ih =>
    have hvisit := hvisits visit (List.mem_cons_self ..)
    have hnext : ∀ entry ∈ (Attempt.visitAllBy { visit with cls, method } attempts).1,
        Owned detectors cls method entry := by
      intro entry hentry
      obtain ⟨old, hold, rfl⟩ := List.mem_map.1 hentry
      exact (h old hold).visit hvisit
    obtain ⟨hattempts, hlater⟩ := ih (fun later hmem => hvisits later (List.mem_cons_of_mem _ hmem))
      hnext
    refine ⟨hattempts, fun entry hentry => ?_⟩
    rcases List.mem_append.1 hentry with hentry | hentry
    · obtain ⟨old, hold, hdiagnostic⟩ := List.mem_filterMap.1 hentry
      obtain ⟨diagnostic, hfound, rfl⟩ := Option.map_eq_some_iff.1 hdiagnostic
      exact Or.inr ⟨_, _, (h old hold).detector, rfl,
        Attempt.detector_of_visit_diagnostic hfound⟩
    · exact hlater entry hentry

theorem owned_analyzeMethodBy {passes : List (ι × Pass)} (hmethod : method ∈ cls.methods)
    (h : ∀ entry ∈ passes, (entry.1, entry.2.detector) ∈ detectors) :
    (∀ entry ∈ (analyzeMethodBy cls passes method).1, (entry.1, entry.2.detector) ∈ detectors) ∧
      (∀ entry ∈ (analyzeMethodBy cls passes method).2.findings, ∃ detector,
        (entry.1, detector) ∈ detectors ∧ detector.Reports cls entry.2) ∧
      ∀ entry ∈ (analyzeMethodBy cls passes method).2.diagnostics, Named detectors entry := by
  have hattempts : ∀ entry ∈ attemptsBy passes method, Owned detectors cls method entry := by
    intro entry hentry
    obtain ⟨old, hold, rfl⟩ := List.mem_map.1 hentry
    refine ⟨?_, fun finding hfinding => ?_⟩
    · rw [Pass.attempt_detector]
      exact h old hold
    · rw [Pass.attempt_findings] at hfinding
      cases hfinding
  obtain ⟨howned, hnamed⟩ := owned_followBy (fun _ hvisit => hvisit) hattempts
  unfold analyzeMethodBy
  split
  · refine ⟨?_, ?_, ?_⟩
    · intro entry hentry
      obtain ⟨concluded, hconcluded, rfl⟩ := List.mem_map.1 hentry
      obtain ⟨old, hold, rfl⟩ := List.mem_map.1 hconcluded
      show (old.1, (old.2.conclude method method.walk.completes).1.detector) ∈ detectors
      rw [Attempt.conclude_detector]
      exact (howned old hold).detector
    · intro entry hentry
      obtain ⟨concluded, hconcluded, hmem⟩ := List.mem_flatMap.1 hentry
      obtain ⟨finding, hfinding, rfl⟩ := List.mem_map.1 hmem
      obtain ⟨old, hold, rfl⟩ := List.mem_map.1 hconcluded
      obtain ⟨hcompletes, hfound⟩ := Attempt.mem_findings_conclude hfinding
      exact ⟨_, (howned old hold).detector,
        Or.inl ⟨method, hmethod, hcompletes, (howned old hold).findings finding hfound⟩⟩
    · intro entry hentry
      rcases List.mem_append.1 hentry with hentry | hentry
      · exact hnamed entry hentry
      · obtain ⟨fault, _, rfl⟩ := Option.map_eq_some_iff.1 (Option.mem_toList.1 hentry)
        exact Or.inl ⟨rfl, rfl⟩
  · exact ⟨h, fun _ hentry => absurd hentry List.not_mem_nil,
      fun _ hentry => absurd hentry List.not_mem_nil⟩

theorem owned_analyzeMethodsBy {methods : List Method} {passes : List (ι × Pass)}
    (hmethods : ∀ method ∈ methods, method ∈ cls.methods)
    (h : ∀ entry ∈ passes, (entry.1, entry.2.detector) ∈ detectors) :
    (∀ entry ∈ (analyzeMethodsBy cls passes methods).1,
        (entry.1, entry.2.detector) ∈ detectors) ∧
      (∀ entry ∈ (analyzeMethodsBy cls passes methods).2.findings, ∃ detector,
        (entry.1, detector) ∈ detectors ∧ detector.Reports cls entry.2) ∧
      ∀ entry ∈ (analyzeMethodsBy cls passes methods).2.diagnostics, Named detectors entry := by
  induction methods generalizing passes with
  | nil =>
    exact ⟨h, fun _ hentry => absurd hentry List.not_mem_nil,
      fun _ hentry => absurd hentry List.not_mem_nil⟩
  | cons method rest ih =>
    obtain ⟨hpasses, hfindings, hdiagnostics⟩ :=
      owned_analyzeMethodBy (hmethods method (List.mem_cons_self ..)) h
    obtain ⟨hend, hlaterFindings, hlaterDiagnostics⟩ :=
      ih (fun later hlater => hmethods later (List.mem_cons_of_mem _ hlater)) hpasses
    refine ⟨hend, fun entry hentry => ?_, fun entry hentry => ?_⟩
    · rcases List.mem_append.1 hentry with hentry | hentry
      · exact hfindings entry hentry
      · exact hlaterFindings entry hentry
    · rcases List.mem_append.1 hentry with hentry | hentry
      · exact hdiagnostics entry hentry
      · exact hlaterDiagnostics entry hentry

private theorem owned_startBy :
    ∀ entry ∈ startBy detectors cls, (entry.1, entry.2.detector) ∈ detectors := by
  intro entry hentry
  obtain ⟨⟨label, detector⟩, hmem, hstart⟩ := List.mem_filterMap.1 hentry
  obtain ⟨pass, hpass, rfl⟩ := Option.map_eq_some_iff.1 hstart
  obtain ⟨state, _, rfl⟩ := Option.map_eq_some_iff.1 hpass
  exact hmem

/-- A finding comes from a detector with its label. -/
theorem reports_of_mem_findings {entry : ι × Finding}
    (h : entry ∈ (analyzeClassBy detectors cls).findings) :
    ∃ detector, (entry.1, detector) ∈ detectors ∧ detector.Reports cls entry.2 := by
  have hstart : ∀ entry ∈ startBy detectors cls, (entry.1, entry.2.detector) ∈ detectors :=
    owned_startBy
  obtain ⟨hpasses, hfindings, _⟩ :=
    owned_analyzeMethodsBy (fun _ hmethod => (List.mem_filter.1 hmethod).1) hstart
  rcases List.mem_append.1 h with h | h
  · exact hfindings entry h
  · obtain ⟨ended, hended, hmem⟩ := List.mem_flatMap.1 h
    obtain ⟨finding, hfinding, rfl⟩ := List.mem_map.1 hmem
    exact ⟨ended.2.detector, hpasses ended hended, Or.inr ⟨ended.2.state, hfinding⟩⟩

/-- A diagnostic names the detector with its label. -/
theorem named_of_mem_diagnostics {entry : Option ι × Diagnostic}
    (h : entry ∈ (analyzeClassBy detectors cls).diagnostics) : Named detectors entry :=
  (owned_analyzeMethodsBy (fun _ hmethod => (List.mem_filter.1 hmethod).1) owned_startBy).2.2
    entry h

end Run

/-! ## The catalog -/

/-- The detector reports its own rules only. -/
def Detector.KeepsToRules (detector : Detector) : Prop :=
  ∀ cls finding, detector.Reports cls finding → ∃ rule ∈ detector.rules, finding.ruleId = rule.id

theorem Detector.keepsToRules_of_visit {detector : Detector}
    (hvisit : ∀ step state found after, detector.visit step state = .ok found after →
      ∀ finding ∈ found, ∃ rule ∈ detector.rules, finding.ruleId = rule.id)
    (hfinish : ∀ state, ∀ finding ∈ detector.finish state,
      ∃ rule ∈ detector.rules, finding.ruleId = rule.id) : detector.KeepsToRules := by
  rintro cls finding (⟨method, _, _, visit, _, state, found, after, hfound, hmem⟩ | ⟨state, hmem⟩)
  · exact hvisit _ state found after hfound finding hmem
  · exact hfinish state finding hmem

theorem LiteralComparison.keepsToRules : detector.KeepsToRules := by
  refine detector.keepsToRules_of_visit ?_ fun _ _ hmem => absurd hmem List.not_mem_nil
  intro step state found after hvisit finding hmem
  have hfound := (visit_eq step state).symm.trans hvisit
  cases hfound
  split at hmem
  · rw [List.mem_singleton.1 hmem]
    exact ⟨literalArgument, List.mem_singleton_self _, rfl⟩
  · cases hmem

private theorem eq_of_ite_eq_some {p : Prop} [Decidable p] {first rule : Rule}
    {others : Option Rule} (h : (if p then some first else others) = some rule) :
    rule = first ∨ others = some rule := by
  by_cases hp : p
  · rw [if_pos hp] at h
    exact Or.inl (Option.some_inj.1 h).symm
  · rw [if_neg hp] at h
    exact Or.inr h

theorem Boxing.State.rule_mem {state : State} {inst : Instruction} {rule : Rule}
    (h : state.rule? inst = some rule) : rule ∈ detector.rules := by
  cases state with
  | nothing => cases h
  | unboxed wrapper =>
    rcases eq_of_ite_eq_some h with rfl | h
    · simp [detector]
    · rcases eq_of_ite_eq_some h with rfl | h
      · simp [detector]
      · cases h
  | parsed wrapper =>
    rcases eq_of_ite_eq_some h with rfl | h
    · simp [detector]
    · rcases eq_of_ite_eq_some h with rfl | h
      · simp [detector]
      · cases h
  | boxed wrapper =>
    rcases eq_of_ite_eq_some h with rfl | h
    · simp [detector]
    · rcases eq_of_ite_eq_some h with rfl | h
      · simp [detector]
      · cases h
  | boxedString wrapper =>
    rcases eq_of_ite_eq_some h with rfl | h
    · simp [detector]
    · cases h
  | zeroOrOne =>
    rcases eq_of_ite_eq_some h with rfl | h
    · simp [detector]
    · cases h
  | booleanObject =>
    rcases eq_of_ite_eq_some h with rfl | h
    · simp [detector]
    · cases h

theorem Boxing.keepsToRules : detector.KeepsToRules := by
  refine detector.keepsToRules_of_visit ?_ fun _ _ hmem => absurd hmem List.not_mem_nil
  intro step state found after hvisit finding hmem
  have hfound := (visit_eq step state).symm.trans hvisit
  split at hfound
  · cases hfound
    cases hmem
  · cases hfound
    obtain ⟨rule, hrule, rfl⟩ := Option.map_eq_some_iff.1 (Option.mem_toList.1 hmem)
    exact ⟨rule, State.rule_mem hrule, rfl⟩

theorem SelfAssignment.keepsToRules : detector.KeepsToRules := by
  refine detector.keepsToRules_of_visit ?_ fun _ _ hmem => absurd hmem List.not_mem_nil
  intro step state found after hvisit finding hmem
  have hfound := (visit_eq step state).symm.trans hvisit
  cases hfound
  obtain ⟨subject, _, rfl⟩ := Option.map_eq_some_iff.1 (Option.mem_toList.1 hmem)
  exact ⟨selfAssignment, List.mem_singleton_self _, rfl⟩

theorem DiscardedObject.ruleId_of_mem_settle {step : Step} {pending : Option Survivor}
    {finding : Finding} (h : finding ∈ (settle step pending).2) :
    finding.ruleId = discarded.id := by
  cases pending with
  | none => cases h
  | some survivor =>
    simp only [settle] at h
    cases hfate : fate survivor step with
    | discarded =>
      simp only [hfate, List.mem_singleton] at h
      rw [h]
      rfl
    | pending =>
      simp only [hfate] at h
      cases h
    | used =>
      simp only [hfate] at h
      cases h

theorem DiscardedObject.keepsToRules : detector.KeepsToRules := by
  refine detector.keepsToRules_of_visit ?_ fun _ _ hmem => absurd hmem List.not_mem_nil
  intro step state found after hvisit finding hmem
  refine ⟨discarded, List.mem_singleton_self _, ?_⟩
  have hfound := (visit_eq step state).symm.trans hvisit
  cases hremains : remainsAt step with
  | error fault =>
    simp only [hremains] at hfound
    cases hfound
  | ok remains =>
    match remains with
    | none =>
      simp only [hremains] at hfound
      cases hfound
      exact ruleId_of_mem_settle hmem
    | some (.copy survivor) =>
      simp only [hremains] at hfound
      cases hfound
      exact ruleId_of_mem_settle hmem
    | some .nothing =>
      simp only [hremains] at hfound
      cases hfound
      rcases List.mem_append.1 hmem with hmem | hmem
      · exact ruleId_of_mem_settle hmem
      · rw [List.mem_singleton.1 hmem]
        rfl

theorem MemoryBloat.found_eq_nil {step : Step} {state after : State} {found : List Finding}
    (h : visit step state = .ok found after) : found = [] := by
  rw [visit_eq] at h
  cases hchange : sizeChange? step with
  | none =>
    simp only [hchange] at h
    cases h
    rfl
  | some change =>
    simp only [hchange] at h
    cases hslots : callSlots change.2 with
    | error bad =>
      simp only [hslots] at h
      cases h
    | ok slots =>
      simp only [hslots] at h
      cases h
      rfl

theorem MemoryBloat.keepsToRules : detector.KeepsToRules := by
  refine detector.keepsToRules_of_visit ?_ ?_
  · intro step state found after hvisit finding hmem
    rw [found_eq_nil hvisit] at hmem
    cases hmem
  · intro state finding hmem
    obtain ⟨suspect, _, hreport⟩ := List.mem_filterMap.1 hmem
    obtain ⟨location, _, rfl⟩ := Option.map_eq_some_iff.1 hreport
    exact ⟨onlyGrows, List.mem_singleton_self _, rfl⟩

theorem keepsToRules_of_mem_catalog {detector : Detector} (h : detector ∈ catalog) :
    detector.KeepsToRules := by
  simp only [catalog, List.mem_cons, List.not_mem_nil, or_false] at h
  rcases h with rfl | rfl | rfl | rfl | rfl
  · exact LiteralComparison.keepsToRules
  · exact Boxing.keepsToRules
  · exact MemoryBloat.keepsToRules
  · exact DiscardedObject.keepsToRules
  · exact SelfAssignment.keepsToRules

/-- No two detectors of the catalog share a rule. -/
theorem id_eq_of_rule_id_eq : ∀ detector ∈ catalog, ∀ other ∈ catalog,
    ∀ rule ∈ detector.rules, ∀ shared ∈ other.rules,
      rule.id = shared.id → detector.id = other.id := by
  decide

end BytecodeLint
