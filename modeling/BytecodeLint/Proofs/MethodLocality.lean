import BytecodeLint.Proofs.Coupling

/-!
# Methods are analysed independently

A pass lives for a whole class and keeps its state from method to method.
This module shows that no method hears of the others: what an analysis
reports of a class is what it reports of the methods one by one, put
together in their order.  The rule about memory bloat is left out, because
it is decided by the whole class.

There are four groups.

* `Detector.MethodLocal` says that a detector reports the same of a method
  in whatever state the method finds it.
* All detectors of the catalog are so.
* The methods of a class, one by one.
* `analyzeClass_eq_flatMap_methods` is the result.
-/

namespace BytecodeLint

/-! ## Detectors that forget -/

/-- The class with other methods. -/
def Class.withMethods (cls : Class) (methods : List Method) : Class :=
  { cls with methods }

/-- What the detector reports of a method depends neither on the state in
which the method finds it nor on the other methods of the class. -/
structure Detector.MethodLocal (detector : Detector) : Prop where
  start : ∀ (cls : Class) (methods : List Method),
    (detector.start (cls.withMethods methods)).isSome = (detector.start cls).isSome
  coupling : ∀ (cls : Class) (methods : List Method),
    ∃ coupling : Coupling detector cls (cls.withMethods methods),
      ∀ state state', coupling.between state state'

theorem SameOutcome.refl {σ : Type} (result : EStateM.Result DetectorFault σ (List Finding)) :
    SameOutcome Eq result result := by
  cases result with
  | ok found state => exact .ok found rfl
  | error fault state => exact .error fault rfl

/-- A detector that begins every method in the same state. -/
def Coupling.ofReset {detector : Detector} {cls other : Class}
    (enter : ∀ method state state', detector.enter method state = detector.enter method state')
    (visit : ∀ (visit : Visit) method state, detector.visit { visit with cls, method } state =
      detector.visit { visit with cls := other, method } state) :
    Coupling detector cls other where
  between _ _ := True
  within := Eq
  enter method _ _ _ := enter method _ _
  visit v method state state' h := by
    rw [← h, visit]
    exact .refl _
  leave _ _ _ _ := trivial
  abandon _ _ _ _ := trivial

theorem Detector.methodLocal_of_reset {detector : Detector}
    (start : ∀ cls, (detector.start cls).isSome = true)
    (enter : ∀ method state state', detector.enter method state = detector.enter method state')
    (visit : ∀ (visit : Visit) cls methods method state,
      detector.visit { visit with cls, method } state =
        detector.visit { visit with cls := Class.withMethods cls methods, method } state) :
    detector.MethodLocal where
  start cls methods := by rw [start, start]
  coupling cls methods :=
    ⟨.ofReset enter fun v method state => visit v cls methods method state, fun _ _ => trivial⟩

/-! ## The catalog -/

theorem LiteralComparison.methodLocal : detector.MethodLocal :=
  detector.methodLocal_of_reset (fun _ => rfl) (fun _ _ _ => rfl) fun _ _ _ _ _ => rfl

theorem Boxing.methodLocal : detector.MethodLocal := by
  refine detector.methodLocal_of_reset (fun _ => rfl) (fun _ _ _ => rfl) ?_
  intro v cls methods method state
  refine (visit_eq _ state).trans (Eq.trans ?_ (visit_eq _ state).symm)
  rfl

theorem SelfAssignment.methodLocal : detector.MethodLocal :=
  detector.methodLocal_of_reset (fun _ => rfl) (fun _ _ _ => rfl) fun _ _ _ _ _ => rfl

theorem DiscardedObject.methodLocal : detector.MethodLocal := by
  refine detector.methodLocal_of_reset (fun _ => rfl) (fun _ _ _ => rfl) ?_
  intro v cls methods method state
  refine (visit_eq _ state).trans (Eq.trans ?_ (visit_eq _ state).symm)
  rfl

/-- The detector of memory bloat reports nothing at a visit, and whether it
fails there is a matter of the instruction. -/
theorem MemoryBloat.sameOutcome_visit (v : Visit) (cls : Class) (methods : List Method)
    (method : Method) (state state' : State) :
    SameOutcome (fun _ _ => True) (visit { v with cls, method } state)
      (visit { v with cls := cls.withMethods methods, method } state') := by
  rw [visit_eq, visit_eq]
  have hsame : sizeChange? { v with cls := cls.withMethods methods, method } =
      sizeChange? { v with cls, method } := rfl
  rw [hsame]
  cases sizeChange? { v with cls, method } with
  | none => exact .ok [] trivial
  | some change =>
    cases hslots : callSlots change.2 with
    | error bad =>
      simp only [hslots]
      exact .error _ trivial
    | ok slots =>
      simp only [hslots]
      exact .ok [] trivial

theorem MemoryBloat.methodLocal : detector.MethodLocal where
  start _ _ := rfl
  coupling cls methods :=
    ⟨{ between := fun _ _ => True
       within := fun _ _ => True
       enter := fun _ _ _ _ => trivial
       visit := fun v method state state' _ => sameOutcome_visit v cls methods method state state'
       leave := fun _ _ _ _ => trivial
       abandon := fun _ _ _ _ => trivial }, fun _ _ => trivial⟩

theorem methodLocal_of_mem_catalog {detector : Detector} (h : detector ∈ catalog) :
    detector.MethodLocal := by
  simp only [catalog, List.mem_cons, List.not_mem_nil, or_false] at h
  rcases h with rfl | rfl | rfl | rfl | rfl
  · exact LiteralComparison.methodLocal
  · exact Boxing.methodLocal
  · exact MemoryBloat.methodLocal
  · exact DiscardedObject.methodLocal
  · exact SelfAssignment.methodLocal

/-- The rules that are decided method by method. -/
def localRules : List String :=
  [LiteralComparison.detector, Boxing.detector, DiscardedObject.detector,
    SelfAssignment.detector].flatMap (·.rules.map (·.id))

/-- What is reported at the end of a class is reported by the rule about
memory bloat. -/
theorem not_mem_localRules_of_finish {detector : Detector} (h : detector ∈ catalog)
    {state : detector.State} {finding : Finding} (hfinding : finding ∈ detector.finish state) :
    finding.ruleId ∉ localRules := by
  simp only [catalog, List.mem_cons, List.not_mem_nil, or_false] at h
  rcases h with rfl | rfl | rfl | rfl | rfl
  · cases hfinding
  · cases hfinding
  · obtain ⟨suspect, _, hreport⟩ := List.mem_filterMap.1 hfinding
    obtain ⟨location, _, rfl⟩ := Option.map_eq_some_iff.1 hreport
    show MemoryBloat.onlyGrows.id ∉ localRules
    decide
  · cases hfinding
  · cases hfinding

/-! ## One method after another -/

/-- The passes with which a class begins. -/
def begun (detectors : List Detector) (cls : Class) : List Pass :=
  detectors.filterMap (Pass.start? cls)

theorem mem_of_mem_begun {detectors : List Detector} {cls : Class} {pass : Pass}
    (h : pass ∈ begun detectors cls) : pass.detector ∈ detectors := by
  obtain ⟨detector, hmem, hstart⟩ := List.mem_filterMap.1 h
  obtain ⟨state, _, rfl⟩ := Option.map_eq_some_iff.1 hstart
  exact hmem

theorem begun_detectors (detectors : List Detector) (cls : Class) :
    (begun detectors cls).map (·.detector) =
      detectors.filter fun detector => (detector.start cls).isSome := by
  unfold begun
  induction detectors with
  | nil => rfl
  | cons detector rest ih =>
    rw [List.filterMap_cons, List.filter_cons]
    unfold Pass.start? at ih ⊢
    cases detector.start cls with
    | none => exact ih
    | some state => exact congrArg (detector :: ·) ih

/-- A class analyses its methods with the passes that it begins, and then
ends them. -/
theorem findings_analyzeClass (detectors : List Detector) (cls : Class) :
    (analyzeClass detectors cls).findings =
      (analyzeMethods cls (begun detectors cls) (cls.methods.filter Method.hasBody)).2.findings ++
        (analyzeMethods cls (begun detectors cls)
          (cls.methods.filter Method.hasBody)).1.flatMap Pass.finish := rfl

section Methods

variable {detectors : List Detector} {cls : Class}

theorem detector_mem_of_map_eq {passes : List Pass}
    (h : passes.map (·.detector) = (begun detectors cls).map (·.detector)) :
    ∀ pass ∈ passes, pass.detector ∈ detectors := by
  intro pass hpass
  have hmem : pass.detector ∈ passes.map (·.detector) := List.mem_map_of_mem hpass
  rw [h] at hmem
  obtain ⟨first, hfirst, heq⟩ := List.mem_map.1 hmem
  rw [← heq]
  exact mem_of_mem_begun hfirst

/-- Some pass takes the method up if some detector began the class and takes it
up. -/
theorem any_accepts {passes : List Pass}
    (hpasses : passes.map (·.detector) = (begun detectors cls).map (·.detector)) :
    passes.any (fun pass => pass.detector.accepts method method.opcodes) =
      detectors.any fun detector =>
        (detector.start cls).isSome && detector.accepts method method.opcodes := by
  have hdetectors : passes.any (fun pass => pass.detector.accepts method method.opcodes) =
      (passes.map (·.detector)).any fun detector => detector.accepts method method.opcodes := by
    rw [List.any_map]
    rfl
  rw [hdetectors, hpasses, begun_detectors, List.any_filter]

theorem begun_withMethods (hlocal : ∀ detector ∈ detectors, detector.MethodLocal)
    (methods : List Method) :
    (begun detectors (cls.withMethods methods)).map (·.detector) =
      (begun detectors cls).map (·.detector) := by
  rw [begun_detectors, begun_detectors]
  exact List.filter_congr fun detector hmem => (hlocal detector hmem).start cls methods

/-- Passes of one list of detectors are coupled, whatever their states. -/
theorem coupled_of_detectors {passes passes' : List Pass} (methods : List Method)
    (hlocal : ∀ pass ∈ passes, pass.detector.MethodLocal)
    (h : passes.map (·.detector) = passes'.map (·.detector)) :
    PassesCoupled cls (cls.withMethods methods) passes passes' := by
  induction passes generalizing passes' with
  | nil =>
    cases passes' with
    | nil => exact .nil
    | cons => cases h
  | cons pass rest ih =>
    cases passes' with
    | nil => cases h
    | cons pass' rest' =>
      obtain ⟨detector, state⟩ := pass
      obtain ⟨detector', state'⟩ := pass'
      obtain ⟨hdetector, hrest⟩ := List.cons.inj h
      obtain rfl : detector = detector' := hdetector
      obtain ⟨coupling, hbetween⟩ := (hlocal _ (List.mem_cons_self ..)).coupling cls methods
      exact .cons (.mk coupling (hbetween state state'))
        (ih (fun other hmem => hlocal other (List.mem_cons_of_mem _ hmem)) hrest)

/-- What is reported of the method if it is the only one of the class. -/
def reportedAlone (detectors : List Detector) (cls : Class) (method : Method) : Analysis :=
  (analyzeMethod (cls.withMethods [method]) (begun detectors (cls.withMethods [method])) method).2

/-- Whatever methods came before, what is reported of the next ones is what
is reported of each alone. -/
theorem analyzeMethods_eq (hlocal : ∀ detector ∈ detectors, detector.MethodLocal)
    {passes : List Pass}
    (hpasses : passes.map (·.detector) = (begun detectors cls).map (·.detector))
    (methods : List Method) :
    (analyzeMethods cls passes methods).2.findings =
        methods.flatMap (fun method => (reportedAlone detectors cls method).findings) ∧
      (analyzeMethods cls passes methods).2.diagnostics =
        methods.flatMap (fun method => (reportedAlone detectors cls method).diagnostics) := by
  induction methods generalizing passes with
  | nil => exact ⟨rfl, rfl⟩
  | cons method rest ih =>
    have hlocalPasses : ∀ pass ∈ passes, pass.detector.MethodLocal :=
      fun pass hpass => hlocal _ (detector_mem_of_map_eq hpasses pass hpass)
    have hcoupled : PassesCoupled cls (cls.withMethods [method]) passes
        (begun detectors (cls.withMethods [method])) :=
      coupled_of_detectors [method] hlocalPasses (hpasses.trans (begun_withMethods hlocal _).symm)
    have hfirst : (analyzeMethod cls passes method).2 = reportedAlone detectors cls method :=
      (analyzeMethod_coupled hcoupled rfl method).2
    obtain ⟨hfindings, hdiagnostics⟩ :=
      ih ((analyzeMethod_detectors cls passes method).trans hpasses)
    constructor
    · rw [List.flatMap_cons, ← hfirst, ← hfindings]
      rfl
    · rw [List.flatMap_cons, ← hfirst, ← hdiagnostics]
      rfl

end Methods

/-! ## The result -/

section Class

variable {detectors : List Detector}

private theorem filter_flatMap_finish (hcatalog : ∀ detector ∈ detectors, detector ∈ catalog)
    {passes : List Pass} (hpasses : ∀ pass ∈ passes, pass.detector ∈ detectors) :
    (passes.flatMap Pass.finish).filter (localRules.contains ·.ruleId) = [] := by
  refine List.filter_eq_nil_iff.2 fun finding hfinding => ?_
  obtain ⟨pass, hpass, hmem⟩ := List.mem_flatMap.1 hfinding
  rw [List.contains_iff_mem]
  exact not_mem_localRules_of_finish (hcatalog _ (hpasses pass hpass)) hmem

/-- An analysis of a class puts together what is reported of its methods
alone. -/
theorem analyzeClass_eq (hcatalog : ∀ detector ∈ detectors, detector ∈ catalog) (cls : Class) :
    (analyzeClass detectors cls).findings.filter (localRules.contains ·.ruleId) =
        (cls.methods.filter Method.hasBody).flatMap (fun method =>
          (reportedAlone detectors cls method).findings.filter (localRules.contains ·.ruleId)) ∧
      (analyzeClass detectors cls).diagnostics =
        (cls.methods.filter Method.hasBody).flatMap
          (fun method => (reportedAlone detectors cls method).diagnostics) := by
  have hlocal : ∀ detector ∈ detectors, detector.MethodLocal :=
    fun detector hmem => methodLocal_of_mem_catalog (hcatalog detector hmem)
  have hbegun : (begun detectors cls).map (·.detector) = (begun detectors cls).map (·.detector) :=
    rfl
  obtain ⟨hfindings, hdiagnostics⟩ :=
    analyzeMethods_eq hlocal hbegun (cls.methods.filter Method.hasBody)
  refine ⟨?_, hdiagnostics⟩
  rw [findings_analyzeClass, List.filter_append, hfindings, List.filter_flatMap,
    filter_flatMap_finish hcatalog, List.append_nil]
  exact detector_mem_of_map_eq (analyzeMethods_detectors cls (begun detectors cls) _)

private theorem flatMap_filter_singleton {α β : Type} (p : α → Bool) (items : α → List β)
    (list : List α) :
    (list.filter p).flatMap items = list.flatMap fun x => ([x].filter p).flatMap items := by
  induction list with
  | nil => rfl
  | cons first rest ih =>
    rw [List.filter_cons, List.flatMap_cons, ← ih, List.filter_singleton]
    cases p first <;> simp

/-- What is reported of a class, but for the findings about memory bloat, is
what is reported of its methods one by one, in their order. -/
theorem analyzeClass_eq_flatMap_methods (hcatalog : ∀ detector ∈ detectors, detector ∈ catalog)
    (cls : Class) :
    (analyzeClass detectors cls).findings.filter (localRules.contains ·.ruleId) =
        cls.methods.flatMap (fun method =>
          (analyzeClass detectors (cls.withMethods [method])).findings.filter
            (localRules.contains ·.ruleId)) ∧
      (analyzeClass detectors cls).diagnostics =
        cls.methods.flatMap (fun method =>
          (analyzeClass detectors (cls.withMethods [method])).diagnostics) := by
  obtain ⟨hfindings, hdiagnostics⟩ := analyzeClass_eq hcatalog cls
  constructor
  · rw [hfindings, flatMap_filter_singleton]
    exact List.flatMap_congr fun method _ =>
      (analyzeClass_eq hcatalog (cls.withMethods [method])).1.symm
  · rw [hdiagnostics, flatMap_filter_singleton]
    exact List.flatMap_congr fun method _ =>
      (analyzeClass_eq hcatalog (cls.withMethods [method])).2.symm

end Class

/-- The first method faults just behind a constructor call, when the object
is still followed.  The second pops another value before it drops an object
of its own. -/
def brokenThenDiscarding : Class where
  name := "Demo"
  majorVersion := 52
  fields := []
  methods :=
    [ { name := "broken"
        descriptor := "()V"
        maxStack := some 2
        code :=
          [ ⟨0, .new, .type "java/lang/Object"⟩
          , ⟨3, 0x59, .none⟩
          , ⟨4, .invokespecial, .call ⟨.special, "java/lang/Object", "<init>", "()V"⟩⟩
          , ⟨7, 0xfe, .none⟩ ]
        lines := []
        handlers := [] }
    , { name := "run"
        descriptor := "()V"
        maxStack := some 2
        code :=
          [ ⟨0, 0x01, .none⟩
          , ⟨1, .pop, .none⟩
          , ⟨2, .new, .type "java/lang/Object"⟩
          , ⟨5, 0x59, .none⟩
          , ⟨6, .invokespecial, .call ⟨.special, "java/lang/Object", "<init>", "()V"⟩⟩
          , ⟨9, .pop, .none⟩
          , ⟨10, .voidReturn, .none⟩ ]
        lines := []
        handlers := [] } ]
  uri := none

/-- The object that the first method left behind is not found in the
second. -/
theorem brokenThenDiscarding_eq_flatMap :
    (∀ detector ∈ catalog, detector ∈ catalog) ∧
      (analyzeClass catalog brokenThenDiscarding).findings.filter
          (localRules.contains ·.ruleId) =
        brokenThenDiscarding.methods.flatMap (fun method =>
          (analyzeClass catalog (brokenThenDiscarding.withMethods [method])).findings.filter
            (localRules.contains ·.ruleId)) ∧
      (analyzeClass catalog brokenThenDiscarding).diagnostics =
        brokenThenDiscarding.methods.flatMap (fun method =>
          (analyzeClass catalog (brokenThenDiscarding.withMethods [method])).diagnostics) ∧
      (analyzeClass catalog brokenThenDiscarding).findings =
        [DiscardedObject.discarded.report ⟨"Demo", "run", "()V", 6, none, none⟩ none] := by
  have hcatalog : ∀ detector ∈ catalog, detector ∈ catalog := fun _ h => h
  obtain ⟨hfindings, hdiagnostics⟩ :=
    analyzeClass_eq_flatMap_methods hcatalog brokenThenDiscarding
  exact ⟨hcatalog, hfindings, hdiagnostics, by decide +kernel⟩

end BytecodeLint
