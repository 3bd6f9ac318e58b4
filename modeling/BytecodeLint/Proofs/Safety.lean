import BytecodeLint.Proofs.Abandonment
import BytecodeLint.Proofs.Depth

/-!
# The catalog is safe

A class may hold anything: opcodes without a meaning, operands that do not
fit, descriptors that cannot be read, jumps to nowhere.  Whatever it holds,
an analysis with detectors of the catalog meets no fault but those of a walk,
and of each method it tells at most one.

There are three groups.

* The depth behind an instruction is what was counted for it.
* The depth at which a discarded object is looked for.
* What an analysis tells of each method, and the result.
-/

namespace BytecodeLint

open OperandStack

/-! ## Depths -/

/-- An instruction changes the depth by what was counted for it. -/
theorem Instruction.depth_of_apply {inst : Instruction} {stack after : OperandStack}
    {counts : StackEffect} (hcounts : inst.stackEffect = .ok counts)
    (h : inst.apply stack = .ok ⟨⟩ after) :
    counts.pops ≤ stack.depth ∧ after.depth + counts.pops = stack.depth + counts.pushes := by
  obtain ⟨effect, counted, heffect, hcounted, hdeep, rfl⟩ := apply_ok h
  cases hcounts.symm.trans (stackEffect_of_effect? heffect hcounted)
  have hlength : (inst.slotsAfter counts stack.slots effect).length =
      stack.depth - counts.pops + counts.pushes := length_slotsAfter heffect hcounted hdeep
  refine ⟨hdeep, ?_⟩
  rw [withSlots_depth, hlength]
  omega

/-- A constructor call that leaves a copy of its object has taken its
arguments and the object from below the depth of the stack. -/
theorem DiscardedObject.depth_of_copy {step : Step} {params : Nat} {survivor : Survivor}
    (h : remains? step params = some (.copy survivor)) :
    survivor.depth + (params + 1) = step.depth := by
  obtain ⟨allocation, hallocation, hremains⟩ := Option.bind_eq_some_iff.1 h
  obtain ⟨slot, hslot, _⟩ := Option.bind_eq_some_iff.1 hallocation
  have hdeep : params < step.depth := (List.getElem?_eq_some_iff.1 hslot).1
  simp only at hremains
  split at hremains
  · cases hremains
    show step.depth - params - 1 + (params + 1) = step.depth
    omega
  · split at hremains
    · cases hremains
    · cases hremains

/-! ## Diagnostics -/

/-- What is told of a method: the fault of its walk, if some detector began
the class and took the method up. -/
def toldOf (detectors : List Detector) (cls : Class) (method : Method) : Option Diagnostic :=
  if detectors.any fun detector =>
      (detector.start cls).isSome && detector.accepts method method.opcodes then
    method.walk.fault.map (·.diagnostic cls method)
  else
    none

variable {detectors : List Detector} {cls : Class} {method : Method}

/-- Of a method without a body nothing is told. -/
theorem toldOf_of_noBody (h : method.hasBody = false) : toldOf detectors cls method = none := by
  unfold toldOf
  rw [Method.walk_of_noBody h]
  exact ite_self _

theorem detector_of_toldOf {diagnostic : Diagnostic}
    (h : toldOf detectors cls method = some diagnostic) : diagnostic.detector = none := by
  unfold toldOf at h
  split at h
  · obtain ⟨fault, _, rfl⟩ := Option.map_eq_some_iff.1 h
    rfl
  · cases h

/-- Methods one after another tell what each of them tells. -/
theorem analyzeMethods_diagnostics (hdetectors : ∀ detector ∈ detectors, detector.Infallible)
    (methods : List Method) {passes : List Pass}
    (hpasses : passes.map (·.detector) = (begun detectors cls).map (·.detector)) :
    (analyzeMethods cls passes methods).2.diagnostics =
      methods.filterMap (toldOf detectors cls) := by
  induction methods generalizing passes with
  | nil => rfl
  | cons method rest ih =>
    have hinfallible : ∀ pass ∈ passes, pass.detector.Infallible := fun pass hpass =>
      hdetectors _ (detector_mem_of_map_eq hpasses pass hpass)
    have hrest := ih ((analyzeMethod_detectors cls passes method).trans hpasses)
    show (analyzeMethod cls passes method).2.diagnostics ++
      (analyzeMethods cls (analyzeMethod cls passes method).1 rest).2.diagnostics = _
    rw [hrest, analyzeMethod_diagnostics hinfallible, any_accepts hpasses, List.filterMap_cons]
    unfold toldOf
    split
    · cases method.walk.fault with
      | none => rfl
      | some fault => rfl
    · rfl

theorem analyzeClass_diagnostics (hdetectors : ∀ detector ∈ detectors, detector.Infallible)
    (cls : Class) :
    (analyzeClass detectors cls).diagnostics = cls.methods.filterMap (toldOf detectors cls) := by
  have htold : (analyzeClass detectors cls).diagnostics =
      (cls.methods.filter Method.hasBody).filterMap (toldOf detectors cls) :=
    analyzeMethods_diagnostics hdetectors _ rfl
  rw [htold, List.filterMap_filter]
  refine List.filterMap_congr fun method _ => ?_
  cases hbody : method.hasBody with
  | true => rfl
  | false => rw [toldOf_of_noBody hbody]; rfl

/-- Any detectors of the catalog are safe on any classes.

* No detector fails at a visit of a walk, whatever its state.
* An instruction finds what was counted for it, and changes the depth by it.
* The depth at which a discarded object is looked for is that of the stack
  without the arguments and the object of the constructor call.
* Of each method at most one thing is told: the fault of its walk, if some
  detector took the method up.  No detector is named in it. -/
theorem analyze_safe (hcatalog : ∀ detector ∈ detectors, detector ∈ catalog)
    (classes : List Class) :
    (∀ detector ∈ detectors, ∀ cls ∈ classes, ∀ method ∈ cls.methods,
      ∀ visit ∈ method.walk.visits, ∀ state, ∃ found after,
        detector.visit { visit with cls, method } state = .ok found after) ∧
    (∀ (inst : Instruction) (stack after : OperandStack) (counts : StackEffect),
      inst.stackEffect = .ok counts → inst.apply stack = .ok ⟨⟩ after →
        counts.pops ≤ stack.depth ∧ after.depth + counts.pops = stack.depth + counts.pushes) ∧
    (∀ (step : Step) (params : Nat) (survivor : DiscardedObject.Survivor),
      DiscardedObject.remains? step params = some (.copy survivor) →
        survivor.depth + (params + 1) = step.depth) ∧
    (analyze detectors classes).diagnostics =
      classes.flatMap (fun cls => cls.methods.filterMap (toldOf detectors cls)) ∧
    ∀ diagnostic ∈ (analyze detectors classes).diagnostics, diagnostic.detector = none := by
  have hinfallible : ∀ detector ∈ detectors, detector.Infallible := fun detector hdetector =>
    infallible_of_mem_catalog (hcatalog detector hdetector)
  have hdiagnostics : (analyze detectors classes).diagnostics =
      classes.flatMap fun cls => cls.methods.filterMap (toldOf detectors cls) := by
    show (classes.map (analyzeClass detectors)).flatMap (·.diagnostics) = _
    rw [List.flatMap_map]
    exact List.flatMap_congr fun cls _ => analyzeClass_diagnostics hinfallible cls
  refine ⟨?_, fun inst stack after counts hcounts happly => Instruction.depth_of_apply hcounts happly,
    fun step params survivor h => DiscardedObject.depth_of_copy h, hdiagnostics, ?_⟩
  · intro detector hdetector cls _ method _ visit hvisit state
    exact hinfallible detector hdetector _ state (Method.counted_of_visit hvisit)
  · intro diagnostic hdiagnostic
    rw [hdiagnostics] at hdiagnostic
    obtain ⟨cls, _, htold⟩ := List.mem_flatMap.1 hdiagnostic
    obtain ⟨method, _, htold⟩ := List.mem_filterMap.1 htold
    exact detector_of_toldOf htold

/-- A class with a jump that does not fit its opcode and goes nowhere, a
descriptor that breaks off, an opcode without a meaning and a handler between
two instructions. -/
def garbled : Class where
  name := "Demo"
  majorVersion := 52
  fields := [⟨"log", "Ljava/util/List;", true⟩]
  methods :=
    [ { name := "run"
        descriptor := "()V"
        maxStack := none
        code :=
          [ ⟨0, .new, .type "Demo"⟩
          , ⟨3, 0x59, .branch 70000⟩
          , ⟨4, .invokespecial, .call ⟨.special, "Demo", "<init>", "(I"⟩⟩
          , ⟨7, 0xff, .none⟩ ]
        lines := []
        handlers := [5] } ]
  uri := none

/-- The descriptor is found out by the walk, not by the detector that asks for
constructor calls. -/
theorem garbled_safe :
    (∀ detector ∈ [MemoryBloat.detector, DiscardedObject.detector], detector ∈ catalog) ∧
      (analyze [MemoryBloat.detector, DiscardedObject.detector] [garbled]).diagnostics =
        [⟨"Demo", some "run()V", none, some 4,
          "unusable descriptor: parse call descriptor (I: Unexpected end of input."⟩] := by
  have hcatalog :
      ∀ detector ∈ [MemoryBloat.detector, DiscardedObject.detector], detector ∈ catalog := by
    simp [catalog]
  obtain ⟨_, _, _, hdiagnostics, _⟩ := analyze_safe hcatalog [garbled]
  refine ⟨hcatalog, hdiagnostics.trans ?_⟩
  decide +kernel

end BytecodeLint
