import BytecodeLint.Proofs.Attempts
import BytecodeLint.Proofs.Trail
import BytecodeLint.Proofs.Transitions

/-!
# The catalog does not fail at a visit

Two detectors read the descriptor of a call again, to find the receiver
below the arguments, and they fail if it is unreadable.  The walk has read
it before them: it counts the slots of every instruction that it visits.
So no detector of the catalog fails at a visit of a walk.

There are three groups.

* `Visit.Counted` says that the slots of a visit were counted.  Every visit
  of a walk is so, and then the descriptor of a call is readable.
* `Detector.Infallible`, for each detector and for the catalog.
* Attempts of such detectors tell of nothing, and `analyzeMethod_diagnostics`
  says what is told of a method.
-/

namespace BytecodeLint

/-! ## Counted slots -/

/-- The visit shows how many slots its instruction takes and puts. -/
def Visit.Counted (visit : Visit) : Prop :=
  visit.instruction.stackEffect = .ok visit.effect

theorem Method.counted_of_visit {method : Method} {visit : Visit}
    (h : visit ∈ method.walk.visits) : visit.Counted := by
  obtain ⟨before, later, hvisits⟩ := List.append_of_mem h
  obtain ⟨_, _, _, _, _, hreached⟩ := exists_trail hvisits
  exact hreached.effect

theorem Instruction.stackEffect_ok {inst : Instruction} {counts : StackEffect}
    (h : inst.stackEffect = .ok counts) :
    ∃ effect, inst.opcode.effect? = some effect ∧ inst.countSlots effect = .ok counts := by
  unfold stackEffect Instruction.effect at h
  cases heffect : inst.opcode.effect? with
  | none =>
    rw [heffect] at h
    cases h
  | some effect =>
    rw [heffect] at h
    exact ⟨effect, rfl, h⟩

theorem Instruction.stackEffect_of_effect? {inst : Instruction} {effect : Effect}
    {counts : StackEffect} (heffect : inst.opcode.effect? = some effect)
    (hcounts : inst.countSlots effect = .ok counts) : inst.stackEffect = .ok counts := by
  unfold stackEffect Instruction.effect
  rw [heffect]
  exact hcounts

theorem Instruction.operand_of_call? {inst : Instruction} {site : CallSite}
    (h : inst.call? = some site) : inst.operand = .call site := by
  unfold call? at h
  cases hoperand : inst.operand with
  | call found =>
    rw [hoperand] at h
    cases h
    rfl
  | _ =>
    rw [hoperand] at h
    cases h

/-- The slots of a call that was counted are those of its descriptor. -/
theorem Instruction.callSlots_of_stackEffect {inst : Instruction} {counts : StackEffect}
    {site : CallSite} (hopcode : inst.opcode.effect? = some .invoke)
    (hcall : inst.call? = some site) (h : inst.stackEffect = .ok counts) :
    ∃ slots, callSlots site.descriptor = .ok slots ∧
      counts = ⟨slots.params + (if site.kind.hasReceiver then 1 else 0), slots.result⟩ := by
  obtain ⟨effect, heffect, hcounts⟩ := stackEffect_ok h
  obtain rfl : Effect.invoke = effect := Option.some_inj.1 (hopcode.symm.trans heffect)
  simp only [countSlots, operand_of_call? hcall, callEffect] at hcounts
  cases hslots : callSlots site.descriptor with
  | error bad =>
    rw [hslots] at hcounts
    cases hcounts
  | ok slots =>
    rw [hslots] at hcounts
    cases hcounts
    exact ⟨slots, rfl, rfl⟩

/-! ## Detectors that never fail -/

/-- The detector fails at no visit of which the slots were counted. -/
def Detector.Infallible (detector : Detector) : Prop :=
  ∀ step state, step.toVisit.Counted → ∃ found after, detector.visit step state = .ok found after

theorem LiteralComparison.infallible : detector.Infallible :=
  fun step state _ => ⟨_, state, visit_eq step state⟩

theorem Boxing.visit_ok (step : Step) (progress : Progress) :
    ∃ found after, visit step progress = .ok found after := by
  rw [visit_eq]
  split
  · exact ⟨_, _, rfl⟩
  · exact ⟨_, _, rfl⟩

theorem Boxing.infallible : detector.Infallible :=
  fun step progress _ => visit_ok step progress

theorem SelfAssignment.infallible : detector.Infallible :=
  fun step progress _ => ⟨_, _, visit_eq step progress⟩

/-- What a constructor call leaves of its object can always be told. -/
theorem DiscardedObject.remainsAt_of_counted {step : Step} (h : step.toVisit.Counted) :
    ∃ remains, remainsAt step = .ok remains := by
  unfold remainsAt constructorCall?
  by_cases hopcode : step.opcode = .invokespecial
  · rw [hopcode, beq_self_eq_true, if_pos rfl]
    cases hcall : step.instruction.call?.filter (·.name == "<init>") with
    | none => exact ⟨none, rfl⟩
    | some site =>
      have heffect : step.instruction.opcode.effect? = some .invoke := by
        rw [show step.instruction.opcode = .invokespecial from hopcode]
        rfl
      obtain ⟨slots, hslots, _⟩ := Instruction.callSlots_of_stackEffect heffect
        (Option.filter_eq_some_iff.1 hcall).1 h
      simp only [Option.map_some, hslots]
      exact ⟨_, rfl⟩
  · rw [if_neg fun heq => hopcode (eq_of_beq heq)]
    exact ⟨none, rfl⟩

theorem DiscardedObject.visit_ok {step : Step} (h : step.toVisit.Counted)
    (pending : Option Survivor) : ∃ found after, visit step pending = .ok found after := by
  obtain ⟨remains, hremains⟩ := remainsAt_of_counted h
  rw [visit_eq, hremains]
  rcases remains with _ | ⟨survivor | _⟩
  · exact ⟨_, _, rfl⟩
  · exact ⟨_, _, rfl⟩
  · exact ⟨_, _, rfl⟩

theorem DiscardedObject.infallible : detector.Infallible :=
  fun _ pending h => visit_ok h pending

theorem MemoryBloat.sizeChange?_eq_some {step : Step} {empties : Bool} {descriptor : String}
    (h : sizeChange? step = some (empties, descriptor)) :
    step.instruction.opcode.effect? = some .invoke ∧
      ∃ site, step.instruction.call? = some site ∧ site.descriptor = descriptor := by
  unfold sizeChange? at h
  split at h
  case isTrue hopcode =>
    obtain ⟨site, hcall, hchange⟩ := Option.bind_eq_some_iff.1 h
    refine ⟨?_, site, hcall, ?_⟩
    · rw [Bool.or_eq_true, beq_iff_eq, beq_iff_eq] at hopcode
      rcases hopcode with hopcode | hopcode
      · rw [show step.instruction.opcode = .invokevirtual from hopcode]
        rfl
      · rw [show step.instruction.opcode = .invokeinterface from hopcode]
        rfl
    · split at hchange
      · cases hchange
        rfl
      · split at hchange
        · cases hchange
          rfl
        · cases hchange
  case isFalse => cases h

theorem MemoryBloat.visit_ok {step : Step} (h : step.toVisit.Counted) (state : State) :
    ∃ found after, visit step state = .ok found after := by
  rw [visit_eq]
  cases hchange : sizeChange? step with
  | none => exact ⟨_, _, rfl⟩
  | some change =>
    obtain ⟨empties, descriptor⟩ := change
    obtain ⟨heffect, site, hcall, rfl⟩ := sizeChange?_eq_some hchange
    obtain ⟨slots, hslots, _⟩ := Instruction.callSlots_of_stackEffect heffect hcall h
    simp only [hslots]
    exact ⟨_, _, rfl⟩

theorem MemoryBloat.infallible : detector.Infallible :=
  fun _ state h => visit_ok h state

theorem infallible_of_mem_catalog {detector : Detector} (h : detector ∈ catalog) :
    detector.Infallible := by
  simp only [catalog, List.mem_cons, List.not_mem_nil, or_false] at h
  rcases h with rfl | rfl | rfl | rfl | rfl
  · exact LiteralComparison.infallible
  · exact Boxing.infallible
  · exact MemoryBloat.infallible
  · exact DiscardedObject.infallible
  · exact SelfAssignment.infallible

/-! ## Attempts that never fail -/

namespace Attempt

theorem visit_diagnostic {attempt : Attempt} {step : Step}
    (h : attempt.pass.detector.Infallible) (hstep : step.toVisit.Counted) :
    (attempt.visit step).2 = none := by
  by_cases hlive : attempt.isLive = true
  · obtain ⟨found, after, hvisit⟩ := h step attempt.pass.state hstep
    rw [visit_of_ok hlive hvisit]
  · rw [visit_of_out (Bool.eq_false_iff.2 hlive)]

theorem visitAll_diagnostics {attempts : List Attempt} {step : Step}
    (h : ∀ attempt ∈ attempts, attempt.pass.detector.Infallible) (hstep : step.toVisit.Counted) :
    (visitAll step attempts).2 = [] := by
  show (attempts.map (visit step)).filterMap _ = []
  rw [List.filterMap_map, List.filterMap_eq_nil_iff]
  exact fun attempt hattempt => visit_diagnostic (h attempt hattempt) hstep

/-- Where no detector fails, the visits of a method give no diagnostic. -/
theorem follow_diagnostics {cls : Class} {method : Method} {visits : List Visit}
    {attempts : List Attempt} (h : ∀ attempt ∈ attempts, attempt.pass.detector.Infallible)
    (hvisits : ∀ visit ∈ visits, visit.Counted) :
    (follow cls method visits attempts).2 = [] := by
  induction visits generalizing attempts with
  | nil => rfl
  | cons visit rest ih =>
    have hfirst : (visitAll { visit with cls, method } attempts).2 = [] :=
      visitAll_diagnostics h (hvisits visit (List.mem_cons_self ..))
    have hrest : (follow cls method rest (visitAll { visit with cls, method } attempts).1).2
        = [] := by
      refine ih (fun attempt hattempt => ?_)
        fun later hlater => hvisits later (List.mem_cons_of_mem _ hlater)
      obtain ⟨old, hold, rfl⟩ : ∃ old ∈ attempts,
          (old.visit { visit with cls, method }).1 = attempt := by
        simpa [visitAll] using hattempt
      rw [visit_detector]
      exact h old hold
    show (visitAll { visit with cls, method } attempts).2 ++
      (follow cls method rest (visitAll { visit with cls, method } attempts).1).2 = []
    rw [hfirst, hrest]
    rfl

end Attempt

theorem Pass.attempt_isLive (pass : Pass) (method : Method) :
    (pass.attempt method).isLive = pass.detector.accepts method method.opcodes := by
  cases haccepts : pass.detector.accepts method method.opcodes with
  | true =>
    rw [attempt_of_accepts haccepts]
    rfl
  | false =>
    rw [attempt_of_rejects haccepts]
    rfl

/-- Passes that never fail tell of a method only the fault of its walk, if any
of them took the method up. -/
theorem analyzeMethod_diagnostics {cls : Class} {passes : List Pass} {method : Method}
    (hpasses : ∀ pass ∈ passes, pass.detector.Infallible) :
    (analyzeMethod cls passes method).2.diagnostics =
      if passes.any (fun pass => pass.detector.accepts method method.opcodes) then
        (method.walk.fault.map (·.diagnostic cls method)).toList
      else
        [] := by
  have hany : (passes.map (·.attempt method)).any Attempt.isLive =
      passes.any fun pass => pass.detector.accepts method method.opcodes := by
    rw [List.any_map]
    exact congrArg passes.any (funext fun pass => pass.attempt_isLive method)
  have hdetectors : ∀ attempt ∈ passes.map (·.attempt method),
      attempt.pass.detector.Infallible := by
    intro attempt hattempt
    obtain ⟨pass, hpass, rfl⟩ := List.mem_map.1 hattempt
    rw [Pass.attempt_detector]
    exact hpasses pass hpass
  unfold analyzeMethod
  rw [← hany]
  by_cases hlive : (passes.map (·.attempt method)).any Attempt.isLive = true
  · rw [if_pos hlive, if_pos hlive]
    simp only [Attempt.follow_diagnostics hdetectors fun _ => Method.counted_of_visit,
      List.nil_append]
  · rw [if_neg hlive, if_neg hlive]
    rfl

end BytecodeLint
