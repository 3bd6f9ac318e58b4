import BytecodeLint.Detector.Catalog

/-!
# The visits of the detectors as equations

The visit of a detector is a program that reads and writes the state of the
detector.  This module says for each detector of the catalog what a visit
does to a given state: what it reports, which state it leaves, and when it
fails.  Later proofs use these equations and never open the programs.
-/

namespace BytecodeLint

theorem LiteralComparison.visit_eq (step : Step) (state : Unit) :
    LiteralComparison.detector.visit step state =
      .ok (if callsComparison step && hasLiteralArgument step then
        [step.finding literalArgument none] else []) state := rfl

theorem Boxing.visit_eq (step : Step) (progress : Progress) :
    visit step progress =
      if progress.joins.contains step.offset then
        .ok [] { state := .nothing, joins := progress.joins.filter (· != step.offset) }
      else
        .ok ((progress.state.rule? step.instruction).map (step.finding · none)).toList
          { state := progress.state.advance step
            joins := (progress.state.joinTarget? step).toList ++ progress.joins } := by
  show (if progress.joins.contains step.offset = true then _ else _ :
    EStateM DetectorFault Progress (List Finding)) progress = _
  by_cases hjoin : progress.joins.contains step.offset = true
  · rw [if_pos hjoin, if_pos hjoin]
    rfl
  · rw [if_neg hjoin, if_neg hjoin]
    rfl

/-- A rule is broken by a call of one of three kinds. -/
theorem Boxing.State.rule?_eq_none {inst : Instruction}
    (h : ∀ opcode ∈ [Opcode.invokevirtual, .invokespecial, .invokestatic],
      ∀ p : CallSite → Bool, (inst.opcode == opcode && inst.call?.any p) = false)
    (state : State) : state.rule? inst = none := by
  have hvirtual := h .invokevirtual (by simp)
  have hspecial := h .invokespecial (by simp)
  have hstatic := h .invokestatic (by simp)
  cases state <;>
    simp [rule?, Instruction.isCallTo, unboxes, converts, callsByName, hvirtual, hspecial, hstatic]

theorem SelfAssignment.visit_eq (step : Step) (progress : Progress) :
    visit step progress =
      .ok (((progress.advance step.instruction).2.map fun subject =>
          step.finding selfAssignment (some subject)).toList)
        (progress.advance step.instruction).1 := rfl

/-- A finding is made only where the setter follows the getter. -/
theorem SelfAssignment.Progress.got_of_advance {progress : Progress} {inst : Instruction}
    {subject : Subject} (h : (progress.advance inst).2 = some subject) :
    ∃ bean property valueType, progress = got bean property valueType ∧
      isSetterCall inst property valueType = true ∧ subject = bean.subject := by
  cases progress with
  | got bean property valueType =>
    simp only [advance] at h
    split at h
    · rename_i hsetter
      exact ⟨bean, property, valueType, rfl, hsetter, (Option.some_inj.1 h).symm⟩
    · cases h
  | nothing => cases h
  | loaded index =>
    simp only [advance] at h
    split at h
    · cases h
    · split at h <;> cases h
  | read index field =>
    simp only [advance] at h
    split at h <;> cases h
  | loadedAgain index field second =>
    simp only [advance] at h
    split at h <;> cases h
  | doubled bean =>
    simp only [advance] at h
    split at h <;> cases h

theorem DiscardedObject.visit_eq (step : Step) (pending : Option Survivor) :
    visit step pending = match remainsAt step with
      | .error fault => .error fault (settle step pending).1
      | .ok (some (.copy survivor)) => .ok (settle step pending).2 (some survivor)
      | .ok (some .nothing) =>
        .ok ((settle step pending).2 ++ [step.findingAt discarded step.offset])
          (settle step pending).1
      | .ok none => .ok (settle step pending).2 (settle step pending).1 := by
  unfold visit
  cases remainsAt step with
  | error fault => rfl
  | ok remains =>
    cases remains with
    | none => rfl
    | some found => cases found <;> rfl

namespace MemoryBloat

/-- The state after a call with `params` argument slots that changes the
size of its receiver. -/
def State.noted (state : State) (step : Step) (empties : Bool) (params : Nat) : State :=
  match receiverField? step params with
  | some field =>
    if state.suspects? field then
      { state with
        changes := state.changes ++
          [if empties then .empty field
            else .fill field (step.cls.locate step.method step.offset)] }
    else
      state
  | none => state

theorem visit_eq (step : Step) (state : State) :
    visit step state = match sizeChange? step with
      | none => .ok [] state
      | some (empties, descriptor) => match callSlots descriptor with
        | .error bad => .error ⟨bad.message⟩ state
        | .ok slots => .ok [] (state.noted step empties slots.params) := by
  unfold visit
  cases sizeChange? step with
  | none => rfl
  | some change =>
    obtain ⟨empties, descriptor⟩ := change
    cases hslots : callSlots descriptor with
    | error bad =>
      simp only [hslots]
      rfl
    | ok slots =>
      simp only [State.noted, hslots]
      cases receiverField? step slots.params with
      | none => rfl
      | some field =>
        show (if state.suspects? field = true then _ else _ :
          EStateM DetectorFault State (List Finding)) state = _
        by_cases hsuspects : state.suspects? field = true
        · rw [if_pos hsuspects]
          simp only [if_pos hsuspects]
          rfl
        · rw [if_neg hsuspects]
          simp only [if_neg hsuspects]
          rfl

end MemoryBloat

end BytecodeLint
