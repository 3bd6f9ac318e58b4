import BytecodeLint.Execution
import BytecodeLint.Proofs.Stack

/-!
# What an instruction does to the slots

`Instruction.apply` is a program on the operand stack.  This module gives
the slots that it leaves behind as a pure function of the slots before it,
`Instruction.slotsAfter`.

`apply_ok` is the main result: an instruction that succeeds found the slots
that it takes, it left the slots that `slotsAfter` says, and it touched
neither the limit nor what jumps have recorded.  So the outcome of an
instruction is a matter of its slots alone, and `apply_slots_unique` says
this for two runs.
-/

namespace BytecodeLint

open OperandStack

/-! ## The slots after an instruction -/

/-- The slots of the result of a call, of which nothing is known. -/
def resultSlots (count : Nat) : List Slot :=
  if count = 0 then [] else valueSlots .unknown count

namespace Instruction

/-- The slots that a call leaves of those below its arguments.  The call of
a constructor uses up the object that it takes. -/
def calledSlots (inst : Instruction) (popped rest : List Slot) : List Slot :=
  if inst.isConstructorCall then
    match popped.getLast?.bind Slot.allocation? with
    | some offset => rest.map (replaced offset .unknown)
    | none => rest
  else
    rest

/-- The slots after an instruction, given how many of them it takes and
puts. -/
def slotsAfter (inst : Instruction) (counts : StackEffect) (slots : List Slot) :
    Effect → List Slot
  | .pushConstant width => valueSlots (.constant inst.literal) width ++ slots
  | .loadLocal width => valueSlots inst.loaded width ++ slots
  | .dup copy under => slots.take (copy + under) ++ slots.take copy ++ slots.drop (copy + under)
  | .swap => exchanged slots
  | .getStatic =>
    match inst.field? with
    | some ref => valueSlots (.value (.field ref true)) counts.pushes ++ slots
    | none => slots
  | .getField =>
    match inst.field? with
    | some ref =>
      let receiver := (slots.head?.map Slot.provenance).getD .unknown
      valueSlots (.value (.fieldOf ref false receiver)) counts.pushes ++ slots.drop 1
    | none => slots
  | .invoke =>
    resultSlots counts.pushes ++
      inst.calledSlots (slots.take counts.pops) (slots.drop counts.pops)
  | .allocate => .fresh inst.offset :: slots
  | .checkCast => slots
  | .replace .. | .putStatic | .putField | .invokeDynamic | .allocateArrays =>
    resultSlots counts.pushes ++ slots.drop counts.pops

end Instruction

/-! ## Operations that succeed -/

section Success

variable {stack after : OperandStack}

private theorem ok_of_ite {α : Type} {p : Prop} [Decidable p]
    {yes no : EStateM.Result StackFault OperandStack α} {value : α}
    (h : (if p then yes else no) = .ok value after)
    (hno : ∀ value after, no ≠ .ok value after) : p ∧ yes = .ok value after := by
  by_cases hp : p
  · rw [if_pos hp] at h
    exact ⟨hp, h⟩
  · rw [if_neg hp] at h
    exact absurd h (hno value after)

private theorem ok_of_guard {α : Type} {p : Prop} [Decidable p]
    {other : EStateM.Result StackFault OperandStack α} {fault : StackFault}
    {failed : OperandStack} {value : α}
    (h : (if p then .error fault failed else other) = .ok value after) :
    ¬ p ∧ other = .ok value after := by
  by_cases hp : p
  · rw [if_pos hp] at h
    cases h
  · rw [if_neg hp] at h
    exact ⟨hp, h⟩

theorem push_ok {slot : Slot} (h : push slot stack = .ok ⟨⟩ after) :
    after = stack.withSlots (slot :: stack.slots) := by
  rw [push_eq] at h
  obtain ⟨_, hok⟩ := ok_of_ite h fun _ _ => by simp
  cases hok
  rfl

theorem pushValue_ok {slot : Slot} {width : Nat}
    (h : pushValue slot width stack = .ok ⟨⟩ after) :
    after = stack.withSlots (valueSlots slot width ++ stack.slots) := by
  rw [pushValue_eq] at h
  obtain ⟨_, hok⟩ := ok_of_ite h fun _ _ => by split <;> simp
  cases hok
  rfl

theorem pushResult_ok {count : Nat} (h : pushResult count stack = .ok ⟨⟩ after) :
    after = stack.withSlots (resultSlots count ++ stack.slots) := by
  unfold pushResult at h
  by_cases hnone : count = 0
  · rw [if_pos hnone] at h
    cases h
    simp [resultSlots, hnone]
  · rw [if_neg hnone] at h
    rw [pushValue_ok h, resultSlots, if_neg hnone]

theorem pop_ok {count : Nat} {popped : List Slot} (h : pop count stack = .ok popped after) :
    count ≤ stack.depth ∧ popped = stack.slots.take count ∧
      after = stack.withSlots (stack.slots.drop count) := by
  rw [pop_eq] at h
  obtain ⟨hdepth, hok⟩ := ok_of_guard h
  cases hok
  exact ⟨Nat.not_lt.1 hdepth, rfl, rfl⟩

theorem dup_ok {copy under : Nat} (h : dup copy under stack = .ok ⟨⟩ after) :
    copy + under ≤ stack.depth ∧
      after = stack.withSlots (stack.slots.take (copy + under) ++ stack.slots.take copy
        ++ stack.slots.drop (copy + under)) := by
  rw [dup_eq] at h
  obtain ⟨hdepth, hroom⟩ := ok_of_guard h
  obtain ⟨_, hok⟩ := ok_of_ite hroom fun _ _ => by simp
  cases hok
  exact ⟨Nat.not_lt.1 hdepth, rfl⟩

theorem swap_ok (h : swap stack = .ok ⟨⟩ after) :
    2 ≤ stack.depth ∧ after = stack.withSlots (exchanged stack.slots) := by
  rw [swap_eq] at h
  obtain ⟨hdepth, hok⟩ := ok_of_guard h
  cases hok
  exact ⟨Nat.not_lt.1 hdepth, rfl⟩

theorem requireDepth_ok {needed : Nat} (h : requireDepth needed stack = .ok ⟨⟩ after) :
    needed ≤ stack.depth ∧ after = stack := by
  rw [requireDepth_eq] at h
  obtain ⟨hdepth, hok⟩ := ok_of_guard h
  cases hok
  exact ⟨Nat.not_lt.1 hdepth, rfl⟩

theorem joinSlots_ok {target : Nat} {incoming recorded joined : List Slot}
    (h : joinSlots target incoming recorded = .ok joined) :
    incoming.length = recorded.length ∧ joined = List.zipWith Slot.join incoming recorded := by
  unfold joinSlots at h
  by_cases hlength : incoming.length = recorded.length
  · rw [if_pos hlength] at h
    cases h
    exact ⟨hlength, rfl⟩
  · rw [if_neg hlength] at h
    cases h

/-- A noted jump stands beside what was recorded for the target before. -/
theorem noteJump_ok {target : Nat} (h : noteJump target stack = .ok ⟨⟩ after) :
    ∃ joined, (match stack.recordedAt? target with
      | none => joined = stack.slots
      | some recorded => joinSlots target stack.slots recorded = .ok joined) ∧
      after = stack.setRecorded target joined := by
  rw [noteJump_eq] at h
  cases hrecorded : stack.recordedAt? target with
  | none =>
    rw [hrecorded] at h
    cases h
    exact ⟨stack.slots, rfl, rfl⟩
  | some recorded =>
    rw [hrecorded] at h
    cases hjoin : joinSlots target stack.slots recorded with
    | error fault =>
      simp only [hjoin] at h
      cases h
    | ok joined =>
      simp only [hjoin] at h
      cases h
      exact ⟨joined, hjoin, rfl⟩

/-- A program that succeeds succeeds in its first action, and then in what
follows it. -/
theorem bind_ok {α β : Type} {action : StackM α} {next : α → StackM β} {value : β}
    (h : (action >>= next) stack = .ok value after) :
    ∃ first middle, action stack = .ok first middle ∧ next first middle = .ok value after := by
  rw [StackM.bind_apply] at h
  cases haction : action stack with
  | ok first middle =>
    rw [haction] at h
    exact ⟨first, middle, rfl, h⟩
  | error fault middle =>
    rw [haction] at h
    cases h

theorem ofExcept_ok {α : Type} {result : Except StackFault α} {value : α}
    (h : (MonadExcept.ofExcept result : StackM α) stack = .ok value after) :
    result = .ok value ∧ after = stack := by
  cases result with
  | ok found =>
    cases h
    exact ⟨rfl, rfl⟩
  | error fault => cases h

end Success

/-! ## Instructions that succeed -/

namespace Instruction

variable {inst : Instruction} {stack after : OperandStack} {counts : StackEffect}

/-- Instructions that only take slots and put a result. -/
private theorem popAndPush_ok
    (h : (do let _ ← pop counts.pops; pushResult counts.pushes : StackM Unit) stack
      = .ok ⟨⟩ after) :
    counts.pops ≤ stack.depth ∧
      after = stack.withSlots (resultSlots counts.pushes ++ stack.slots.drop counts.pops) := by
  obtain ⟨popped, middle, hpop, hpush⟩ := bind_ok h
  obtain ⟨hdepth, _, rfl⟩ := pop_ok hpop
  exact ⟨hdepth, pushResult_ok hpush⟩

private theorem invoke_ok
    (h : inst.perform counts .invoke stack = .ok ⟨⟩ after) :
    counts.pops ≤ stack.depth ∧
      after = stack.withSlots (inst.slotsAfter counts stack.slots .invoke) := by
  obtain ⟨popped, middle, hpop, hcall⟩ := bind_ok h
  obtain ⟨hdepth, rfl, rfl⟩ := pop_ok hpop
  refine ⟨hdepth, ?_⟩
  simp only [slotsAfter, calledSlots]
  by_cases hconstructor : inst.isConstructorCall = true
  · rw [if_pos hconstructor] at hcall ⊢
    cases hobject : (stack.slots.take counts.pops).getLast?.bind Slot.allocation? with
    | none =>
      simp only [hobject] at hcall
      rw [pushResult_ok hcall]
      rfl
    | some offset =>
      simp only [hobject] at hcall
      obtain ⟨_, replacedStack, hreplace, hpush⟩ := bind_ok hcall
      rw [replaceObject_eq] at hreplace
      cases hreplace
      rw [pushResult_ok hpush]
      rfl
  · rw [if_neg hconstructor] at hcall ⊢
    rw [pushResult_ok hcall]
    rfl

theorem perform_ok {effect : Effect} (hcounts : inst.countSlots effect = .ok counts)
    (h : inst.perform counts effect stack = .ok ⟨⟩ after) :
    counts.pops ≤ stack.depth ∧
      after = stack.withSlots (inst.slotsAfter counts stack.slots effect) := by
  cases effect with
  | pushConstant width =>
    cases hcounts
    exact ⟨Nat.zero_le _, pushValue_ok h⟩
  | loadLocal width =>
    cases hcounts
    exact ⟨Nat.zero_le _, pushValue_ok h⟩
  | dup copy under =>
    cases hcounts
    exact dup_ok h
  | swap =>
    cases hcounts
    exact swap_ok h
  | getStatic =>
    simp only [countSlots, accessedSlots] at hcounts
    simp only [perform] at h
    simp only [slotsAfter]
    cases hfield : inst.field? with
    | none =>
      rw [hfield] at h
      cases h
    | some ref =>
      rw [hfield] at hcounts h
      cases hcounts
      exact ⟨Nat.zero_le _, pushValue_ok h⟩
  | getField =>
    simp only [countSlots, accessedSlots] at hcounts
    simp only [perform] at h
    simp only [slotsAfter]
    cases hfield : inst.field? with
    | none =>
      rw [hfield] at h
      cases h
    | some ref =>
      rw [hfield] at hcounts h
      cases hcounts
      obtain ⟨object, middle, hpop, hpush⟩ := bind_ok h
      obtain ⟨hdepth, rfl, rfl⟩ := pop_ok hpop
      refine ⟨hdepth, ?_⟩
      rw [pushValue_ok hpush]
      cases stack.slots <;> rfl
  | invoke => exact invoke_ok h
  | allocate =>
    cases hcounts
    exact ⟨Nat.zero_le _, push_ok h⟩
  | checkCast =>
    cases hcounts
    exact requireDepth_ok h
  | replace pops pushes => exact popAndPush_ok h
  | putStatic => exact popAndPush_ok h
  | putField => exact popAndPush_ok h
  | invokeDynamic => exact popAndPush_ok h
  | allocateArrays => exact popAndPush_ok h

/-- An instruction that succeeds found what it takes, and `slotsAfter` says
what it left. -/
theorem apply_ok (h : inst.apply stack = .ok ⟨⟩ after) :
    ∃ effect counts, inst.opcode.effect? = some effect ∧
      inst.countSlots effect = .ok counts ∧ counts.pops ≤ stack.depth ∧
      after = stack.withSlots (inst.slotsAfter counts stack.slots effect) := by
  obtain ⟨effect, _, hlookup, hrest⟩ := bind_ok h
  obtain ⟨heffect, rfl⟩ := ofExcept_ok hlookup
  obtain ⟨counts, _, hcount, hperform⟩ := bind_ok hrest
  obtain ⟨hcounts, rfl⟩ := ofExcept_ok hcount
  refine ⟨effect, counts, ?_, hcounts, perform_ok hcounts hperform⟩
  unfold Instruction.effect at heffect
  cases hopcode : inst.opcode.effect? with
  | none =>
    rw [hopcode] at heffect
    cases heffect
  | some found =>
    rw [hopcode] at heffect
    cases heffect
    rfl

/-- The outcome of an instruction depends on the slots only. -/
theorem apply_slots_unique {other otherAfter : OperandStack} (hslots : stack.slots = other.slots)
    (h : inst.apply stack = .ok ⟨⟩ after) (hother : inst.apply other = .ok ⟨⟩ otherAfter) :
    after.slots = otherAfter.slots := by
  obtain ⟨effect, counts, heffect, hcounts, _, rfl⟩ := apply_ok h
  obtain ⟨effect', counts', heffect', hcounts', _, rfl⟩ := apply_ok hother
  obtain rfl : effect = effect' := by
    rw [heffect] at heffect'
    cases heffect'
    rfl
  obtain rfl : counts = counts' := by
    rw [hcounts] at hcounts'
    cases hcounts'
    rfl
  simp [hslots]

end Instruction

end BytecodeLint
