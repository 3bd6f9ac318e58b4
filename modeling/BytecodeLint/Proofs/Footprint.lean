import BytecodeLint.Proofs.Depth

/-!
# What an instruction needs

An instruction whose slots are counted needs two things: the slots that it
takes have to be on the stack, and what it leaves has to fit under the
limit.  These are the only reasons for which it can fail, and if it fails
for the first of them, then the stack is as before.

There are three groups.

* `OperandStack.Puts`, for an operation that only puts slots.
* `OperandStack.Accords`, for an operation that takes slots and puts others.
* `Instruction.apply_accords` says it of every instruction.
-/

namespace BytecodeLint

namespace OperandStack

/-! ## Operations that put slots -/

/-- What putting `count` slots makes of the stack: it succeeds if they fit,
and overflows if they do not. -/
inductive Puts (stack : OperandStack) (count : Nat) :
    EStateM.Result StackFault OperandStack Unit → Prop
  | done {after} (fits : stack.Fits (stack.depth + count)) : Puts stack count (.ok ⟨⟩ after)
  | overflow {failed} (crowded : ¬ stack.Fits (stack.depth + count)) :
      Puts stack count (.error stack.full failed)

variable {stack : OperandStack}

theorem puts_push (slot : Slot) : stack.Puts 1 (push slot stack) := by
  rw [push_eq]
  split
  · exact .done ‹_›
  · exact .overflow ‹_›

theorem puts_pushValue (slot : Slot) {width : Nat} (h : width = 1 ∨ width = 2) :
    stack.Puts width (pushValue slot width stack) := by
  rw [pushValue_eq, length_valueSlots slot h]
  split
  · exact .done ‹_›
  · split
    · exact .overflow ‹_›
    · exact .overflow ‹_›

/-- A result that takes no slot puts none, so the stack has to fit as it
is. -/
theorem puts_pushResult {count : Nat} (h : count ≤ 2) (hfits : stack.Fits stack.depth) :
    stack.Puts count (pushResult count stack) := by
  unfold pushResult
  by_cases hnone : count = 0
  · rw [if_pos hnone, hnone]
    exact .done hfits
  · rw [if_neg hnone]
    exact puts_pushValue .unknown (by omega)

/-- How many slots fit on a stack is a matter of its depth. -/
theorem Puts.congr {slots others : List Slot} {count : Nat}
    {result : EStateM.Result StackFault OperandStack Unit}
    (h : (stack.withSlots slots).Puts count result) (hlength : slots.length = others.length) :
    (stack.withSlots others).Puts count result := by
  have hdepth : (stack.withSlots slots).depth = (stack.withSlots others).depth := hlength
  cases h with
  | done fits => exact .done (hdepth ▸ fits)
  | overflow crowded => exact .overflow (hdepth ▸ crowded)

/-! ## Operations that take slots and put others -/

/-- What an operation makes of the stack that takes and puts the slots of
`counts`: it succeeds if they are there and what it leaves fits, and it
underflows or overflows if not. -/
inductive Accords (stack : OperandStack) (counts : StackEffect) :
    EStateM.Result StackFault OperandStack Unit → Prop
  | done {after} (deep : counts.pops ≤ stack.depth)
      (fits : stack.Fits (stack.depth - counts.pops + counts.pushes)) :
      Accords stack counts (.ok ⟨⟩ after)
  | underflow (short : stack.depth < counts.pops) :
      Accords stack counts (.error (.underflow counts.pops stack.depth) stack)
  | overflow {failed} (deep : counts.pops ≤ stack.depth)
      (crowded : ¬ stack.Fits (stack.depth - counts.pops + counts.pushes)) :
      Accords stack counts (.error stack.full failed)

variable {counts : StackEffect} {result : EStateM.Result StackFault OperandStack Unit}

/-- The slots are taken first, and then the others are put. -/
theorem Puts.accords {rest : List Slot} (h : (stack.withSlots rest).Puts counts.pushes result)
    (hdeep : counts.pops ≤ stack.depth) (hrest : rest.length = stack.depth - counts.pops) :
    stack.Accords counts result := by
  have hdepth : (stack.withSlots rest).depth = stack.depth - counts.pops := hrest
  cases h with
  | done fits => exact .done hdeep (hdepth ▸ fits)
  | overflow crowded => exact .overflow hdeep (hdepth ▸ crowded)

theorem accords_pop {next : List Slot → StackM Unit}
    (h : counts.pops ≤ stack.depth →
      (stack.withSlots (stack.slots.drop counts.pops)).Puts counts.pushes
        (next (stack.slots.take counts.pops) (stack.withSlots (stack.slots.drop counts.pops)))) :
    stack.Accords counts ((pop counts.pops >>= next) stack) := by
  rw [StackM.bind_apply, pop_eq]
  by_cases hshort : stack.depth < counts.pops
  · rw [if_pos hshort]
    exact .underflow hshort
  · rw [if_neg hshort]
    have hdeep := Nat.not_lt.1 hshort
    exact (h hdeep).accords hdeep (List.length_drop ..)

/-- An operation that only rearranges slots needs no room. -/
theorem accords_guard {needed : Nat} {after : OperandStack} (hfits : stack.Fits stack.depth) :
    stack.Accords ⟨needed, needed⟩
      (if stack.depth < needed then .error (.underflow needed stack.depth) stack
        else .ok ⟨⟩ after) := by
  by_cases hshort : stack.depth < needed
  · rw [if_pos hshort]
    exact .underflow hshort
  · rw [if_neg hshort]
    have hdeep := Nat.not_lt.1 hshort
    refine .done hdeep ?_
    rwa [Nat.sub_add_cancel hdeep]

theorem accords_dup (copy under : Nat) :
    stack.Accords ⟨copy + under, copy * 2 + under⟩ (dup copy under stack) := by
  rw [dup_eq]
  by_cases hshort : stack.depth < copy + under
  · rw [if_pos hshort]
    exact .underflow hshort
  · rw [if_neg hshort]
    have hdeep := Nat.not_lt.1 hshort
    have hafter : stack.depth - (copy + under) + (copy * 2 + under) = stack.depth + copy := by
      omega
    split
    · exact .done hdeep (hafter ▸ ‹_›)
    · exact .overflow hdeep (hafter ▸ ‹_›)

theorem Accords.isOk_iff (h : stack.Accords counts result) :
    (∃ after, result = .ok ⟨⟩ after) ↔
      counts.pops ≤ stack.depth ∧ stack.Fits (stack.depth - counts.pops + counts.pushes) := by
  cases h with
  | done deep fits => exact ⟨fun _ => ⟨deep, fits⟩, fun _ => ⟨_, rfl⟩⟩
  | underflow short => exact ⟨nofun, fun h => absurd h.1 (Nat.not_le.2 short)⟩
  | overflow _ crowded => exact ⟨nofun, fun h => absurd h.2 crowded⟩

end OperandStack

/-! ## Instructions -/

namespace Instruction

open OperandStack

variable {inst : Instruction} {stack : OperandStack} {counts : StackEffect} {effect : Effect}

/-- Instructions that only take slots and put a result. -/
private theorem popAndPush_accords (hpushes : counts.pushes ≤ 2)
    (hfits : stack.Fits stack.depth) :
    stack.Accords counts
      ((do let _ ← pop counts.pops; pushResult counts.pushes : StackM Unit) stack) := by
  refine accords_pop fun hdeep => puts_pushResult hpushes ?_
  exact hfits.mono (by rw [withSlots_depth, List.length_drop]; exact Nat.sub_le ..)

private theorem invoke_accords (hpushes : counts.pushes ≤ 2) (hfits : stack.Fits stack.depth) :
    stack.Accords counts (inst.perform counts .invoke stack) := by
  refine accords_pop fun hdeep => ?_
  have hputs : ∀ rest : List Slot, rest.length = (stack.slots.drop counts.pops).length →
      (stack.withSlots (stack.slots.drop counts.pops)).Puts counts.pushes
        (pushResult counts.pushes (stack.withSlots rest)) := by
    intro rest hrest
    refine Puts.congr (puts_pushResult hpushes (hfits.mono ?_)) hrest
    rw [withSlots_depth, hrest, List.length_drop]
    exact Nat.sub_le ..
  -- The call of a constructor changes slots before it puts its result, but not their number.
  by_cases hconstructor : inst.isConstructorCall = true
  · rw [if_pos hconstructor]
    cases hobject : (stack.slots.take counts.pops).getLast?.bind Slot.allocation? with
    | none => exact hputs _ rfl
    | some offset => exact hputs _ (List.length_map _)
  · rw [if_neg hconstructor]
    exact hputs _ rfl

/-- Every effect takes and puts the slots that were counted for it. -/
theorem perform_accords (heffect : inst.opcode.effect? = some effect)
    (hcounts : inst.countSlots effect = .ok counts) (hfits : stack.Fits stack.depth) :
    stack.Accords counts (inst.perform counts effect stack) := by
  have hregular := Opcode.regular_of_effect? heffect
  have hshort : effect.computes = true → counts.pushes ≤ 2 := pushes_le_two heffect hcounts
  cases effect with
  | pushConstant width =>
    cases hcounts
    exact (puts_pushValue _ hregular).accords (Nat.zero_le _) rfl
  | loadLocal width =>
    cases hcounts
    exact (puts_pushValue _ hregular).accords (Nat.zero_le _) rfl
  | dup copy under =>
    cases hcounts
    exact accords_dup copy under
  | swap =>
    cases hcounts
    show stack.Accords _ (OperandStack.swap stack)
    rw [swap_eq]
    exact accords_guard hfits
  | getStatic =>
    obtain ⟨ref, hfield, rfl⟩ := counts_of_read hcounts
    simp only [perform, hfield]
    exact (puts_pushValue _ (fieldSlots_eq _)).accords (Nat.zero_le _) rfl
  | getField =>
    obtain ⟨ref, hfield, rfl⟩ := counts_of_read hcounts
    simp only [perform, hfield]
    exact accords_pop fun _ => puts_pushValue _ (fieldSlots_eq _)
  | invoke => exact invoke_accords (hshort rfl) hfits
  | allocate =>
    cases hcounts
    exact (puts_push _).accords (Nat.zero_le _) rfl
  | checkCast =>
    cases hcounts
    show stack.Accords _ (requireDepth 1 stack)
    rw [requireDepth_eq]
    exact accords_guard hfits
  | replace | putStatic | putField | invokeDynamic | allocateArrays =>
    exact popAndPush_accords (hshort rfl) hfits

/-- An instruction whose slots are counted succeeds exactly if they are there
and what it leaves fits. -/
theorem apply_accords (hcounts : inst.stackEffect = .ok counts)
    (hfits : stack.Fits stack.depth) : stack.Accords counts (inst.apply stack) := by
  obtain ⟨effect, heffect, hcounts⟩ := stackEffect_ok hcounts
  have happly : inst.apply stack = inst.perform counts effect stack := by
    simp only [apply, Instruction.effect, heffect, StackM.bind_apply, StackM.ofExcept_ok, hcounts]
  rw [happly]
  exact perform_accords heffect hcounts hfits

/-- Whether an instruction succeeds is a matter of the slots and the limit. -/
theorem apply_ok_congr {other after : OperandStack} (hslots : other.slots = stack.slots)
    (hlimit : other.limit = stack.limit) (hfits : stack.Fits stack.depth)
    (h : inst.apply other = .ok ⟨⟩ after) : ∃ after, inst.apply stack = .ok ⟨⟩ after := by
  obtain ⟨effect, counts, heffect, hcounts, _⟩ := apply_ok h
  have hcounted := stackEffect_of_effect? heffect hcounts
  have hdepth : other.depth = stack.depth := congrArg List.length hslots
  have hsame : ∀ depth, stack.Fits depth ↔ other.Fits depth := fun depth => by
    unfold OperandStack.Fits
    rw [hlimit]
  have hother : other.Fits other.depth := by
    rw [hdepth]
    exact (hsame _).1 hfits
  obtain ⟨hdeep, hroom⟩ := (apply_accords hcounted hother).isOk_iff.1 ⟨after, h⟩
  rw [hdepth] at hdeep hroom
  exact (apply_accords hcounted hfits).isOk_iff.2 ⟨hdeep, (hsame _).2 hroom⟩

end Instruction

end BytecodeLint
