import BytecodeLint.Proofs.Infallible
import BytecodeLint.Proofs.Objects

/-!
# The depth of the stack

An instruction that takes and puts the slots of a `StackEffect` changes the
depth by just these numbers.  The walk counts the slots first and changes
the stack by other means, so this has to be proved for every effect.

There are three groups.

* The widths of values.  No value takes more than two slots.
* `Instruction.slotsAfter_of_computes` splits what an instruction leaves into
  the slots that it puts and the slots below.
* `Instruction.length_slotsAfter`, and `Method.Leaves.length` for a visit.
-/

namespace BytecodeLint

open OperandStack

/-! ## Widths -/

/-- The effect puts values of one or two slots. -/
def Effect.Regular : Effect → Prop
  | .pushConstant width | .loadLocal width => width = 1 ∨ width = 2
  | .replace _ pushes => pushes ≤ 2
  | _ => True

instance : DecidablePred Effect.Regular
  | .pushConstant width | .loadLocal width => inferInstanceAs (Decidable (width = 1 ∨ width = 2))
  | .replace _ pushes => inferInstanceAs (Decidable (pushes ≤ 2))
  | .dup .. | .swap | .getStatic | .getField | .putStatic | .putField | .invoke
  | .invokeDynamic | .allocate | .checkCast | .allocateArrays => .isTrue trivial

theorem Effect.regular_of_row : ∀ row ∈ effectTable, ∀ effect ∈ row.cycle, effect.Regular := by
  decide

theorem Opcode.regular_of_effect? {op : Opcode} {effect : Effect}
    (h : op.effect? = some effect) : effect.Regular := by
  obtain ⟨row, hrow, heffect⟩ := Option.bind_eq_some_iff.1 h
  exact Effect.regular_of_row row (List.mem_of_find?_eq_some hrow) effect
    (List.mem_of_getElem? heffect)

theorem TypeDescriptor.slots_le_two (type : TypeDescriptor) : type.slots ≤ 2 := by
  cases type with
  | base type => cases type <;> decide
  | object name => exact Nat.le_succ 1
  | array dimensions element => exact Nat.le_succ 1

theorem result_le_two {descriptor : String} {slots : CallSlots}
    (h : callSlots descriptor = .ok slots) : slots.result ≤ 2 := by
  unfold callSlots at h
  split at h
  · cases h
    exact TypeDescriptor.slots_le_two _
  · cases h

theorem callEffect_pushes {descriptor : String} {receiver : Nat} {counts : StackEffect}
    (h : Instruction.callEffect descriptor receiver = .ok counts) : counts.pushes ≤ 2 := by
  unfold Instruction.callEffect at h
  split at h
  · cases h
    exact result_le_two ‹_›
  · cases h

theorem fieldSlots_eq (descriptor : String) :
    fieldSlots descriptor = 1 ∨ fieldSlots descriptor = 2 := by
  unfold fieldSlots
  split
  · exact Or.inr rfl
  · exact Or.inr rfl
  · exact Or.inl rfl

theorem length_valueSlots (slot : Slot) {width : Nat} (h : width = 1 ∨ width = 2) :
    (valueSlots slot width).length = width := by
  rcases h with rfl | rfl <;> rfl

theorem length_resultSlots {count : Nat} (h : count ≤ 2) : (resultSlots count).length = count := by
  match count, h with
  | 0, _ => rfl
  | 1, _ => rfl
  | 2, _ => rfl

/-! ## Slots that are put -/

/-- None of the slots holds an object that waits for its constructor. -/
def Unallocated (slots : List Slot) : Prop :=
  ∀ slot ∈ slots, slot.allocation? = none

theorem unallocated_valueSlots {slot : Slot} (h : slot.allocation? = none) (width : Nat) :
    Unallocated (valueSlots slot width) := by
  intro member hmember
  unfold valueSlots at hmember
  split at hmember
  · rcases List.mem_cons.1 hmember with rfl | hmember
    · exact h
    · rw [List.mem_singleton.1 hmember]
      rfl
  · rw [List.mem_singleton.1 hmember]
    exact h

theorem unallocated_resultSlots (count : Nat) : Unallocated (resultSlots count) := by
  unfold resultSlots
  split
  · exact fun _ hmember => absurd hmember List.not_mem_nil
  · exact unallocated_valueSlots rfl count

namespace Instruction

variable {inst : Instruction} {counts : StackEffect} {slots : List Slot} {effect : Effect}

/-- The slots that a read of a field puts are counted for a field that is
named. -/
theorem counts_of_read {pops : Nat}
    (h : (do return ⟨pops, ← inst.accessedSlots⟩ : Except StackFault StackEffect) = .ok counts) :
    ∃ ref, inst.field? = some ref ∧ counts = ⟨pops, fieldSlots ref.descriptor⟩ := by
  unfold accessedSlots at h
  cases hfield : inst.field? with
  | none =>
    rw [hfield] at h
    cases h
  | some ref =>
    rw [hfield] at h
    cases h
    exact ⟨ref, rfl, rfl⟩

theorem allocation?_loaded (inst : Instruction) : inst.loaded.allocation? = none := by
  unfold loaded
  split <;> rfl

/-- A call leaves as many slots below its arguments as it found, and no
object is in a place where it was not before. -/
theorem calledSlots_spec (inst : Instruction) (popped rest : List Slot) :
    (inst.calledSlots popped rest).length = rest.length ∧
      ∀ (below offset : Nat), (inst.calledSlots popped rest)[below]? = some (.fresh offset) →
        rest[below]? = some (.fresh offset) := by
  have hkept : rest.length = rest.length ∧ ∀ (below offset : Nat),
      rest[below]? = some (.fresh offset) → rest[below]? = some (.fresh offset) :=
    ⟨rfl, fun _ _ h => h⟩
  unfold calledSlots
  split
  · split
    · refine ⟨List.length_map _, fun below offset h => ?_⟩
      rw [List.getElem?_map] at h
      obtain ⟨old, hold, hreplaced⟩ := Option.map_eq_some_iff.1 h
      unfold replaced at hreplaced
      split at hreplaced
      · cases hreplaced
      · rw [hold, hreplaced]
    · exact hkept
  · exact hkept

/-- An instruction that puts values of its own puts at most one value. -/
theorem pushes_le_two (heffect : inst.opcode.effect? = some effect)
    (hcounts : inst.countSlots effect = .ok counts) (hcomputes : effect.computes = true) :
    counts.pushes ≤ 2 := by
  have hregular := Opcode.regular_of_effect? heffect
  cases effect with
  | pushConstant width =>
    cases hcounts
    have hwidth : width = 1 ∨ width = 2 := hregular
    show width ≤ 2
    omega
  | loadLocal width =>
    cases hcounts
    have hwidth : width = 1 ∨ width = 2 := hregular
    show width ≤ 2
    omega
  | replace pops pushes =>
    cases hcounts
    exact hregular
  | getStatic | getField =>
    obtain ⟨ref, _, rfl⟩ := counts_of_read hcounts
    rcases fieldSlots_eq ref.descriptor with hone | htwo
    · exact Nat.le_trans (Nat.le_of_eq hone) (Nat.le_succ 1)
    · exact Nat.le_of_eq htwo
  | putStatic | putField =>
    simp only [countSlots, bind, Except.bind] at hcounts
    split at hcounts
    · cases hcounts
    · cases hcounts
      exact Nat.zero_le 2
  | invoke | invokeDynamic =>
    simp only [countSlots] at hcounts
    split at hcounts
    · exact callEffect_pushes hcounts
    · cases hcounts
  | allocateArrays =>
    simp only [countSlots] at hcounts
    split at hcounts
    · cases hcounts
      exact Nat.le_succ 1
    · cases hcounts
  | dup | swap | allocate | checkCast => cases hcomputes

/-- What an instruction leaves that puts values of its own: these values,
and the slots below what it takes. -/
theorem slotsAfter_of_computes (heffect : inst.opcode.effect? = some effect)
    (hcounts : inst.countSlots effect = .ok counts) (hcomputes : effect.computes = true)
    (slots : List Slot) :
    ∃ heads rest : List Slot, inst.slotsAfter counts slots effect = heads ++ rest ∧
      heads.length = counts.pushes ∧ Unallocated heads ∧
      rest.length = (slots.drop counts.pops).length ∧
      ∀ (below offset : Nat), rest[below]? = some (.fresh offset) →
        (slots.drop counts.pops)[below]? = some (.fresh offset) := by
  have hregular := Opcode.regular_of_effect? heffect
  have hlength := length_resultSlots (pushes_le_two heffect hcounts hcomputes)
  have hresult :
      ∃ heads rest : List Slot, resultSlots counts.pushes ++ slots.drop counts.pops = heads ++ rest ∧
        heads.length = counts.pushes ∧ Unallocated heads ∧
        rest.length = (slots.drop counts.pops).length ∧
        ∀ (below offset : Nat), rest[below]? = some (.fresh offset) →
          (slots.drop counts.pops)[below]? = some (.fresh offset) :=
    ⟨_, _, rfl, hlength, unallocated_resultSlots _, rfl, fun _ _ h => h⟩
  cases effect with
  | pushConstant width =>
    cases hcounts
    exact ⟨_, slots, rfl, length_valueSlots _ hregular, unallocated_valueSlots rfl _, rfl,
      fun _ _ h => h⟩
  | loadLocal width =>
    cases hcounts
    exact ⟨_, slots, rfl, length_valueSlots _ hregular,
      unallocated_valueSlots inst.allocation?_loaded _, rfl, fun _ _ h => h⟩
  | getStatic =>
    obtain ⟨ref, hfield, rfl⟩ := counts_of_read hcounts
    simp only [slotsAfter, hfield]
    exact ⟨_, slots, rfl, length_valueSlots _ (fieldSlots_eq _), unallocated_valueSlots rfl _,
      rfl, fun _ _ h => h⟩
  | getField =>
    obtain ⟨ref, hfield, rfl⟩ := counts_of_read hcounts
    simp only [slotsAfter, hfield]
    exact ⟨_, slots.drop 1, rfl, length_valueSlots _ (fieldSlots_eq _),
      unallocated_valueSlots rfl _, rfl, fun _ _ h => h⟩
  | invoke =>
    obtain ⟨hrest, hfresh⟩ :=
      inst.calledSlots_spec (slots.take counts.pops) (slots.drop counts.pops)
    exact ⟨_, _, rfl, hlength, unallocated_resultSlots _, hrest, hfresh⟩
  | replace | putStatic | putField | invokeDynamic | allocateArrays => exact hresult
  | dup | swap | allocate | checkCast => cases hcomputes

/-! ## Depths -/

theorem length_slotsAfter (heffect : inst.opcode.effect? = some effect)
    (hcounts : inst.countSlots effect = .ok counts) (hdepth : counts.pops ≤ slots.length) :
    (inst.slotsAfter counts slots effect).length = slots.length - counts.pops + counts.pushes := by
  by_cases hcomputes : effect.computes = true
  · obtain ⟨heads, rest, hafter, hheads, _, hrest, _⟩ :=
      slotsAfter_of_computes heffect hcounts hcomputes slots
    rw [hafter, List.length_append, hheads, hrest, List.length_drop, Nat.add_comm]
  · cases effect with
    | dup copy under =>
      cases hcounts
      have hcopy : copy ≤ slots.length := Nat.le_of_add_right_le hdepth
      simp only [slotsAfter, List.length_append, List.length_take_of_le hdepth,
        List.length_take_of_le hcopy, List.length_drop]
      have hboth : copy + under ≤ slots.length := hdepth
      omega
    | swap =>
      cases hcounts
      obtain ⟨first, second, rest, rfl⟩ : ∃ first second rest, slots = first :: second :: rest := by
        have htwo : 2 ≤ slots.length := hdepth
        rcases slots with _ | ⟨first, _ | ⟨second, rest⟩⟩
        · cases htwo
        · exact absurd htwo (by simp)
        · exact ⟨first, second, rest, rfl⟩
      rfl
    | allocate =>
      cases hcounts
      rfl
    | checkCast =>
      cases hcounts
      exact (Nat.sub_add_cancel hdepth).symm
    | _ => exact absurd rfl hcomputes

end Instruction

/-- The depth of the stack that a visit leaves. -/
theorem Method.Leaves.length {method : Method} {visit : Visit} {slots : List Slot}
    (h : method.Leaves visit slots) (hcounted : visit.Counted) :
    visit.effect.pops ≤ visit.slots.length ∧
      slots.length = visit.slots.length - visit.effect.pops + visit.effect.pushes := by
  obtain ⟨stack, after, hslots, _, happly, rfl⟩ := h
  obtain ⟨effect, counts, heffect, hcounts, hdepth, rfl⟩ := Instruction.apply_ok happly
  obtain ⟨effect', heffect', hcounts'⟩ := Instruction.stackEffect_ok hcounted
  cases heffect.symm.trans heffect'
  cases hcounts.symm.trans hcounts'
  rw [← hslots]
  exact ⟨hdepth, Instruction.length_slotsAfter heffect hcounts hdepth⟩

end BytecodeLint
