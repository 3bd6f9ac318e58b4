import BytecodeLint.Proofs.Course
import BytecodeLint.Proofs.Layout

/-!
# Execution conforms to the count

The slots that an instruction takes and puts are counted from its opcode and
its operand.  Its execution changes the stack by other means: it checks, takes
and puts step by step, and some of these steps come before the check that
fails.  This module compares the two on every stack that calls of the
operations lead to, calls that fail included.

There are three groups.

* `StackM.Confined`: no operation takes a stack beyond its limit, not even
  where it fails.  `StackCall.reached` is the stack after any calls.
* What lies below the slots that an instruction takes stays there, but for the
  copies of an object whose constructor is called.  `Instruction.Conforms`
  says this of two stacks.
* `apply_conforms` is the result.
-/

namespace BytecodeLint

open OperandStack

/-! ## Stacks within their limit -/

namespace StackM

/-- The stack that a program has left, whether it failed or not. -/
def left {α : Type} : EStateM.Result StackFault OperandStack α → OperandStack
  | .ok _ after => after
  | .error _ failed => failed

/-- The program keeps every stack within its limit, and the limit as it is. -/
def Confined {α : Type} (program : StackM α) : Prop :=
  ∀ stack, stack.Bounded →
    (left (program stack)).Bounded ∧ (left (program stack)).limit = stack.limit

namespace Confined

variable {α β : Type}

theorem pure (value : α) : Confined (pure value) :=
  fun _ h => ⟨h, rfl⟩

theorem throw (fault : StackFault) : Confined (throw fault : StackM α) :=
  fun _ h => ⟨h, rfl⟩

theorem bind {program : StackM α} {next : α → StackM β} (h : Confined program)
    (hnext : ∀ value, Confined (next value)) : Confined (program >>= next) := by
  intro stack hbounded
  have hfirst := h stack hbounded
  rw [bind_apply]
  cases hprogram : program stack with
  | error fault failed =>
    rw [hprogram] at hfirst
    exact hfirst
  | ok value after =>
    rw [hprogram] at hfirst
    obtain ⟨hafter, hlimit⟩ := hfirst
    obtain ⟨hlast, hsame⟩ := hnext value after hafter
    exact ⟨hlast, hsame.trans hlimit⟩

theorem ofExcept (result : Except StackFault α) :
    Confined (MonadExcept.ofExcept result : StackM α) := by
  cases result with
  | ok value => exact pure value
  | error fault => exact throw fault

/-! ### The operations on slots -/

theorem requireDepth (needed : Nat) : Confined (requireDepth needed) := by
  intro stack h
  rw [requireDepth_eq]
  split
  · exact ⟨h, rfl⟩
  · exact ⟨h, rfl⟩

theorem push (slot : Slot) : Confined (push slot) := by
  intro stack h
  rw [push_eq]
  split
  · exact ⟨h.withSlots ‹_›, rfl⟩
  · exact ⟨h, rfl⟩

/-- Where a wide value overflows, its lower half may stay, and it fits. -/
theorem pushValue (slot : Slot) (width : Nat) : Confined (pushValue slot width) := by
  unfold OperandStack.pushValue
  split
  · exact (push .continuation).bind fun _ => push slot
  · exact (pure ()).bind fun _ => push slot

theorem pushResult (count : Nat) : Confined (pushResult count) := by
  unfold BytecodeLint.pushResult
  split
  · exact pure ()
  · exact pushValue .unknown count

theorem pop (count : Nat) : Confined (pop count) := by
  intro stack h
  rw [pop_eq]
  split
  · exact ⟨h, rfl⟩
  · refine ⟨h.withSlots (h.current.mono ?_), rfl⟩
    rw [List.length_drop]
    exact Nat.sub_le ..

theorem dup (copy under : Nat) : Confined (dup copy under) := by
  intro stack h
  rw [dup_eq]
  split
  · exact ⟨h, rfl⟩
  · split
    · refine ⟨h.withSlots ?_, rfl⟩
      have hlength : (stack.slots.take (copy + under) ++ stack.slots.take copy ++
          stack.slots.drop (copy + under)).length = stack.depth + copy := by
        have hdeep : copy + under ≤ stack.slots.length := Nat.not_lt.1 ‹_›
        simp only [List.length_append, List.length_take, List.length_drop, depth]
        omega
      rwa [hlength]
    · exact ⟨h, rfl⟩

theorem swap : Confined swap := by
  intro stack h
  rw [swap_eq]
  split
  · exact ⟨h, rfl⟩
  · refine ⟨h.withSlots ?_, rfl⟩
    have hlength : (exchanged stack.slots).length = stack.depth := by
      unfold exchanged depth
      split
      · simp [*]
      · rfl
    rw [hlength]
    exact h.current

theorem replaceObject (offset : Nat) (slot : Slot) : Confined (replaceObject offset slot) := by
  intro stack h
  rw [replaceObject_eq]
  refine ⟨h.withSlots ?_, rfl⟩
  rw [List.length_map]
  exact h.current

theorem forget : Confined forget := by
  intro stack h
  rw [forget_eq]
  refine ⟨h.withSlots ?_, rfl⟩
  rw [List.length_map]
  exact h.current

/-! ### Control flow and execution -/

theorem noteJump (target : Nat) : Confined (noteJump target) := by
  intro stack h
  cases hnote : OperandStack.noteJump target stack with
  | ok value after =>
    obtain ⟨joined, rfl, _⟩ := length_of_noteJump hnote
    exact ⟨h.noteJump hnote, rfl⟩
  | error fault failed =>
    -- Stacks that do not meet are left as they are.
    have hfailed : failed = stack := by
      rw [noteJump_eq] at hnote
      split at hnote
      · cases hnote
      · split at hnote
        · cases hnote
        · cases hnote
          rfl
    rw [hfailed]
    exact ⟨h, rfl⟩

theorem enter (offset : Nat) (fallsThrough isHandler : Bool) :
    Confined (enter offset fallsThrough isHandler) := by
  intro stack h
  have hdropped := h.dropRecorded offset
  rw [enter_eq]
  split
  · split
    · exact ⟨hdropped.withSlots ‹_›, rfl⟩
    · exact ⟨hdropped.withSlots (hdropped.current.mono (Nat.zero_le _)), rfl⟩
  · split
    · exact ⟨hdropped.withSlots (h.arriving ‹_›), rfl⟩
    · exact ⟨hdropped, rfl⟩

theorem perform (inst : Instruction) (counts : StackEffect) (effect : Effect) :
    Confined (inst.perform counts effect) := by
  have hpopAndPush :
      Confined (do let _ ← OperandStack.pop counts.pops; BytecodeLint.pushResult counts.pushes) :=
    (pop counts.pops).bind fun _ => pushResult counts.pushes
  cases effect with
  | pushConstant width => exact pushValue _ width
  | loadLocal width => exact pushValue _ width
  | dup copy under => exact dup copy under
  | swap => exact swap
  | getStatic =>
    simp only [Instruction.perform]
    split
    · exact pushValue _ _
    · exact throw _
  | getField =>
    simp only [Instruction.perform]
    split
    · exact (pop 1).bind fun _ => pushValue _ _
    · exact throw _
  | invoke =>
    refine (pop counts.pops).bind fun popped => ?_
    split
    · split
      · exact (replaceObject _ .unknown).bind fun _ => pushResult _
      · exact (pure ()).bind fun _ => pushResult _
    · exact (pure ()).bind fun _ => pushResult _
  | allocate => exact push _
  | checkCast => exact requireDepth 1
  | replace | putStatic | putField | invokeDynamic | allocateArrays => exact hpopAndPush

theorem apply (inst : Instruction) : Confined inst.apply :=
  (ofExcept _).bind fun _ => (ofExcept _).bind fun _ => perform inst _ _

end Confined

end StackM

namespace StackCall

theorem confined (call : StackCall) : StackM.Confined call.run := by
  cases call with
  | apply inst => exact .apply inst
  | pushValue slot slots => exact .pushValue slot slots
  | pop count => exact (StackM.Confined.pop count).bind fun _ => .pure ()
  | dup copy under => exact .dup copy under
  | swap => exact .swap
  | replaceObject offset slot => exact .replaceObject offset slot
  | forget => exact .forget
  | noteJump target => exact .noteJump target
  | enter offset fallsThrough isHandler => exact .enter offset fallsThrough isHandler

/-- The stack after the calls, made one after another from an empty stack on,
whether they succeed or not. -/
def reached (limit : Option Nat) (calls : List StackCall) : OperandStack :=
  calls.foldl (fun stack call => StackM.left (call.run stack)) (.empty limit)

theorem bounded_reached (limit : Option Nat) (calls : List StackCall) :
    (reached limit calls).Bounded ∧ (reached limit calls).limit = limit := by
  suffices hrun : ∀ stack : OperandStack, stack.Bounded → stack.limit = limit →
      let last := calls.foldl (fun stack call => StackM.left (call.run stack)) stack
      last.Bounded ∧ last.limit = limit from hrun _ (.empty limit) rfl
  induction calls with
  | nil => exact fun stack hbounded hlimit => ⟨hbounded, hlimit⟩
  | cons call rest ih =>
    intro stack hbounded hlimit
    obtain ⟨hafter, hsame⟩ := call.confined stack hbounded
    exact ih _ hafter (hsame.trans hlimit)

end StackCall

/-! ## Below what is taken -/

namespace Instruction

variable {inst : Instruction} {stack : OperandStack} {counts : StackEffect} {slots : List Slot}
  {effect : Effect}

/-- The instruction calls a constructor on the object that was allocated at
`offset`.  The object lies below the arguments. -/
def UsesUp (inst : Instruction) (slots : List Slot) (offset : Nat) : Prop :=
  inst.opcode.effect? = some .invoke ∧ ∃ site widths, inst.call? = some site ∧
    site.kind = .special ∧ site.name = "<init>" ∧ callSlots site.descriptor = .ok widths ∧
    slots[widths.params]? = some (.fresh offset)

/-- The instruction takes and puts the slots of `counts`.  What lies below them
stays, except that an object is used up by the call of its constructor. -/
structure Conforms (inst : Instruction) (counts : StackEffect) (stack after : OperandStack) :
    Prop where
  depth : after.depth = stack.depth - counts.pops + counts.pushes
  kept : ∀ below : Nat,
    (∀ offset, inst.UsesUp stack.slots offset →
      stack.slots[counts.pops + below]? ≠ some (.fresh offset)) →
    after.slots[counts.pushes + below]? = stack.slots[counts.pops + below]?
  usedUp : ∀ below offset : Nat, inst.UsesUp stack.slots offset →
    stack.slots[counts.pops + below]? = some (.fresh offset) →
    after.slots[counts.pushes + below]? = some .unknown
  recorded : after.recorded = stack.recorded
  limit : after.limit = stack.limit

/-- What an instruction leaves below the slots that it puts. -/
theorem drop_slotsAfter (heffect : inst.opcode.effect? = some effect)
    (hcounts : inst.countSlots effect = .ok counts) (hdeep : counts.pops ≤ slots.length) :
    (inst.slotsAfter counts slots effect).drop counts.pushes =
      if effect = .invoke then
        inst.calledSlots (slots.take counts.pops) (slots.drop counts.pops)
      else
        slots.drop counts.pops := by
  have hregular := Opcode.regular_of_effect? heffect
  have hresult (hcomputes : effect.computes = true) (rest : List Slot) :
      (resultSlots counts.pushes ++ rest).drop counts.pushes = rest :=
    List.drop_left' (length_resultSlots (pushes_le_two heffect hcounts hcomputes))
  cases effect with
  | pushConstant width =>
    cases hcounts
    exact List.drop_left' (length_valueSlots _ hregular)
  | loadLocal width =>
    cases hcounts
    exact List.drop_left' (length_valueSlots _ hregular)
  | dup copy under =>
    cases hcounts
    refine List.drop_left' ?_
    have hboth : copy + under ≤ slots.length := hdeep
    rw [List.length_append, List.length_take_of_le hboth, List.length_take_of_le (by omega)]
    show copy + under + copy = copy * 2 + under
    omega
  | swap =>
    cases hcounts
    match slots with
    | first :: second :: rest => rfl
    | [_] => rfl
    | [] => rfl
  | getStatic =>
    obtain ⟨ref, hfield, rfl⟩ := counts_of_read hcounts
    simp only [slotsAfter, hfield]
    exact List.drop_left' (length_valueSlots _ (fieldSlots_eq _))
  | getField =>
    obtain ⟨ref, hfield, rfl⟩ := counts_of_read hcounts
    simp only [slotsAfter, hfield]
    exact List.drop_left' (length_valueSlots _ (fieldSlots_eq _))
  | invoke => exact hresult rfl _
  | allocate =>
    cases hcounts
    rfl
  | checkCast =>
    cases hcounts
    rfl
  | replace | putStatic | putField | invokeDynamic | allocateArrays => exact hresult rfl _

/-- The call of a constructor finds its object as the last of what it takes. -/
theorem usesUp_iff (heffect : inst.opcode.effect? = some .invoke)
    (hcounts : inst.countSlots .invoke = .ok counts) (hdeep : counts.pops ≤ slots.length)
    {offset : Nat} :
    inst.UsesUp slots offset ↔ inst.isConstructorCall = true ∧
      (slots.take counts.pops).getLast?.bind Slot.allocation? = some offset := by
  have hcounted := stackEffect_of_effect? heffect hcounts
  have hlast (params : Nat) (hpops : counts.pops = params + 1) :
      (slots.take counts.pops).getLast? = slots[params]? := by
    have hbound : params < slots.length := by omega
    rw [hpops, List.getLast?_take, if_neg (Nat.succ_ne_zero params), Nat.add_sub_cancel,
      List.getElem?_eq_getElem hbound, Option.some_or]
  constructor
  · rintro ⟨_, site, widths, hcall, hkind, hname, hwidths, hobject⟩
    obtain ⟨widths', hwidths', rfl⟩ := callSlots_of_stackEffect heffect hcall hcounted
    cases hwidths.symm.trans hwidths'
    refine ⟨by simp [isConstructorCall, hcall, hkind, hname], ?_⟩
    rw [hlast widths.params (by rw [hkind]; rfl), hobject]
    rfl
  · rintro ⟨hconstructor, hobject⟩
    obtain ⟨site, hcall, hsite⟩ := (Option.any_eq_true _ _).1 hconstructor
    simp only [Bool.and_eq_true, beq_iff_eq] at hsite
    obtain ⟨widths, hwidths, rfl⟩ := callSlots_of_stackEffect heffect hcall hcounted
    rw [hlast widths.params (by rw [hsite.1]; rfl)] at hobject
    obtain ⟨slot, hslot, hallocation⟩ := Option.bind_eq_some_iff.1 hobject
    refine ⟨heffect, site, widths, hcall, hsite.1, hsite.2, hwidths, ?_⟩
    cases slot with
    | fresh found =>
      cases hallocation
      exact hslot
    | _ => cases hallocation

/-- An instruction that succeeds conforms to its count. -/
theorem conforms_of_apply {after : OperandStack} (hcounted : inst.stackEffect = .ok counts)
    (happly : inst.apply stack = .ok ⟨⟩ after) : inst.Conforms counts stack after := by
  obtain ⟨effect, counts', heffect, hcounts, hdeep, rfl⟩ := apply_ok happly
  cases (stackEffect_of_effect? heffect hcounts).symm.trans hcounted
  have hbelow (below : Nat) :
      (inst.slotsAfter counts stack.slots effect)[counts.pushes + below]? =
        (if effect = .invoke then
          inst.calledSlots (stack.slots.take counts.pops) (stack.slots.drop counts.pops)
        else
          stack.slots.drop counts.pops)[below]? := by
    rw [← drop_slotsAfter heffect hcounts hdeep, List.getElem?_drop]
  refine ⟨length_slotsAfter heffect hcounts hdeep, ?kept, ?usedUp, rfl, rfl⟩
  case kept =>
    intro below hothers
    rw [withSlots_slots, hbelow, ← List.getElem?_drop]
    split
    · rename_i hinvoke
      subst hinvoke
      unfold calledSlots
      split
      · rename_i hconstructor
        split
        · rename_i offset hobject
          have hother := hothers offset ((usesUp_iff heffect hcounts hdeep).2
            ⟨hconstructor, hobject⟩)
          rw [← List.getElem?_drop] at hother
          rw [List.getElem?_map]
          cases hslot : (stack.slots.drop counts.pops)[below]? with
          | none => rfl
          | some slot =>
            rw [hslot] at hother
            refine congrArg some (if_neg fun hallocation => hother (congrArg some ?_))
            exact Slot.eq_fresh_of_allocation? hallocation
        · rfl
      · rfl
    · rfl
  case usedUp =>
    intro below offset husesUp hslot
    obtain rfl : effect = .invoke := Option.some_inj.1 (heffect.symm.trans husesUp.1)
    obtain ⟨hconstructor, hobject⟩ := (usesUp_iff heffect hcounts hdeep).1 husesUp
    rw [← List.getElem?_drop] at hslot
    rw [withSlots_slots, hbelow, if_pos rfl, calledSlots, if_pos hconstructor]
    simp only [hobject, List.getElem?_map, hslot, Option.map_some]
    exact congrArg some (if_pos rfl)

/-- An instruction whose slots cannot be counted fails for the same reason. -/
theorem apply_of_uncounted {fault : StackFault} (h : inst.stackEffect = .error fault) :
    inst.apply stack = .error fault stack := by
  unfold stackEffect at h
  unfold apply
  cases heffect : inst.effect with
  | error raised =>
    rw [heffect] at h
    cases h
    rfl
  | ok effect =>
    rw [heffect] at h
    have hcounts : inst.countSlots effect = .error fault := h
    simp only [StackM.bind_apply, StackM.ofExcept_ok, hcounts]
    rfl

end Instruction

/-! ## Execution -/

/-- After any calls from an empty stack on, no stack exceeds the limit.  On such
a stack the execution of an instruction conforms to its count.

* It fails for the reason for which the slots cannot be counted.
* It underflows, with the counted slots and the depth, if it takes more slots
  than there are.
* It succeeds if what it leaves fits, and then it takes and puts what was
  counted.
* It overflows if not, which is the only fault that may change the stack. -/
theorem apply_conforms (limit : Option Nat) (calls : List StackCall) (inst : Instruction) :
    let stack := StackCall.reached limit calls
    (∀ most, limit = some most →
      stack.depth ≤ most ∧ ∀ offset recorded, stack.recordedAt? offset = some recorded →
        recorded.length ≤ most) ∧
    match inst.stackEffect with
    | .error fault => inst.apply stack = .error fault stack
    | .ok counts =>
      if stack.depth < counts.pops then
        inst.apply stack = .error (.underflow counts.pops stack.depth) stack
      else if ∀ most, limit = some most → stack.depth - counts.pops + counts.pushes ≤ most then
        ∃ after, inst.apply stack = .ok ⟨⟩ after ∧ inst.Conforms counts stack after
      else
        ∃ most failed, limit = some most ∧ inst.apply stack = .error (.overflow most) failed := by
  intro stack
  obtain ⟨hbounded, hlimit⟩ := StackCall.bounded_reached limit calls
  have hfits (depth : Nat) :
      stack.Fits depth ↔ ∀ most, limit = some most → depth ≤ most := by
    rw [← hlimit]
    exact Iff.rfl
  constructor
  · intro most hmost
    have hmost : stack.limit = some most := hlimit.trans hmost
    exact ⟨hbounded.current most hmost, fun offset recorded hrecorded =>
      hbounded.ahead offset recorded hrecorded most hmost⟩
  · split
    · exact Instruction.apply_of_uncounted ‹_›
    · rename_i counts hcounted
      have haccords := Instruction.apply_accords hcounted hbounded.current
      generalize hresult : inst.apply stack = result at haccords ⊢
      cases haccords with
      | @done after deep fits =>
        rw [if_neg (Nat.not_lt.2 deep), if_pos ((hfits _).1 fits)]
        exact ⟨after, rfl, Instruction.conforms_of_apply hcounted hresult⟩
      | underflow short => rw [if_pos short]
      | @overflow failed deep crowded =>
        rw [if_neg (Nat.not_lt.2 deep), if_neg fun h => crowded ((hfits _).2 h)]
        obtain ⟨most, hmost⟩ : ∃ most, limit = some most := by
          by_contra hnone
          exact crowded ((hfits _).2 fun most hmost => absurd ⟨most, hmost⟩ hnone)
        refine ⟨most, failed, hmost, ?_⟩
        rw [full, hlimit, hmost]
        rfl

end BytecodeLint
