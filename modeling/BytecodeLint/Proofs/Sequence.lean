import BytecodeLint.Proofs.Course
import BytecodeLint.Proofs.Passes

/-!
# Code without jumps

Where no instruction jumps and no handler begins, the walk executes one
instruction after another.  What it does to some part of the code does not
depend on what stands behind it, and neither does what a detector makes of it.
So code is followed piece by piece: `Detector.Passes` says what a piece makes
of the slots and of the state of a detector, and pieces are put together by
`Passes.append`.

There are three groups.

* `Method.Executes` is all that an instruction needs, and `walkFrom_cons` the
  step of a walk for it.
* `Detector.Passes`, for one instruction and for more.
* The end of the code: `Passes.foundIn` is what is found in a method that was
  passed through.
-/

namespace BytecodeLint

open OperandStack

/-! ## One step -/

/-- Control goes from each instruction to the next one only. -/
structure Method.Sequential (method : Method) : Prop where
  handlers : method.handlers = []
  targets : ∀ inst ∈ method.code, inst.targets = []

namespace Method

variable {method : Method} {inst : Instruction} {slots : List Slot} {effect : Effect}
  {counts : StackEffect}

theorem Sequential.isHandler (h : method.Sequential) (offset : Nat) :
    method.isHandler offset = false := by
  unfold Method.isHandler
  rw [h.handlers]
  rfl

theorem Sequential.loopHeads (h : method.Sequential) : method.loopHeads = [] := by
  refine List.flatMap_eq_nil_iff.2 fun inst hinst => ?_
  unfold Instruction.backwardTargets
  rw [h.targets inst hinst]
  rfl

/-- The stack with the given slots, for which no jump has recorded
anything. -/
def holding (method : Method) (slots : List Slot) : OperandStack :=
  { slots, limit := method.maxStack, recorded := [] }

theorem Allows.mono {less more : Nat} (h : method.Allows more) (hle : less ≤ more) :
    method.Allows less :=
  fun limit hlimit => Nat.le_trans hle (h limit hlimit)

/-- The instruction can be executed on the slots. -/
structure Executes (method : Method) (inst : Instruction) (slots : List Slot) (effect : Effect)
    (counts : StackEffect) : Prop where
  acts : inst.opcode.effect? = some effect
  counted : inst.countSlots effect = .ok counts
  deep : counts.pops ≤ slots.length
  room : method.Allows slots.length
  roomAfter : method.Allows (slots.length - counts.pops + counts.pushes)

theorem Executes.apply (h : method.Executes inst slots effect counts) :
    inst.apply (method.holding slots) =
      .ok ⟨⟩ (method.holding (inst.slotsAfter counts slots effect)) := by
  have hcounted := Instruction.stackEffect_of_effect? h.acts h.counted
  have haccords : (method.holding slots).Accords counts (inst.apply (method.holding slots)) :=
    Instruction.apply_accords hcounted h.room
  obtain ⟨after, hafter⟩ := haccords.isOk_iff.2 ⟨h.deep, h.roomAfter⟩
  obtain ⟨found, foundCounts, heffect, hcounts, _, rfl⟩ := Instruction.apply_ok hafter
  cases heffect.symm.trans h.acts
  cases hcounts.symm.trans h.counted
  exact hafter

/-- The walk takes a step that leaves the rest of the code to go. -/
theorem walkFrom_cons (hmethod : method.Sequential) (hinst : inst.targets = [])
    (h : method.Executes inst slots effect counts) (rest : List Instruction) :
    method.walkFrom method.loopHeads (inst :: rest) true (method.holding slots) =
      (method.walkFrom method.loopHeads rest inst.fallsThrough
        (method.holding (inst.slotsAfter counts slots effect))).cons ⟨inst, slots, counts⟩ := by
  have hshown : method.shown true inst (method.holding slots) = .ok slots := by
    unfold shown
    rw [hmethod.isHandler, hmethod.loopHeads]
    rfl
  have hreach : method.reach method.loopHeads true inst (method.holding slots) =
      .ok ⟨inst, slots, counts⟩ (method.holding slots) := by
    rw [reach_of_shown hshown, Instruction.stackEffect_of_effect? h.acts h.counted]
    rfl
  have hleave : inst.leave (method.holding slots) =
      .ok ⟨⟩ (method.holding (inst.slotsAfter counts slots effect)) := by
    unfold Instruction.leave Instruction.forwardTargets
    rw [StackM.bind_apply, h.apply, hinst]
    rfl
  rw [walkFrom, hreach]
  simp only [hleave]

/-- Without jumps nothing is recorded. -/
theorem Sequential.recorded_eq_nil (hmethod : method.Sequential) {done : List Visit}
    {fallsThrough : Bool} {stack : OperandStack} (h : method.Trail done fallsThrough stack) :
    stack.recorded = [] := by
  induction h with
  | start => rfl
  | @step _ _ _ visit _ _ _ code arrives leaves ih =>
    obtain ⟨applied, happly, hnotes⟩ := Instruction.leave_ok leaves
    have htargets : visit.instruction.targets = [] :=
      hmethod.targets _ (code.subset (List.mem_append_right _ (List.mem_singleton_self _)))
    unfold Instruction.forwardTargets at hnotes
    rw [htargets] at hnotes
    cases hnotes
    obtain ⟨_, _, _, _, _, rfl⟩ := Instruction.apply_ok happly
    rw [arrives.stack]
    show List.filter _ _ = []
    rw [ih]
    rfl

/-- What the walk shows behind an instruction is what this instruction leaves. -/
theorem Sequential.leaves_of_visits (hmethod : method.Sequential) {earlier later : List Visit}
    {last visit : Visit} (hvisits : method.walk.visits = earlier ++ last :: visit :: later)
    (hfalls : last.instruction.fallsThrough = true) : method.Leaves last visit.slots := by
  have hsplit : method.walk.visits = (earlier ++ [last]) ++ visit :: later := by simpa using hvisits
  obtain ⟨fallsThrough, stack, reached, htrail, _, hreached⟩ := exists_trail hsplit
  obtain ⟨slots, harriving, hslots⟩ := hreached.joined (hmethod.isHandler _)
  rw [hmethod.loopHeads] at hslots
  rcases htrail.last_leaves with ⟨hnil, _⟩ | ⟨_, final, hfinal, hleaves, hthrough⟩
  · simp at hnil
  · obtain ⟨_, hsame⟩ := List.append_inj' hfinal rfl
    obtain rfl := List.singleton_inj.1 hsame
    have hnone : stack.recordedAt? visit.instruction.offset = none := by
      unfold OperandStack.recordedAt?
      rw [hmethod.recorded_eq_nil htrail]
      rfl
    rw [hthrough, hfalls] at harriving
    unfold OperandStack.arriving at harriving
    rw [hnone] at harriving
    cases harriving
    rw [hslots]
    exact hleaves

end Method

/-! ## Pieces of code -/

/-- The walk with more visits before it. -/
def Walk.behind (visits : List Visit) (walk : Walk) : Walk :=
  { walk with visits := visits ++ walk.visits }

/-- The slots of the stack, and the state of a detector. -/
structure Detector.Standing (detector : Detector) where
  slots : List Slot
  state : detector.State

/-- Whatever follows them, the instructions take the walk and the detector from
`before` to `after`, and the detector finds `found` on the way. -/
def Detector.Passes (detector : Detector) (cls : Class) (method : Method)
    (insts : List Instruction) (before : detector.Standing) (found : List Finding)
    (after : detector.Standing) : Prop :=
  ∃ visits, detector.follow cls method visits before.state = .ok found after.state ∧
    ∀ rest, method.walkFrom method.loopHeads (insts ++ rest) true (method.holding before.slots) =
      (method.walkFrom method.loopHeads rest true (method.holding after.slots)).behind visits

namespace Detector

variable {detector : Detector} {cls : Class} {method : Method} {insts : List Instruction}
  {inst : Instruction} {before middle after : detector.Standing} {found later : List Finding}
  {effect : Effect} {counts : StackEffect}

theorem follow_append {front back : List Visit} {state between last : detector.State}
    (hfront : detector.follow cls method front state = .ok found between)
    (hback : detector.follow cls method back between = .ok later last) :
    detector.follow cls method (front ++ back) state = .ok (found ++ later) last := by
  induction front generalizing state found with
  | nil =>
    cases hfront
    exact hback
  | cons visit front ih =>
    obtain ⟨first, after, rest, hvisit, hrest, rfl⟩ := follow_cons_ok hfront
    rw [List.cons_append, follow_cons, hvisit]
    simp only [ih hrest]
    rw [List.append_assoc]

theorem Passes.nil (before : detector.Standing) :
    detector.Passes cls method [] before [] before :=
  ⟨[], rfl, fun _ => rfl⟩

theorem Passes.append {others : List Instruction}
    (h : detector.Passes cls method insts before found middle)
    (hlater : detector.Passes cls method others middle later after) :
    detector.Passes cls method (insts ++ others) before (found ++ later) after := by
  obtain ⟨visits, hfollow, hwalk⟩ := h
  obtain ⟨behind, hbehind, hrest⟩ := hlater
  refine ⟨visits ++ behind, follow_append hfollow hbehind, fun rest => ?_⟩
  rw [List.append_assoc, hwalk, hrest]
  unfold Walk.behind
  rw [List.append_assoc]

/-- One instruction, by its visit. -/
theorem Passes.single {slots : List Slot} {state last : detector.State}
    (hmethod : method.Sequential) (hinst : inst.targets = []) (hfalls : inst.fallsThrough = true)
    (h : method.Executes inst slots effect counts)
    (hvisit : detector.visit ⟨⟨inst, slots, counts⟩, cls, method⟩ state = .ok found last) :
    detector.Passes cls method [inst] ⟨slots, state⟩ found
      ⟨inst.slotsAfter counts slots effect, last⟩ := by
  refine ⟨[⟨inst, slots, counts⟩], ?_, fun rest => ?_⟩
  · rw [follow_cons, hvisit]
    simp only [follow_nil, List.append_nil]
  · show method.walkFrom method.loopHeads (inst :: rest) true (method.holding slots) = _
    rw [Method.walkFrom_cons hmethod hinst h, hfalls]
    rfl

/-! ## The end of the code -/

/-- What is found in a method is what is found on the way through it, and what
is found at its last instruction. -/
theorem Passes.foundIn {slots : List Slot} {state between last : detector.State}
    {own : List Finding} (hmethod : method.Sequential) (hcode : method.code = insts ++ [inst])
    (hpasses : detector.Passes cls method insts ⟨[], detector.enter method state⟩ found
      ⟨slots, between⟩)
    (hinst : inst.targets = []) (h : method.Executes inst slots effect counts)
    (hvisit : detector.visit ⟨⟨inst, slots, counts⟩, cls, method⟩ between = .ok own last)
    (haccepts : detector.accepts method method.opcodes = true) :
    detector.foundIn cls state method = found ++ own := by
  obtain ⟨visits, hfollow, hwalk⟩ := hpasses
  have hend : method.walk = ⟨visits ++ [⟨inst, slots, counts⟩], none⟩ := by
    unfold Method.walk
    rw [hcode]
    refine (hwalk [inst]).trans ?_
    rw [Method.walkFrom_cons hmethod hinst h]
    rfl
  have hlast : detector.follow cls method [⟨inst, slots, counts⟩] between = .ok own last := by
    rw [follow_cons, hvisit]
    simp only [follow_nil, List.append_nil]
  unfold Detector.foundIn
  rw [haccepts, hend]
  simp only [Walk.completes, Option.isNone_none, Bool.and_self, if_true,
    follow_append hfollow hlast]

end Detector

end BytecodeLint
