import BytecodeLint.Proofs.Footprint
import BytecodeLint.Proofs.Visits

/-!
# The course of a walk

A walk comes to the end of the code, or it faults: where it arrives at an
instruction, where it executes the instruction, or where it hands the stack
to a target ahead.  This module gives the course of a walk step by step, with
every reason for which a step can fail.

There are four groups.

* The faults of control flow.  Both come from stacks of different depths.
* `OperandStack.Bounded`: no stack exceeds the limit.  Each half of a step
  keeps this.
* `Method.WalksTo` is the course of a walk, and `Method.Ending` the way in
  which it ends.  Every walk ends in one of three ways: `Method.ending`.
* What a course keeps.
-/

namespace BytecodeLint

open OperandStack

/-! ## Faults of control flow -/

/-- Stacks fail to meet only if their depths differ. -/
theorem joinSlots_fault {offset : Nat} {left right : List Slot} {fault : StackFault}
    (h : joinSlots offset left right = .error fault) :
    left.length ≠ right.length ∧ fault = .depthMismatch offset left.length right.length := by
  unfold joinSlots at h
  split at h
  · cases h
  · cases h
    exact ⟨‹_›, rfl⟩

/-- Stacks fail to meet where one falls through to an offset at which a stack
of another depth is recorded. -/
theorem OperandStack.arriving_fault {stack : OperandStack} {offset : Nat} {fallsThrough : Bool}
    {fault : StackFault} (h : stack.arriving offset fallsThrough = .error fault) :
    fallsThrough = true ∧ ∃ recorded, stack.recordedAt? offset = some recorded ∧
      stack.slots.length ≠ recorded.length ∧
      fault = .depthMismatch offset stack.slots.length recorded.length := by
  unfold arriving at h
  cases hrecorded : stack.recordedAt? offset with
  | none =>
    rw [hrecorded] at h
    cases fallsThrough with
    | true => cases h
    | false => cases h
  | some recorded =>
    rw [hrecorded] at h
    cases fallsThrough with
    | false => cases h
    | true => exact ⟨rfl, recorded, rfl, joinSlots_fault h⟩

/-- The stack cannot be handed on to a target for which a stack of another
depth is recorded. -/
theorem noteJump_fault {target : Nat} {stack failed : OperandStack} {fault : StackFault}
    (h : noteJump target stack = .error fault failed) :
    ∃ recorded, stack.recordedAt? target = some recorded ∧
      stack.slots.length ≠ recorded.length ∧
      fault = .depthMismatch target stack.slots.length recorded.length := by
  rw [noteJump_eq] at h
  cases hrecorded : stack.recordedAt? target with
  | none =>
    rw [hrecorded] at h
    cases h
  | some recorded =>
    simp only [hrecorded] at h
    cases hjoin : joinSlots target stack.slots recorded with
    | ok joined =>
      rw [hjoin] at h
      cases h
    | error raised =>
      rw [hjoin] at h
      cases h
      exact ⟨recorded, rfl, joinSlots_fault hjoin⟩

/-- What is recorded for a target has the depth of the stack that was noted
last. -/
theorem length_of_noteJump {target : Nat} {stack after : OperandStack}
    (h : noteJump target stack = .ok ⟨⟩ after) :
    ∃ joined, after = stack.setRecorded target joined ∧ joined.length = stack.slots.length := by
  obtain ⟨joined, hjoined, rfl⟩ := noteJump_ok h
  refine ⟨joined, rfl, ?_⟩
  split at hjoined
  · rw [hjoined]
  · obtain ⟨hlength, rfl⟩ := joinSlots_ok hjoined
    rw [List.length_zipWith, ← hlength, Nat.min_self]

/-- The same of several targets, one after another. -/
theorem notes_fault {targets : List Nat} {stack failed : OperandStack} {fault : StackFault}
    (h : targets.forM noteJump stack = .error fault failed) :
    ∃ target ∈ targets, ∃ recorded, stack.recordedAt? target = some recorded ∧
      stack.slots.length ≠ recorded.length ∧
      fault = .depthMismatch target stack.slots.length recorded.length := by
  induction targets generalizing stack with
  | nil => cases h
  | cons target rest ih =>
    have hbind : (noteJump target >>= fun _ => rest.forM noteJump) stack = .error fault failed := h
    rw [StackM.bind_apply] at hbind
    cases hnote : noteJump target stack with
    | error raised after =>
      rw [hnote] at hbind
      cases hbind
      exact ⟨target, List.mem_cons_self .., noteJump_fault hnote⟩
    | ok value noted =>
      rw [hnote] at hbind
      obtain ⟨joined, rfl, hlength⟩ := length_of_noteJump hnote
      obtain ⟨other, hother, recorded, hrecorded, hdepths, hfault⟩ := ih hbind
      by_cases hsame : other = target
      · -- What was just recorded for the target has the depth of the stack.
        rw [hsame, recordedAt?_setRecorded_self] at hrecorded
        cases hrecorded
        exact absurd hlength.symm hdepths
      · rw [recordedAt?_setRecorded_ne _ _ hsame] at hrecorded
        exact ⟨other, List.mem_cons_of_mem _ hother, recorded, hrecorded, hdepths, hfault⟩

/-- A handler shows the exception, for which there has to be room. -/
theorem Method.handler_of_shown {method : Method} {fallsThrough : Bool} {inst : Instruction}
    {stack : OperandStack} {slots : List Slot}
    (hhandler : method.isHandler inst.offset = true)
    (h : method.shown fallsThrough inst stack = .ok slots) :
    stack.Fits 1 ∧ slots = [.unknown] := by
  unfold shown at h
  rw [if_pos hhandler] at h
  split at h
  · cases h
    exact ⟨‹_›, rfl⟩
  · cases h

/-- Where an instruction that is no handler shows slots, stacks have met. -/
theorem Method.arriving_of_shown {method : Method} {fallsThrough : Bool} {inst : Instruction}
    {stack : OperandStack} {slots : List Slot}
    (hhandler : method.isHandler inst.offset = false)
    (h : method.shown fallsThrough inst stack = .ok slots) :
    ∃ met, stack.arriving inst.offset fallsThrough = .ok met ∧ slots.length = met.length := by
  unfold shown at h
  rw [if_neg (Bool.eq_false_iff.1 hhandler)] at h
  split at h
  · cases h
    refine ⟨_, ‹_›, ?_⟩
    split
    · exact List.length_map _
    · rfl
  · cases h

/-- The first half of a step fails at a handler for which there is no room,
where stacks fail to meet, or for an instruction whose slots cannot be
counted. -/
theorem Method.reach_fault {method : Method} {fallsThrough : Bool} {inst : Instruction}
    {stack failed : OperandStack} {fault : StackFault}
    (h : method.reach method.loopHeads fallsThrough inst stack = .error fault failed) :
    (method.isHandler inst.offset = true ∧ ¬ stack.Fits 1 ∧ fault = stack.full) ∨
      (method.isHandler inst.offset = false ∧
        stack.arriving inst.offset fallsThrough = .error fault) ∨
      ((∃ slots, method.shown fallsThrough inst stack = .ok slots) ∧
        inst.stackEffect = .error fault) := by
  cases hshown : method.shown fallsThrough inst stack with
  | ok slots =>
    rw [reach_of_shown hshown] at h
    split at h
    · cases h
    · cases h
      exact Or.inr (Or.inr ⟨⟨slots, rfl⟩, ‹_›⟩)
  | error raised =>
    have hraised : raised = fault := by
      obtain ⟨_, hrefused⟩ := reach_of_refused hshown
      cases hrefused.symm.trans h
      rfl
    subst hraised
    unfold shown at hshown
    split at hshown
    · split at hshown
      · cases hshown
      · cases hshown
        exact Or.inl ⟨‹_›, ‹_›, rfl⟩
    · split at hshown
      · cases hshown
      · cases hshown
        exact Or.inr (Or.inl ⟨Bool.eq_false_iff.2 ‹_›, ‹_›⟩)

/-- The second half of a step fails where the instruction does, or where its
stack is handed on. -/
theorem Instruction.leave_fault {inst : Instruction} {stack failed : OperandStack}
    {fault : StackFault} (h : inst.leave stack = .error fault failed) :
    inst.apply stack = .error fault failed ∨
      ∃ applied, inst.apply stack = .ok ⟨⟩ applied ∧
        inst.forwardTargets.forM noteJump applied = .error fault failed := by
  have hbind : (inst.apply >>= fun _ => inst.forwardTargets.forM noteJump) stack
      = .error fault failed := h
  rw [StackM.bind_apply] at hbind
  cases happly : inst.apply stack with
  | error raised after =>
    rw [happly] at hbind
    cases hbind
    exact Or.inl rfl
  | ok value applied =>
    rw [happly] at hbind
    exact Or.inr ⟨applied, rfl, hbind⟩

/-! ## Room -/

namespace OperandStack

/-- Neither the stack nor what is recorded for later exceeds the limit. -/
structure Bounded (stack : OperandStack) : Prop where
  current : stack.Fits stack.depth
  ahead : ∀ offset recorded, stack.recordedAt? offset = some recorded →
    stack.Fits recorded.length

namespace Bounded

variable {stack after : OperandStack}

theorem empty (limit : Option Nat) : (OperandStack.empty limit).Bounded :=
  ⟨fun _ _ => Nat.zero_le _, fun _ _ h => nomatch h⟩

theorem withSlots (h : stack.Bounded) {slots : List Slot} (hfits : stack.Fits slots.length) :
    (stack.withSlots slots).Bounded :=
  ⟨hfits, h.ahead⟩

theorem dropRecorded (h : stack.Bounded) (offset : Nat) : (stack.dropRecorded offset).Bounded := by
  refine ⟨h.current, fun other recorded hother => ?_⟩
  by_cases hsame : other = offset
  · rw [hsame, recordedAt?_dropRecorded_self] at hother
    cases hother
  · rw [recordedAt?_dropRecorded_ne stack hsame] at hother
    exact h.ahead other recorded hother

theorem arriving (h : stack.Bounded) {offset : Nat} {fallsThrough : Bool} {slots : List Slot}
    (harriving : stack.arriving offset fallsThrough = .ok slots) : stack.Fits slots.length := by
  unfold OperandStack.arriving at harriving
  cases hrecorded : stack.recordedAt? offset with
  | none =>
    rw [hrecorded] at harriving
    cases fallsThrough with
    | true =>
      cases harriving
      exact h.current
    | false =>
      cases harriving
      exact h.current.mono (Nat.zero_le _)
  | some recorded =>
    rw [hrecorded] at harriving
    cases fallsThrough with
    | true =>
      obtain ⟨_, rfl⟩ := joinSlots_ok harriving
      rw [List.length_zipWith]
      exact h.current.mono (Nat.min_le_left ..)
    | false =>
      cases harriving
      exact h.ahead offset _ hrecorded

/-- What the walk shows at an instruction has room. -/
theorem shown (h : stack.Bounded) {method : Method} {fallsThrough : Bool} {inst : Instruction}
    {slots : List Slot} (hshown : method.shown fallsThrough inst stack = .ok slots) :
    stack.Fits slots.length := by
  cases hhandler : method.isHandler inst.offset with
  | true =>
    obtain ⟨hfits, rfl⟩ := Method.handler_of_shown hhandler hshown
    exact hfits
  | false =>
    obtain ⟨met, harriving, hlength⟩ := Method.arriving_of_shown hhandler hshown
    rw [hlength]
    exact h.arriving harriving

theorem reach (h : stack.Bounded) {method : Method} {fallsThrough : Bool} {inst : Instruction}
    {visit : Visit}
    (hreach : method.reach method.loopHeads fallsThrough inst stack = .ok visit after) :
    after.Bounded := by
  rw [(Method.reach_ok hreach).stack]
  exact (h.dropRecorded inst.offset).withSlots (h.shown (Method.shown_of_reach hreach))

theorem apply (h : stack.Bounded) {inst : Instruction} (happly : inst.apply stack = .ok ⟨⟩ after) :
    after.Bounded := by
  obtain ⟨effect, counts, heffect, hcounts, hdeep, hafter⟩ := Instruction.apply_ok happly
  have haccords : stack.Accords counts (inst.apply stack) :=
    Instruction.apply_accords (Instruction.stackEffect_of_effect? heffect hcounts) h.current
  obtain ⟨_, hfits⟩ := haccords.isOk_iff.1 ⟨after, happly⟩
  rw [hafter]
  refine h.withSlots ?_
  rwa [Instruction.length_slotsAfter heffect hcounts hdeep]

theorem noteJump (h : stack.Bounded) {target : Nat}
    (hnote : noteJump target stack = .ok ⟨⟩ after) : after.Bounded := by
  obtain ⟨joined, rfl, hlength⟩ := length_of_noteJump hnote
  refine ⟨h.current, fun offset recorded hoffset => ?_⟩
  by_cases htarget : offset = target
  · rw [htarget, recordedAt?_setRecorded_self] at hoffset
    cases hoffset
    rw [hlength]
    exact h.current
  · rw [recordedAt?_setRecorded_ne _ _ htarget] at hoffset
    exact h.ahead offset recorded hoffset

theorem notes (h : stack.Bounded) {targets : List Nat}
    (hnotes : targets.forM OperandStack.noteJump stack = .ok ⟨⟩ after) : after.Bounded := by
  induction targets generalizing stack with
  | nil =>
    cases hnotes
    exact h
  | cons target rest ih =>
    have hbind : (OperandStack.noteJump target >>= fun _ => rest.forM OperandStack.noteJump) stack
        = .ok ⟨⟩ after := hnotes
    obtain ⟨_, noted, hnote, hrest⟩ := bind_ok hbind
    exact ih (h.noteJump hnote) hrest

end Bounded

end OperandStack

/-! ## The course and its end -/

namespace Method

/-- The method has room for the depth. -/
def Allows (method : Method) (depth : Nat) : Prop :=
  ∀ limit, method.maxStack = some limit → depth ≤ limit

variable {method : Method}

theorem allows_of_bounded {stack : OperandStack} (h : stack.Bounded)
    (hlimit : stack.limit = method.maxStack) : method.Allows stack.slots.length :=
  fun limit hmax => h.current limit (hlimit.trans hmax)

/-- The walk has made the visits `done` and comes with `stack` to `rest`,
the rest of the code. -/
inductive WalksTo (method : Method) :
    List Visit → List Instruction → Bool → OperandStack → Prop
  | start : WalksTo method [] method.code true (.empty method.maxStack)
  | step {done inst rest fallsThrough stack visit reached after}
      (walks : WalksTo method done (inst :: rest) fallsThrough stack)
      (reaches : method.reach method.loopHeads fallsThrough inst stack = .ok visit reached)
      (leaves : inst.leave reached = .ok ⟨⟩ after) :
      WalksTo method (done ++ [visit]) rest inst.fallsThrough after

/-- The ways in which a walk ends: it comes to the end of the code, or it
faults when it arrives at an instruction, or when it executes the instruction
and hands the stack on. -/
inductive Ending (method : Method) : Walk → Prop
  | complete {done fallsThrough stack} (walks : method.WalksTo done [] fallsThrough stack) :
      Ending method ⟨done, none⟩
  | arriving {done inst rest fallsThrough stack fault failed}
      (walks : method.WalksTo done (inst :: rest) fallsThrough stack)
      (fails : method.reach method.loopHeads fallsThrough inst stack = .error fault failed) :
      Ending method ⟨done, some ⟨inst.offset, fault⟩⟩
  | leaving {done inst rest fallsThrough stack visit reached fault failed}
      (walks : method.WalksTo done (inst :: rest) fallsThrough stack)
      (reaches : method.reach method.loopHeads fallsThrough inst stack = .ok visit reached)
      (fails : inst.leave reached = .error fault failed) :
      Ending method ⟨done ++ [visit], some ⟨inst.offset, fault⟩⟩

private theorem ending_of_walksTo {done : List Visit} {rest : List Instruction}
    {fallsThrough : Bool} {stack : OperandStack}
    (h : method.WalksTo done rest fallsThrough stack) :
    method.Ending
      ⟨done ++ (method.walkFrom method.loopHeads rest fallsThrough stack).visits,
        (method.walkFrom method.loopHeads rest fallsThrough stack).fault⟩ := by
  induction rest generalizing done fallsThrough stack with
  | nil =>
    rw [walkFrom, List.append_nil]
    exact .complete h
  | cons inst rest ih =>
    rw [walkFrom]
    cases hreach : method.reach method.loopHeads fallsThrough inst stack with
    | error fault failed =>
      rw [List.append_nil]
      exact .arriving h hreach
    | ok visit reached =>
      cases hleave : inst.leave reached with
      | error fault failed =>
        simp only [hleave]
        exact .leaving h hreach hleave
      | ok value after =>
        simp only [hleave, Walk.cons]
        rw [List.append_cons]
        exact ih (.step h hreach hleave)

/-- Every walk ends in one of the three ways. -/
theorem ending (method : Method) : method.Ending method.walk :=
  ending_of_walksTo .start

/-- A walk that completes has come to the end of the code. -/
theorem walksTo_of_completes (h : method.walk.completes = true) :
    ∃ fallsThrough stack, method.WalksTo method.walk.visits [] fallsThrough stack := by
  have hending := method.ending
  generalize method.walk = walk at hending h
  cases hending with
  | complete walks => exact ⟨_, _, walks⟩
  | arriving => cases h
  | leaving => cases h

/-! ## What a course keeps -/

namespace WalksTo

variable {done : List Visit} {rest : List Instruction} {inst : Instruction}
  {fallsThrough : Bool} {stack reached : OperandStack} {visit : Visit}

theorem code_eq (h : method.WalksTo done rest fallsThrough stack) :
    done.map (·.instruction) ++ rest = method.code := by
  induction h with
  | start => rfl
  | step walks reaches _ ih =>
    rw [← ih, ← (reach_ok reaches).instruction, List.map_append, List.append_assoc]
    rfl

theorem trail (h : method.WalksTo done rest fallsThrough stack) :
    method.Trail done fallsThrough stack := by
  induction h with
  | start => exact .start
  | step walks reaches leaves ih =>
    have hreached := reach_ok reaches
    have hcode := walks.code_eq
    obtain rfl := hreached.instruction
    exact .step ih ⟨_, by rw [← hcode, List.append_assoc]; rfl⟩ hreached leaves

theorem bounded (h : method.WalksTo done rest fallsThrough stack) : stack.Bounded := by
  induction h with
  | start => exact .empty _
  | step walks reaches leaves ih =>
    obtain ⟨applied, happly, hnotes⟩ := Instruction.leave_ok leaves
    exact ((ih.reach reaches).apply happly).notes hnotes

/-- What is known of the stack on which the next instruction is executed. -/
theorem of_reach (h : method.WalksTo done (inst :: rest) fallsThrough stack)
    (reaches : method.reach method.loopHeads fallsThrough inst stack = .ok visit reached) :
    reached.Bounded ∧ reached.limit = method.maxStack ∧ reached.slots = visit.slots := by
  refine ⟨h.bounded.reach reaches, ?_, ?_⟩
  · rw [(reach_ok reaches).stack]
    exact h.trail.limit_eq
  · rw [(reach_ok reaches).stack, withSlots_slots]

/-- An instruction that can leave something does so on the walk. -/
theorem exists_apply (h : method.WalksTo done (inst :: rest) fallsThrough stack)
    (reaches : method.reach method.loopHeads fallsThrough inst stack = .ok visit reached)
    {slots : List Slot} (hleaves : method.Leaves visit slots) :
    ∃ applied, inst.apply reached = .ok ⟨⟩ applied := by
  obtain ⟨hbounded, hlimit, hslots⟩ := h.of_reach reaches
  obtain ⟨other, after, hother, hotherLimit, happly, _⟩ := hleaves
  rw [(reach_ok reaches).instruction] at happly
  exact Instruction.apply_ok_congr (hother.trans hslots.symm) (hotherLimit.trans hlimit.symm)
    hbounded.current happly

/-- Every stack that was visited or left has room. -/
theorem room (h : method.WalksTo done rest fallsThrough stack) :
    ∀ visit ∈ done, method.Allows visit.slots.length ∧
      ∀ slots, method.Leaves visit slots → method.Allows slots.length := by
  induction h with
  | start =>
    intro visit hvisit
    cases hvisit
  | @step done inst rest fallsThrough stack visit reached after walks reaches leaves ih =>
    intro earlier hearlier
    rcases List.mem_append.1 hearlier with hearlier | hearlier
    · exact ih earlier hearlier
    · rw [List.mem_singleton.1 hearlier]
      obtain ⟨applied, happly, _⟩ := Instruction.leave_ok leaves
      obtain ⟨hbounded, hlimit, hslots⟩ := walks.of_reach reaches
      have hreached := reach_ok reaches
      have happlied : applied.limit = method.maxStack := by
        obtain ⟨_, _, _, _, _, rfl⟩ := Instruction.apply_ok happly
        exact hlimit
      constructor
      · rw [← hslots]
        exact allows_of_bounded hbounded hlimit
      · intro slots hleaves
        obtain rfl := hreached.instruction
        rw [hleaves.unique (walks.trail.leaves_applied hreached happly)]
        exact allows_of_bounded (hbounded.apply happly) happlied

/-- Jumps of two visits to one offset ahead bring stacks of one depth. -/
theorem length_of_jumps (h : method.WalksTo done rest fallsThrough stack)
    (hascending : method.Ascending) {first second : Visit} {offset : Nat}
    {left right : List Slot} (hfirst : first ∈ done) (hsecond : second ∈ done)
    (hfirstJumps : offset ∈ first.instruction.forwardTargets)
    (hsecondJumps : offset ∈ second.instruction.forwardTargets)
    (hleft : method.Leaves first left) (hright : method.Leaves second right) :
    left.length = right.length := by
  induction h with
  | start => cases hfirst
  | @step done inst rest fallsThrough stack visit reached after walks reaches leaves ih =>
    have hnext := WalksTo.step walks reaches leaves
    obtain ⟨hfirstTarget, hfirstAhead⟩ := List.mem_filter.1 hfirstJumps
    obtain ⟨hsecondTarget, hsecondAhead⟩ := List.mem_filter.1 hsecondJumps
    -- Unless both visits were made before, the offset is ahead of the last one too.
    by_cases hlast : visit.instruction.offset < offset
    · refine hnext.trail.length_of_jumping ?_
        ⟨first, hfirst, hfirstTarget, hleft⟩ ⟨second, hsecond, hsecondTarget, hright⟩
      intro earlier hearlier
      rcases List.mem_append.1 hearlier with hearlier | hearlier
      · refine Nat.lt_trans (lies_behind hascending ?_ earlier hearlier) hlast
        exact ⟨rest, by rw [← hnext.code_eq, List.map_append]; rfl⟩
      · rwa [List.mem_singleton.1 hearlier]
    · have hearlier : ∀ {jumping : Visit}, jumping ∈ done ++ [visit] →
          jumping.instruction.offset < offset → jumping ∈ done := by
        intro jumping hjumping hahead
        rcases List.mem_append.1 hjumping with hjumping | hjumping
        · exact hjumping
        · rw [List.mem_singleton.1 hjumping] at hahead
          exact absurd hahead hlast
      exact ih (hearlier hfirst (of_decide_eq_true hfirstAhead))
        (hearlier hsecond (of_decide_eq_true hsecondAhead))

end WalksTo

end Method

end BytecodeLint
