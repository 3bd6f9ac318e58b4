import BytecodeLint.Walk
import BytecodeLint.Proofs.Application

/-!
# The states that a walk passes through

A walk is a recursion over the code that hands on a stack.  Its result
shows the visits and hides the stacks between them.  `Method.Trail` brings
them back: it relates the visits made so far to the stack that they left.
An invariant of the walk is then proved by induction on the trail, one
step at a time.

There are three groups.

* `Method.shown` is what the walk shows at an instruction.  From it come the
  equations of the first half of a step, and `Method.Reached` says what it
  does if it succeeds.  `leave_ok` says what the second half does.
* `Method.Trail` and the way from a visit of the walk to its trail,
  `exists_trail`.
* What every trail keeps: the limit of the stack, the order of the code,
  and the stack that the last instruction left.
-/

namespace BytecodeLint

open OperandStack

/-! ## The two halves of a step -/

/-- The walk has come to `inst` with `stack`, and `visit` is what it sees
there. -/
structure Method.Reached (method : Method) (fallsThrough : Bool) (inst : Instruction)
    (stack : OperandStack) (visit : Visit) (reached : OperandStack) : Prop where
  instruction : visit.instruction = inst
  effect : inst.stackEffect = .ok visit.effect
  handler : method.isHandler inst.offset = true → visit.slots = [.unknown]
  joined : method.isHandler inst.offset = false → ∃ slots,
    stack.arriving inst.offset fallsThrough = .ok slots ∧
      visit.slots =
        if method.loopHeads.contains inst.offset then slots.map Slot.forget else slots
  stack : reached = (stack.dropRecorded inst.offset).withSlots visit.slots

namespace Method

variable {method : Method} {fallsThrough : Bool} {inst : Instruction}
  {stack reached : OperandStack} {visit : Visit} {slots : List Slot}

/-- The slots that the walk shows at an instruction: the exception at a
handler, and elsewhere the stacks that meet there. -/
def shown (method : Method) (fallsThrough : Bool) (inst : Instruction) (stack : OperandStack) :
    Except StackFault (List Slot) :=
  if method.isHandler inst.offset then
    if stack.Fits 1 then .ok [.unknown] else .error stack.full
  else
    match stack.arriving inst.offset fallsThrough with
    | .ok slots =>
      .ok (if method.loopHeads.contains inst.offset then slots.map Slot.forget else slots)
    | .error fault => .error fault

/-- Where the walk shows slots, it stops only for an instruction whose slots
cannot be counted. -/
theorem reach_of_shown (h : method.shown fallsThrough inst stack = .ok slots) :
    method.reach method.loopHeads fallsThrough inst stack =
      match inst.stackEffect with
      | .ok counts => .ok ⟨inst, slots, counts⟩ ((stack.dropRecorded inst.offset).withSlots slots)
      | .error fault => .error fault ((stack.dropRecorded inst.offset).withSlots slots) := by
  unfold shown at h
  unfold reach
  simp only [StackM.bind_apply, enter_eq]
  cases hhandler : method.isHandler inst.offset with
  | true =>
    simp only [hhandler, if_true] at h ⊢
    split at h
    case isTrue hfits =>
      cases h
      rw [if_pos hfits]
      simp only [Bool.not_true, Bool.and_false, Bool.false_eq_true, if_false]
      cases inst.stackEffect with
      | ok counts => rfl
      | error fault => rfl
    case isFalse => cases h
  | false =>
    simp only [hhandler, Bool.false_eq_true, if_false] at h ⊢
    cases harriving : stack.arriving inst.offset fallsThrough with
    | error fault =>
      rw [harriving] at h
      cases h
    | ok met =>
      rw [harriving] at h
      cases h
      simp only [Bool.not_false, Bool.and_true]
      by_cases hhead : method.loopHeads.contains inst.offset = true
      · simp only [if_pos hhead, StackM.bind_apply, forget_eq]
        cases inst.stackEffect with
        | ok counts => rfl
        | error fault => rfl
      · simp only [if_neg hhead]
        cases inst.stackEffect with
        | ok counts => rfl
        | error fault => rfl

/-- Where the walk shows nothing, it stops. -/
theorem reach_of_refused {fault : StackFault} (h : method.shown fallsThrough inst stack = .error fault) :
    ∃ failed, method.reach method.loopHeads fallsThrough inst stack = .error fault failed := by
  unfold shown at h
  unfold reach
  simp only [StackM.bind_apply, enter_eq]
  cases hhandler : method.isHandler inst.offset with
  | true =>
    simp only [hhandler, if_true] at h ⊢
    split at h
    case isTrue => cases h
    case isFalse hfull =>
      cases h
      rw [if_neg hfull]
      exact ⟨_, rfl⟩
  | false =>
    simp only [hhandler, Bool.false_eq_true, if_false] at h ⊢
    cases harriving : stack.arriving inst.offset fallsThrough with
    | error fault =>
      rw [harriving] at h
      cases h
      exact ⟨_, rfl⟩
    | ok met =>
      rw [harriving] at h
      cases h

theorem shown_of_reach
    (h : method.reach method.loopHeads fallsThrough inst stack = .ok visit reached) :
    method.shown fallsThrough inst stack = .ok visit.slots := by
  cases hshown : method.shown fallsThrough inst stack with
  | error fault =>
    obtain ⟨failed, hfails⟩ := reach_of_refused hshown
    cases hfails.symm.trans h
  | ok slots =>
    rw [reach_of_shown hshown] at h
    split at h
    · cases h
      rfl
    · cases h

theorem reach_ok (h : method.reach method.loopHeads fallsThrough inst stack = .ok visit reached) :
    method.Reached fallsThrough inst stack visit reached := by
  cases hshown : method.shown fallsThrough inst stack with
  | error fault =>
    obtain ⟨failed, hfails⟩ := reach_of_refused hshown
    cases hfails.symm.trans h
  | ok slots =>
    rw [reach_of_shown hshown] at h
    unfold shown at hshown
    cases hcounts : inst.stackEffect with
    | error fault =>
      rw [hcounts] at h
      cases h
    | ok counts =>
      rw [hcounts] at h
      cases h
      refine ⟨rfl, hcounts, fun hhandler => ?_, fun hhandler => ?_, rfl⟩
      · rw [if_pos hhandler] at hshown
        split at hshown
        · cases hshown
          rfl
        · cases hshown
      · rw [if_neg (Bool.eq_false_iff.1 hhandler)] at hshown
        cases harriving : stack.arriving inst.offset fallsThrough with
        | error fault =>
          rw [harriving] at hshown
          cases hshown
        | ok met =>
          rw [harriving] at hshown
          cases hshown
          exact ⟨met, rfl, rfl⟩

end Method

theorem Instruction.leave_ok {inst : Instruction} {stack after : OperandStack}
    (h : inst.leave stack = .ok ⟨⟩ after) :
    ∃ applied, inst.apply stack = .ok ⟨⟩ applied ∧
      inst.forwardTargets.forM noteJump applied = .ok ⟨⟩ after := by
  obtain ⟨_, applied, happly, hnote⟩ := bind_ok h
  exact ⟨applied, happly, hnote⟩

/-- Noting jumps changes neither the slots nor the limit. -/
theorem notes_ok {targets : List Nat} {stack after : OperandStack}
    (h : targets.forM noteJump stack = .ok ⟨⟩ after) :
    after.slots = stack.slots ∧ after.limit = stack.limit := by
  induction targets generalizing stack with
  | nil =>
    cases h
    exact ⟨rfl, rfl⟩
  | cons target rest ih =>
    have hbind : (noteJump target >>= fun _ => rest.forM noteJump) stack = .ok ⟨⟩ after := h
    obtain ⟨_, noted, hnote, hrest⟩ := bind_ok hbind
    obtain ⟨joined, _, rfl⟩ := noteJump_ok hnote
    have hkept := ih hrest
    exact hkept

/-! ## Trails -/

namespace Method

/-- The walk has made the visits `done`.  It stands behind the last of
them with `stack`, and `fallsThrough` tells whether control can go on from
there. -/
inductive Trail (method : Method) : List Visit → Bool → OperandStack → Prop
  | start : Trail method [] true (.empty method.maxStack)
  | step {done fallsThrough stack visit reached after}
      (trail : Trail method done fallsThrough stack)
      (code : done.map (·.instruction) ++ [visit.instruction] <+: method.code)
      (arrives : method.Reached fallsThrough visit.instruction stack visit reached)
      (leaves : visit.instruction.leave reached = .ok ⟨⟩ after) :
      Trail method (done ++ [visit]) visit.instruction.fallsThrough after

variable {method : Method}

/-- Without a body there is nothing to visit. -/
theorem walk_of_noBody (h : method.hasBody = false) :
    method.walk = { visits := [], fault := none } := by
  have hcode : method.code = [] := by
    simpa [hasBody] using h
  unfold walk
  rw [hcode]
  rfl

/-- The visits follow the code from its start, without a gap. -/
theorem visits_initial (rest : List Instruction) (fallsThrough : Bool) (stack : OperandStack) :
    (method.walkFrom method.loopHeads rest fallsThrough stack).visits.map (·.instruction)
      <+: rest := by
  induction rest generalizing fallsThrough stack with
  | nil => exact List.nil_prefix
  | cons inst rest ih =>
    rw [walkFrom]
    cases hreach : method.reach method.loopHeads fallsThrough inst stack with
    | error fault middle => exact List.nil_prefix
    | ok visit reached =>
      obtain rfl : visit.instruction = inst := (reach_ok hreach).instruction
      simp only
      cases hleave : visit.instruction.leave reached with
      | error fault middle => exact ⟨rest, rfl⟩
      | ok value after =>
        obtain ⟨missing, hmissing⟩ := ih visit.instruction.fallsThrough after
        exact ⟨missing, congrArg (visit.instruction :: ·) hmissing⟩

private theorem exists_trail_aux {visit : Visit} {later : List Visit} :
    ∀ (rest : List Instruction) (done before : List Visit) (fallsThrough : Bool)
      (stack : OperandStack),
      method.Trail done fallsThrough stack →
      done.map (·.instruction) ++ rest = method.code →
      (method.walkFrom method.loopHeads rest fallsThrough stack).visits
        = before ++ visit :: later →
      ∃ fallsThrough stack reached,
        method.Trail (done ++ before) fallsThrough stack ∧
        (done ++ before).map (·.instruction) ++ [visit.instruction] <+: method.code ∧
        method.Reached fallsThrough visit.instruction stack visit reached := by
  intro rest
  induction rest with
  | nil =>
    intro done before fallsThrough stack _ _ hvisits
    simp [walkFrom] at hvisits
  | cons inst rest ih =>
    intro done before fallsThrough stack htrail hcode hvisits
    rw [walkFrom] at hvisits
    cases hreach : method.reach method.loopHeads fallsThrough inst stack with
    | error fault middle => simp [hreach] at hvisits
    | ok first reached =>
      have hreached := reach_ok hreach
      obtain rfl : first.instruction = inst := hreached.instruction
      have hprefix : done.map (·.instruction) ++ [first.instruction] <+: method.code :=
        ⟨rest, by rw [← hcode]; simp⟩
      -- The visit is either the first one, or it lies behind it.
      have hhead : ∀ {visits : List Visit}, first :: visits = before ++ visit :: later →
          (before = [] ∧ first = visit) ∨
            ∃ before', before = first :: before' ∧ visits = before' ++ visit :: later := by
        intro visits hsplit
        cases before with
        | nil =>
          cases hsplit
          exact Or.inl ⟨rfl, rfl⟩
        | cons head before =>
          cases hsplit
          exact Or.inr ⟨before, rfl, rfl⟩
      have hfirst : before = [] ∧ first = visit → ∃ fallsThrough stack reached,
          method.Trail (done ++ before) fallsThrough stack ∧
          (done ++ before).map (·.instruction) ++ [visit.instruction] <+: method.code ∧
          method.Reached fallsThrough visit.instruction stack visit reached := by
        rintro ⟨rfl, rfl⟩
        rw [List.append_nil]
        exact ⟨fallsThrough, stack, reached, htrail, hprefix, hreached⟩
      simp only [hreach] at hvisits
      cases hleave : first.instruction.leave reached with
      | error fault middle =>
        simp only [hleave] at hvisits
        rcases hhead hvisits with hnow | ⟨before', _, hnil⟩
        · exact hfirst hnow
        · simp at hnil
      | ok value after =>
        simp only [hleave, Walk.cons] at hvisits
        rcases hhead hvisits with hnow | ⟨before', rfl, hrest⟩
        · exact hfirst hnow
        · have hnext := ih (done ++ [first]) before' first.instruction.fallsThrough after
            (.step htrail hprefix hreached hleave) (by rw [← hcode]; simp) hrest
          rw [List.append_cons]
          exact hnext

/-- Every visit of the walk has a trail that leads to it. -/
theorem exists_trail {before later : List Visit} {visit : Visit}
    (h : method.walk.visits = before ++ visit :: later) :
    ∃ fallsThrough stack reached, method.Trail before fallsThrough stack ∧
      before.map (·.instruction) ++ [visit.instruction] <+: method.code ∧
      method.Reached fallsThrough visit.instruction stack visit reached :=
  exists_trail_aux method.code [] before true _ .start rfl h

/-! ## What a trail keeps -/

/-- The instruction of the visit, executed on the slots of the visit,
leaves `slots` behind. -/
def Leaves (method : Method) (visit : Visit) (slots : List Slot) : Prop :=
  ∃ stack after, stack.slots = visit.slots ∧ stack.limit = method.maxStack ∧
    visit.instruction.apply stack = .ok ⟨⟩ after ∧ after.slots = slots

theorem Leaves.unique {visit : Visit} {slots others : List Slot}
    (h : method.Leaves visit slots) (hothers : method.Leaves visit others) : slots = others := by
  obtain ⟨stack, after, hslots, _, happly, rfl⟩ := h
  obtain ⟨other, otherAfter, hotherSlots, _, hotherApply, rfl⟩ := hothers
  exact Instruction.apply_slots_unique (hslots.trans hotherSlots.symm) happly hotherApply

namespace Trail

variable {done : List Visit} {fallsThrough : Bool} {stack : OperandStack}

theorem limit_eq (h : method.Trail done fallsThrough stack) : stack.limit = method.maxStack := by
  induction h with
  | start => rfl
  | step _ _ arrives leaves ih =>
    obtain ⟨applied, happly, hnote⟩ := Instruction.leave_ok leaves
    obtain ⟨_, _, _, _, _, rfl⟩ := Instruction.apply_ok happly
    rw [(notes_ok hnote).2, withSlots_limit, arrives.stack]
    exact ih

/-- What an instruction on the trail does is what `Leaves` says. -/
theorem leaves_applied {visit : Visit} {reached applied : OperandStack}
    (h : method.Trail done fallsThrough stack)
    (arrives : method.Reached fallsThrough visit.instruction stack visit reached)
    (happly : visit.instruction.apply reached = .ok ⟨⟩ applied) :
    method.Leaves visit applied.slots := by
  refine ⟨reached, applied, ?_, ?_, happly, rfl⟩
  · rw [arrives.stack, withSlots_slots]
  · rw [arrives.stack]
    exact h.limit_eq

/-- Every instruction on the trail has left one stack. -/
theorem existsUnique_leaves (h : method.Trail done fallsThrough stack) :
    ∀ visit ∈ done, ∃ slots, method.Leaves visit slots ∧
      ∀ others, method.Leaves visit others → others = slots := by
  induction h with
  | start =>
    intro visit hvisit
    cases hvisit
  | step trail _ arrives leaves ih =>
    intro visit hvisit
    rcases List.mem_append.1 hvisit with hvisit | hvisit
    · exact ih visit hvisit
    · rw [List.mem_singleton.1 hvisit]
      obtain ⟨applied, happly, _⟩ := Instruction.leave_ok leaves
      have hleaves := trail.leaves_applied arrives happly
      exact ⟨applied.slots, hleaves, fun others hothers => hothers.unique hleaves⟩

/-- The stack is empty at first, and later it is what the last visit left. -/
theorem last_leaves (h : method.Trail done fallsThrough stack) :
    (done = [] ∧ stack.slots = [] ∧ fallsThrough = true) ∨
      ∃ earlier last, done = earlier ++ [last] ∧ method.Leaves last stack.slots ∧
        fallsThrough = last.instruction.fallsThrough := by
  cases h with
  | start => exact Or.inl ⟨rfl, rfl, rfl⟩
  | @step earlier _ before last reached _ trail _ arrives leaves =>
    obtain ⟨applied, happly, hnote⟩ := Instruction.leave_ok leaves
    refine Or.inr ⟨earlier, last, rfl, ?_, rfl⟩
    rw [(notes_ok hnote).1]
    exact trail.leaves_applied arrives happly

end Trail

end Method

end BytecodeLint
