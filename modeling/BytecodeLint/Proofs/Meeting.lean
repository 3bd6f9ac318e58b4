import BytecodeLint.Proofs.Course

/-!
# Stacks handed forward

Control goes forward by a jump, or by falling through to the next
instruction.  Stacks that are handed to one offset in these ways have to be
of one depth, and a walk compares them all, whether or not it comes to the
offset.  It compares nothing else: what a jump back brings is not looked at.

There are three groups.

* `Method.Forwards` says which stack a visit hands on, and to which offset.
* `Method.Disagree`: two visits hand on stacks that do not meet.  A walk
  faults with a mismatch of depths exactly if this is so.
* The depth at a target, and what the head of a loop shows.
-/

namespace BytecodeLint

open OperandStack

namespace Method

/-! ## What a visit hands on -/

/-- The visit hands `slots` forward to an offset: a jump brings them there, or
they fall through to the next instruction.  Nothing falls through to a
handler. -/
inductive Forwards (method : Method) (visit : Visit) : Nat → List Slot → Prop
  | jump {offset slots} (target : offset ∈ visit.instruction.forwardTargets)
      (leaves : method.Leaves visit slots) : Forwards method visit offset slots
  | fall {next slots} (adjacent : [visit.instruction, next] <:+: method.code)
      (falls : visit.instruction.fallsThrough = true)
      (handler : method.isHandler next.offset = false)
      (leaves : method.Leaves visit slots) : Forwards method visit next.offset slots

variable {method : Method} {done before later : List Visit} {visit source target : Visit}
  {rest : List Instruction} {inst : Instruction} {fallsThrough : Bool}
  {stack failed : OperandStack} {slots : List Slot} {fault : StackFault} {offset : Nat}

theorem Forwards.leaves (h : method.Forwards visit offset slots) : method.Leaves visit slots := by
  cases h with
  | jump _ leaves => exact leaves
  | fall _ _ _ leaves => exact leaves

theorem Forwards.lt_offset (hascending : method.Ascending)
    (h : method.Forwards visit offset slots) : visit.instruction.offset < offset := by
  cases h with
  | jump target _ => exact of_decide_eq_true (List.mem_filter.1 target).2
  | fall adjacent _ _ _ =>
    have hpair := List.Pairwise.sublist adjacent.sublist hascending
    exact List.rel_of_pairwise_cons hpair (List.mem_singleton_self _)

/-- What is handed forward to an instruction is brought there. -/
theorem Forwards.brings (hascending : method.Ascending)
    (hcode : before.map (·.instruction) ++ [inst] <+: method.code) (hvisit : visit ∈ before)
    (h : method.Forwards visit inst.offset slots) : method.Brings before inst slots := by
  generalize hoffset : inst.offset = offset at h
  cases h with
  | jump target leaves =>
    subst hoffset
    exact .jump hvisit (List.mem_filter.1 target).1 leaves
  | @fall next _ adjacent falls _ leaves =>
    have hinst : inst ∈ method.code := hcode.subset (by simp)
    have hnext : inst = next :=
      hascending.offset_inj hinst (adjacent.subset (by simp)) hoffset
    subst hnext
    obtain ⟨earlier, last, rfl, hlast⟩ := hascending.last_before hcode adjacent
    have hprefix : (earlier ++ [last]).map (·.instruction) <+: method.code :=
      (List.prefix_append _ _).trans hcode
    have hsame : last = visit :=
      hascending.visit_unique hprefix (by simp) hvisit hlast
    subst hsame
    exact .next rfl falls leaves

/-- A target that is no handler shows as many slots as are handed to it. -/
theorem length_of_forwards (hascending : method.Ascending) (hsource : source ∈ method.walk.visits)
    (htarget : target ∈ method.walk.visits)
    (hhandler : method.isHandler target.instruction.offset = false)
    (h : method.Forwards source target.instruction.offset slots) :
    target.slots.length = slots.length := by
  obtain ⟨before, later, hvisits⟩ := List.append_of_mem htarget
  obtain ⟨_, _, _, _, hcode, _⟩ := exists_trail hvisits
  have hbefore := hascending.mem_of_lt hvisits hsource (h.lt_offset hascending)
  exact length_of_brings hascending hvisits hhandler (h.brings hascending hcode hbefore)

/-! ## Stacks that do not meet -/

/-- Two of the visits hand stacks of different depths to one offset. -/
def Disagree (method : Method) (visits : List Visit) : Prop :=
  ∃ first ∈ visits, ∃ second ∈ visits, ∃ offset left right,
    method.Forwards first offset left ∧ method.Forwards second offset right ∧
      left.length ≠ right.length

end Method

/-- Stacks of different depths were brought to an offset. -/
def StackFault.IsMismatch (fault : StackFault) : Prop :=
  ∃ offset incoming recorded, fault = .depthMismatch offset incoming recorded

namespace Instruction

variable {inst : Instruction} {stack failed : OperandStack} {counts : StackEffect}
  {fault : StackFault}

theorem accessedSlots_fault (h : inst.accessedSlots = .error fault) :
    fault = inst.lacks .fieldReference := by
  unfold accessedSlots at h
  split at h
  · cases h
  · cases h
    rfl

theorem callEffect_fault {descriptor : String} {receiver : Nat}
    (h : callEffect descriptor receiver = .error fault) : ∃ bad, fault = .badDescriptor bad := by
  unfold callEffect at h
  split at h
  · cases h
  · cases h
    exact ⟨_, rfl⟩

/-- Slots cannot be counted for want of an operand, or of a readable
descriptor. -/
theorem countSlots_fault {effect : Effect} (h : inst.countSlots effect = .error fault) :
    (∃ needed, fault = inst.lacks needed) ∨ ∃ bad, fault = .badDescriptor bad := by
  have hfield : ∀ {count : Nat → StackEffect},
      (do return count (← inst.accessedSlots) : Except StackFault StackEffect) = .error fault →
      ∃ needed, fault = inst.lacks needed := by
    intro count hcount
    cases hslots : inst.accessedSlots with
    | ok slots =>
      rw [hslots] at hcount
      cases hcount
    | error raised =>
      rw [hslots] at hcount
      cases hcount
      exact ⟨_, accessedSlots_fault hslots⟩
  cases effect with
  | getStatic | getField | putStatic | putField => exact Or.inl (hfield h)
  | invoke | invokeDynamic =>
    simp only [countSlots] at h
    split at h
    · exact Or.inr (callEffect_fault h)
    · cases h
      exact Or.inl ⟨_, rfl⟩
  | allocateArrays =>
    simp only [countSlots] at h
    split at h
    · cases h
    · cases h
      exact Or.inl ⟨_, rfl⟩
  | pushConstant | loadLocal | replace | dup | swap | allocate | checkCast => cases h

/-- Slots that cannot be counted are no mismatch. -/
theorem not_isMismatch_of_stackEffect (h : inst.stackEffect = .error fault) :
    ¬ fault.IsMismatch := by
  rintro ⟨_, _, _, rfl⟩
  unfold stackEffect Instruction.effect at h
  split at h
  · rcases countSlots_fault h with ⟨_, hfault⟩ | ⟨_, hfault⟩
    · cases hfault
    · cases hfault
  · cases h

/-- No more is an instruction that fails. -/
theorem not_isMismatch_of_apply (hcounts : inst.stackEffect = .ok counts)
    (hfits : stack.Fits stack.depth) (h : inst.apply stack = .error fault failed) :
    ¬ fault.IsMismatch := by
  rintro ⟨_, _, _, rfl⟩
  have haccords := apply_accords hcounts hfits
  rw [h] at haccords
  cases haccords

end Instruction

namespace Method

variable {method : Method} {done before later : List Visit} {visit source target : Visit}
  {rest : List Instruction} {inst : Instruction} {fallsThrough : Bool}
  {stack failed : OperandStack} {slots : List Slot} {fault : StackFault} {offset : Nat}

namespace WalksTo

/-- What is recorded ahead was handed on by a jump. -/
theorem exists_jump (h : method.WalksTo done rest fallsThrough stack)
    (hbehind : ∀ visit ∈ done, visit.instruction.offset < offset) {recorded : List Slot}
    (hrecorded : stack.recordedAt? offset = some recorded) :
    ∃ source ∈ done, ∃ slots, method.Forwards source offset slots ∧
      slots.length = recorded.length := by
  have hcarries := h.trail.carries offset hbehind
  unfold OperandStack.Carries at hcarries
  simp only [hrecorded] at hcarries
  obtain ⟨slots, hslots⟩ := hcarries.nonempty
  have hlength := hcarries.length_eq slots hslots
  obtain ⟨source, hsource, htarget, hleaves⟩ := hslots
  have hforward : offset ∈ source.instruction.forwardTargets :=
    List.mem_filter.2 ⟨htarget, decide_eq_true (hbehind source hsource)⟩
  exact ⟨source, hsource, slots, .jump hforward hleaves, hlength⟩

theorem behind (h : method.WalksTo done (inst :: rest) fallsThrough stack)
    (hascending : method.Ascending) :
    ∀ visit ∈ done, visit.instruction.offset < inst.offset :=
  lies_behind hascending ⟨rest, by rw [← h.code_eq]; simp⟩

/-- A fault on arrival means that what falls through and what a jump brought
do not meet. -/
theorem disagree_of_arriving (h : method.WalksTo done (inst :: rest) fallsThrough stack)
    (hascending : method.Ascending) (hhandler : method.isHandler inst.offset = false)
    (harriving : stack.arriving inst.offset fallsThrough = .error fault) :
    method.Disagree done := by
  obtain ⟨hfalls, recorded, hrecorded, hdepths, _⟩ := arriving_fault harriving
  obtain ⟨source, hsource, slots, hforwards, hlength⟩ :=
    h.exists_jump (h.behind hascending) hrecorded
  rcases h.trail.last_leaves with ⟨rfl, _⟩ | ⟨earlier, last, rfl, hleaves, hlast⟩
  · cases hsource
  · have hadjacent : [last.instruction, inst] <:+: method.code :=
      ⟨earlier.map (·.instruction), rest, by rw [← h.code_eq]; simp⟩
    refine ⟨last, by simp, source, hsource, inst.offset, stack.slots, slots, ?_, hforwards, ?_⟩
    · exact .fall hadjacent (hlast.symm.trans hfalls) hhandler hleaves
    · rwa [hlength]

/-- The same of a fault where a stack is handed on. -/
theorem disagree_of_notes (h : method.WalksTo done (inst :: rest) fallsThrough stack)
    (hascending : method.Ascending) {reached applied : OperandStack}
    (reaches : method.reach method.loopHeads fallsThrough inst stack = .ok visit reached)
    (happly : inst.apply reached = .ok ⟨⟩ applied)
    (hnotes : inst.forwardTargets.forM noteJump applied = .error fault failed) :
    method.Disagree (done ++ [visit]) := by
  obtain ⟨target, htarget, recorded, hrecorded, hdepths, _⟩ := notes_fault hnotes
  have hbehind := h.behind hascending
  have hreached := reach_ok reaches
  obtain rfl := hreached.instruction
  have hahead : visit.instruction.offset < target :=
    of_decide_eq_true (List.mem_filter.1 htarget).2
  have hleaves := h.trail.leaves_applied hreached happly
  -- Neither the arrival nor the instruction touches what is recorded ahead.
  have hkept : applied.recordedAt? target = stack.recordedAt? target := by
    obtain ⟨_, _, _, _, _, rfl⟩ := Instruction.apply_ok happly
    rw [withSlots_recordedAt?, hreached.stack, withSlots_recordedAt?]
    exact recordedAt?_dropRecorded_ne _ (Nat.ne_of_gt hahead)
  obtain ⟨source, hsource, slots, hforwards, hlength⟩ :=
    h.exists_jump (fun earlier hearlier => (hbehind earlier hearlier).trans hahead)
      (hkept.symm.trans hrecorded)
  refine ⟨visit, by simp, source, by simp [hsource], target, applied.slots, slots, ?_,
    hforwards, ?_⟩
  · exact .jump htarget hleaves
  · rwa [hlength]

/-- Stacks that visits hand on meet, but for those handed to the instruction
that comes next. -/
theorem agree (h : method.WalksTo done rest fallsThrough stack) (hascending : method.Ascending)
    (hdone : ∀ visit ∈ done, visit ∈ method.walk.visits) {first second : Visit}
    {left right : List Slot} (hfirst : first ∈ done) (hsecond : second ∈ done)
    (hleft : method.Forwards first offset left) (hright : method.Forwards second offset right)
    (hrest : ∀ next, rest.head? = some next → method.isHandler next.offset = false →
      next.offset ≠ offset) : left.length = right.length := by
  -- Where one of them falls through, the target was visited.
  have hfallen : ∀ {falling : Visit} {next : Instruction}, falling ∈ done →
      [falling.instruction, next] <:+: method.code → method.isHandler next.offset = false →
      next.offset = offset → left.length = right.length := by
    intro falling next hfalling hadjacent hhandler hoffset
    rcases hascending.next_of_visited h.code_eq hfalling hadjacent with
      ⟨target, htarget, rfl⟩ | hnext
    · subst hoffset
      have hvisited := hdone target htarget
      rw [← length_of_forwards hascending (hdone first hfirst) hvisited hhandler hleft,
        ← length_of_forwards hascending (hdone second hsecond) hvisited hhandler hright]
    · exact absurd hoffset (hrest next hnext hhandler)
  cases hleft with
  | fall adjacent _ handler _ => exact hfallen hfirst adjacent handler rfl
  | jump hjump hleaves =>
    generalize hsame : offset = other at hright
    cases hright with
    | fall adjacent _ handler _ => exact hfallen hsecond adjacent handler hsame.symm
    | jump hother hotherLeaves =>
      subst hsame
      exact h.length_of_jumps hascending hfirst hsecond hjump hother hleaves hotherLeaves

/-- If stacks that were handed on do not meet, then it shows on arrival. -/
theorem isMismatch_of_arriving (h : method.WalksTo done (inst :: rest) fallsThrough stack)
    (hascending : method.Ascending)
    (fails : method.reach method.loopHeads fallsThrough inst stack = .error fault failed)
    (hdone : ∀ visit ∈ done, visit ∈ method.walk.visits) (hdisagree : method.Disagree done) :
    fault.IsMismatch := by
  obtain ⟨first, hfirst, second, hsecond, offset, left, right, hleft, hright, hdepths⟩ := hdisagree
  by_cases hmeets : method.isHandler inst.offset = false ∧ inst.offset = offset
  · obtain ⟨hhandler, rfl⟩ := hmeets
    have hcode : done.map (·.instruction) ++ [inst] <+: method.code :=
      ⟨rest, by rw [← h.code_eq]; simp⟩
    rcases reach_fault fails with ⟨htrue, _⟩ | ⟨_, harriving⟩ | ⟨⟨slots, hshown⟩, _⟩
    · exact absurd (htrue.symm.trans hhandler) nofun
    · obtain ⟨_, _, _, _, rfl⟩ := arriving_fault harriving
      exact ⟨_, _, _, rfl⟩
    · -- Here the stacks have met, so they are of one depth.
      obtain ⟨met, harriving, _⟩ := arriving_of_shown hhandler hshown
      have hbehind := h.behind hascending
      rw [h.trail.length_of_arriving hbehind harriving (hleft.brings hascending hcode hfirst),
        h.trail.length_of_arriving hbehind harriving (hright.brings hascending hcode hsecond)]
        at hdepths
      exact absurd rfl hdepths
  · refine absurd (h.agree hascending hdone hfirst hsecond hleft hright ?_) hdepths
    intro next hnext hhandler hoffset
    cases hnext
    exact hmeets ⟨hhandler, hoffset⟩

/-- If they do not meet behind an instruction, then it shows where the
instruction hands on its own. -/
theorem isMismatch_of_leaving (h : method.WalksTo done (inst :: rest) fallsThrough stack)
    (hascending : method.Ascending) {reached : OperandStack}
    (reaches : method.reach method.loopHeads fallsThrough inst stack = .ok visit reached)
    (fails : inst.leave reached = .error fault failed)
    (hdone : ∀ earlier ∈ done ++ [visit], earlier ∈ method.walk.visits)
    (hdisagree : method.Disagree (done ++ [visit])) : fault.IsMismatch := by
  obtain ⟨first, hfirst, second, hsecond, offset, left, right, hleft, hright, hdepths⟩ := hdisagree
  have hreached := reach_ok reaches
  obtain rfl := hreached.instruction
  rcases Instruction.leave_fault fails with happly | ⟨applied, _, hnotes⟩
  · -- The last visit leaves nothing, so the stacks come from before it.
    have hearlier : ∀ {source : Visit} {slots : List Slot}, source ∈ done ++ [visit] →
        method.Leaves source slots → source ∈ done := by
      intro source slots hsource hleaves
      rcases List.mem_append.1 hsource with hsource | hsource
      · exact hsource
      · rw [List.mem_singleton.1 hsource] at hleaves
        obtain ⟨_, happlied⟩ := h.exists_apply reaches hleaves
        cases happly.symm.trans happlied
    refine absurd (h.agree hascending (fun earlier hmem => hdone earlier (by simp [hmem]))
      (hearlier hfirst hleft.leaves) (hearlier hsecond hright.leaves) hleft hright ?_) hdepths
    intro next hnext hhandler hoffset
    cases hnext
    subst hoffset
    have hvisited := hdone visit (by simp)
    rw [← length_of_forwards hascending (hdone first hfirst) hvisited hhandler hleft,
      ← length_of_forwards hascending (hdone second hsecond) hvisited hhandler hright] at hdepths
    exact hdepths rfl
  · obtain ⟨_, _, _, _, _, rfl⟩ := notes_fault hnotes
    exact ⟨_, _, _, rfl⟩

end WalksTo

/-- A walk that ends with a mismatch has handed on stacks that do not meet. -/
theorem Ending.disagree {walk : Walk} (h : method.Ending walk) (hascending : method.Ascending)
    {fault : WalkFault} (hfault : walk.fault = some fault)
    (hmismatch : fault.fault.IsMismatch) : method.Disagree walk.visits := by
  cases h with
  | complete walks => cases hfault
  | arriving walks fails =>
    cases hfault
    rcases reach_fault fails with ⟨_, _, rfl⟩ | ⟨hhandler, harriving⟩ | ⟨_, hcounts⟩
    · obtain ⟨_, _, _, hfull⟩ := hmismatch
      cases hfull
    · exact walks.disagree_of_arriving hascending hhandler harriving
    · exact absurd hmismatch (Instruction.not_isMismatch_of_stackEffect hcounts)
  | leaving walks reaches fails =>
    cases hfault
    rcases Instruction.leave_fault fails with happly | ⟨applied, happly, hnotes⟩
    · obtain ⟨hbounded, _⟩ := walks.of_reach reaches
      exact absurd hmismatch
        (Instruction.not_isMismatch_of_apply (reach_ok reaches).effect hbounded.current happly)
    · exact walks.disagree_of_notes hascending reaches happly hnotes

/-- A walk whose visits hand on stacks that do not meet ends with a
mismatch. -/
theorem Ending.isMismatch {walk : Walk} (h : method.Ending walk) (hascending : method.Ascending)
    (hvisits : ∀ visit ∈ walk.visits, visit ∈ method.walk.visits)
    (hdisagree : method.Disagree walk.visits) :
    ∃ fault, walk.fault = some fault ∧ fault.fault.IsMismatch := by
  cases h with
  | complete walks =>
    obtain ⟨first, hfirst, second, hsecond, offset, left, right, hleft, hright, hdepths⟩ :=
      hdisagree
    refine absurd (walks.agree hascending hvisits hfirst hsecond hleft hright ?_) hdepths
    exact fun next hnext => nomatch hnext
  | arriving walks fails =>
    exact ⟨_, rfl, walks.isMismatch_of_arriving hascending fails hvisits hdisagree⟩
  | leaving walks reaches fails =>
    exact ⟨_, rfl, walks.isMismatch_of_leaving hascending reaches fails hvisits hdisagree⟩

/-! ## Depths at targets -/

/-- The head of a loop shows the layout of its stack and no more. -/
theorem slots_of_loopHead (hascending : method.Ascending) (hvisit : visit ∈ method.walk.visits)
    (hhandler : method.isHandler visit.instruction.offset = false)
    (hhead : visit.instruction.offset ∈ method.loopHeads) :
    visit.slots.map Slot.forget = visit.slots := by
  obtain ⟨before, later, hvisits⟩ := List.append_of_mem hvisit
  obtain ⟨slots, _, hslots⟩ := joined_of_visit hascending hvisits hhandler
  rw [hslots, if_pos (List.contains_iff_mem.2 hhead), List.map_map]
  refine List.map_congr_left fun slot _ => ?_
  cases slot <;> rfl

/-- A walk that comes to the end of the code has visited every instruction,
and every instruction has left a stack. -/
theorem exists_visit_of_completes (h : method.walk.completes = true)
    (hinst : inst ∈ method.code) :
    ∃ visit ∈ method.walk.visits, visit.instruction = inst ∧ ∃ slots, method.Leaves visit slots := by
  obtain ⟨_, _, walks⟩ := walksTo_of_completes h
  have hcode := walks.code_eq
  rw [List.append_nil] at hcode
  rw [← hcode] at hinst
  obtain ⟨visit, hvisit, hsame⟩ := List.mem_map.1 hinst
  obtain ⟨slots, hleaves, _⟩ := walks.trail.existsUnique_leaves visit hvisit
  exact ⟨visit, hvisit, hsame, slots, hleaves⟩

/-- Depths match wherever control goes forward, and only there they are
compared.

* If the walk comes to the end of the code, then every instruction that is no
  handler is entered with the depth that any jump forward to it leaves, and
  with the depth that the instruction before leaves, if it falls through.
* The target of a jump back is entered with the layout of what control brings
  forward.  What the jump back brings has no part in it.
* The method is given up with a mismatch of depths exactly if two visits hand
  stacks of different depths forward to one offset. -/
theorem meets_forward (hascending : method.Ascending) :
    (method.walk.completes = true → ∀ inst ∈ method.code,
      ∃ source ∈ method.walk.visits, source.instruction = inst ∧
        ∃ slots, method.Leaves source slots ∧
          ∀ landing ∈ method.code, method.isHandler landing.offset = false →
            landing.offset ∈ inst.forwardTargets ∨
              [inst, landing] <:+: method.code ∧ inst.fallsThrough = true →
            ∃ target ∈ method.walk.visits, target.instruction = landing ∧
              target.slots.length = slots.length) ∧
    (∀ visit ∈ method.walk.visits, visit.instruction.offset ∈ method.loopHeads →
      method.isHandler visit.instruction.offset = false →
      visit.slots.map Slot.forget = visit.slots) ∧
    ((∃ stop offset incoming recorded,
        method.walk.fault = some ⟨stop, .depthMismatch offset incoming recorded⟩) ↔
      method.Disagree method.walk.visits) := by
  refine ⟨fun hcompletes inst hinst => ?_, fun visit hvisit hhead hhandler =>
    slots_of_loopHead hascending hvisit hhandler hhead, ?_, fun hdisagree => ?_⟩
  · obtain ⟨source, hsource, rfl, slots, hleaves⟩ := exists_visit_of_completes hcompletes hinst
    refine ⟨source, hsource, rfl, slots, hleaves, fun landing hlanding hhandler hgoes => ?_⟩
    obtain ⟨target, htarget, rfl, _⟩ := exists_visit_of_completes hcompletes hlanding
    have hforwards : method.Forwards source target.instruction.offset slots := by
      rcases hgoes with hjump | ⟨hadjacent, hfalls⟩
      · exact .jump hjump hleaves
      · exact .fall hadjacent hfalls hhandler hleaves
    exact ⟨target, htarget, rfl, length_of_forwards hascending hsource htarget hhandler hforwards⟩
  · rintro ⟨_, offset, incoming, recorded, hfault⟩
    exact method.ending.disagree hascending hfault ⟨offset, incoming, recorded, rfl⟩
  · obtain ⟨⟨stop, fault⟩, hfault, offset, incoming, recorded, rfl⟩ :=
      method.ending.isMismatch hascending (fun _ => id) hdisagree
    exact ⟨stop, offset, incoming, recorded, hfault⟩

/-- One arm of a conditional pushes a value, and the other does not. -/
def unevenArms : Method where
  name := "choose"
  descriptor := "(Z)V"
  maxStack := some 1
  code := [⟨0, 0x1a, .none⟩, ⟨1, 0x99, .branch 5⟩, ⟨4, .iconst0, .none⟩, ⟨5, .voidReturn, .none⟩]
  lines := []
  handlers := []

/-- A loop that compares two strings and leaves the result on the stack each
time round. -/
def pilesUp : Method where
  name := "spin"
  descriptor := "(Ljava/lang/String;)V"
  maxStack := some 2
  code :=
    [ ⟨0, 0x2a, .none⟩
    , ⟨1, .ldc, .constant (.string "a")⟩
    , ⟨3, .invokevirtual, .call ⟨.virtual, "java/lang/String", "equals", "(Ljava/lang/Object;)Z"⟩⟩
    , ⟨6, .goto, .branch 0⟩ ]
  lines := []
  handlers := []

/-- The arms disagree where they meet.  In the loop, the instruction at 1
leaves what the call at 3 is entered with. -/
theorem unevenArms_disagree :
    unevenArms.Ascending ∧ unevenArms.walk.fault = some ⟨5, .depthMismatch 5 1 0⟩ ∧
      unevenArms.Disagree unevenArms.walk.visits ∧
      pilesUp.Ascending ∧ pilesUp.walk.completes = true ∧
      ∃ source ∈ pilesUp.walk.visits, source.instruction.offset = 1 ∧
        ∃ slots, pilesUp.Leaves source slots ∧
          ∃ target ∈ pilesUp.walk.visits, target.instruction.offset = 3 ∧
            target.slots.length = slots.length := by
  have hfault : unevenArms.walk.fault = some ⟨5, .depthMismatch 5 1 0⟩ := by decide +kernel
  have hcompletes : pilesUp.walk.completes = true := by decide +kernel
  have hliteral : ⟨1, .ldc, .constant (.string "a")⟩ ∈ pilesUp.code := by decide
  obtain ⟨source, hsource, hinst, slots, hleaves, hlandings⟩ :=
    (meets_forward (by decide)).1 hcompletes _ hliteral
  obtain ⟨target, htarget, hcall, hdepth⟩ :=
    hlandings pilesUp.code[2] (by decide) (by decide) (Or.inr ⟨by decide, by decide⟩)
  refine ⟨by decide, hfault, (meets_forward (by decide)).2.2.1 ⟨5, 5, 1, 0, hfault⟩, by decide,
    hcompletes, source, hsource, ?_, slots, hleaves, target, htarget, ?_, hdepth⟩
  · rw [hinst]
  · rw [hcall]
    rfl

/-- A jump back may bring more slots than its target was entered with.  The
walk comes to the end of the code all the same. -/
theorem pilesUp_completes :
    pilesUp.Ascending ∧ pilesUp.walk.completes = true ∧
      ∃ source ∈ pilesUp.walk.visits, ∃ target ∈ pilesUp.walk.visits,
        target.instruction.offset ∈ source.instruction.backwardTargets ∧
        pilesUp.isHandler target.instruction.offset = false ∧
        ∃ slots, pilesUp.Leaves source slots ∧ target.slots.length = 0 ∧ slots.length = 1 := by
  refine ⟨by decide, by decide +kernel, ⟨⟨6, .goto, .branch 0⟩, [.unknown], ⟨0, 0⟩⟩,
    by decide +kernel, ⟨⟨0, 0x2a, .none⟩, [], ⟨0, 1⟩⟩, by decide +kernel, by decide, by decide,
    [.unknown], ⟨⟨[.unknown], some 2, []⟩, ⟨[.unknown], some 2, []⟩, rfl, rfl, ?_, rfl⟩, rfl, rfl⟩
  rfl

end Method

end BytecodeLint
