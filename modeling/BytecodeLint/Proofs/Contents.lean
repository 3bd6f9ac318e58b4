import BytecodeLint.Proofs.Trail

/-!
# What can be on the stack

Most operations move slots, forget them, or put values of which at most the
provenance is known.  A literal comes onto the stack only by the load of a
constant, and a fresh object only by an allocation.  So if a property holds
of all values, and of what the instructions of a method bring in, then it
holds of every slot that the walk over the method shows.

The stacks that jumps have recorded are followed as well.  So nothing is
asked of the method: a jump may go anywhere, and the offsets of the code need
not even ascend.

There are three groups.

* `Slot.OfValues`, and the slots that an instruction leaves.
* `OperandStack.Everywhere`: the property holds on the stack and in all that
  is recorded.  Every operation of the walk keeps it.
* `Method.forall_slots_of_visit` is the result.
-/

namespace BytecodeLint

open OperandStack

/-! ## The slots after an instruction -/

/-- The property holds of every slot of which at most the provenance is
known. -/
structure Slot.OfValues (p : Slot → Prop) : Prop where
  value : ∀ source, p (.value source)
  continuation : p .continuation

/-- The property holds of what the instruction brings onto the stack by
itself. -/
structure Instruction.Supplies (inst : Instruction) (p : Slot → Prop) : Prop where
  constant : ∀ width, inst.opcode.effect? = some (.pushConstant width) →
    p (.constant inst.literal)
  fresh : inst.opcode.effect? = some .allocate → p (.fresh inst.offset)

namespace Slot.OfValues

variable {p : Slot → Prop} {slots : List Slot} {inst : Instruction}

theorem forget (h : OfValues p) (slot : Slot) : p slot.forget := by
  cases slot with
  | continuation => exact h.continuation
  | value _ => exact h.value .unknown
  | constant _ => exact h.value .unknown
  | fresh _ => exact h.value .unknown

theorem join (h : OfValues p) {incoming : Slot} (hincoming : p incoming) (recorded : Slot) :
    p (incoming.join recorded) := by
  unfold Slot.join
  split
  · exact hincoming
  · exact h.value .unknown

theorem loaded (h : OfValues p) (inst : Instruction) : p inst.loaded := by
  unfold Instruction.loaded
  split
  · exact h.value _
  · exact h.value .unknown

theorem valueSlots (h : OfValues p) {slot : Slot} (hslot : p slot) (width : Nat) :
    ∀ pushed ∈ valueSlots slot width, p pushed := by
  unfold OperandStack.valueSlots
  split
  · exact List.forall_mem_cons.2 ⟨hslot, List.forall_mem_singleton.2 h.continuation⟩
  · exact List.forall_mem_singleton.2 hslot

theorem resultSlots (h : OfValues p) (count : Nat) : ∀ pushed ∈ resultSlots count, p pushed := by
  unfold BytecodeLint.resultSlots
  split
  · exact List.forall_mem_nil p
  · exact h.valueSlots (h.value .unknown) count

theorem calledSlots (h : OfValues p) (inst : Instruction) (popped : List Slot)
    (hslots : ∀ slot ∈ slots, p slot) : ∀ slot ∈ inst.calledSlots popped slots, p slot := by
  unfold Instruction.calledSlots
  split
  · split
    · refine List.forall_mem_map.2 fun old hold => ?_
      unfold replaced
      split
      · exact h.value .unknown
      · exact hslots old hold
    · exact hslots
  · exact hslots

theorem exchanged (hslots : ∀ slot ∈ slots, p slot) : ∀ slot ∈ exchanged slots, p slot := by
  match slots, hslots with
  | [], hslots => exact hslots
  | [_], hslots => exact hslots
  | first :: second :: rest, hslots =>
    obtain ⟨hfirst, hsecond, hrest⟩ : p first ∧ p second ∧ ∀ slot ∈ rest, p slot := by
      simpa only [List.forall_mem_cons] using hslots
    exact List.forall_mem_cons.2 ⟨hsecond, List.forall_mem_cons.2 ⟨hfirst, hrest⟩⟩

/-- An instruction moves slots, puts values, and brings in a literal or a fresh
object. -/
theorem slotsAfter (h : OfValues p) {effect : Effect}
    (hconstant : ∀ width, effect = .pushConstant width → p (.constant inst.literal))
    (hfresh : effect = .allocate → p (.fresh inst.offset))
    (hslots : ∀ slot ∈ slots, p slot) (counts : StackEffect) :
    ∀ slot ∈ inst.slotsAfter counts slots effect, p slot := by
  have htake (count : Nat) : ∀ slot ∈ slots.take count, p slot :=
    fun slot hslot => hslots slot (List.mem_of_mem_take hslot)
  have hdrop (count : Nat) : ∀ slot ∈ slots.drop count, p slot :=
    fun slot hslot => hslots slot (List.mem_of_mem_drop hslot)
  have hreplaced : ∀ slot ∈ BytecodeLint.resultSlots counts.pushes ++ slots.drop counts.pops,
      p slot := List.forall_mem_append.2 ⟨h.resultSlots _, hdrop _⟩
  cases effect with
  | pushConstant width =>
    exact List.forall_mem_append.2 ⟨h.valueSlots (hconstant width rfl) width, hslots⟩
  | loadLocal width =>
    exact List.forall_mem_append.2 ⟨h.valueSlots (h.loaded inst) width, hslots⟩
  | dup copy under =>
    exact List.forall_mem_append.2
      ⟨List.forall_mem_append.2 ⟨htake _, htake _⟩, hdrop _⟩
  | swap => exact exchanged hslots
  | getStatic =>
    simp only [Instruction.slotsAfter]
    split
    · exact List.forall_mem_append.2 ⟨h.valueSlots (h.value _) _, hslots⟩
    · exact hslots
  | getField =>
    simp only [Instruction.slotsAfter]
    split
    · exact List.forall_mem_append.2 ⟨h.valueSlots (h.value _) _, hdrop 1⟩
    · exact hslots
  | invoke =>
    exact List.forall_mem_append.2 ⟨h.resultSlots _, h.calledSlots inst _ (hdrop _)⟩
  | allocate => exact List.forall_mem_cons.2 ⟨hfresh rfl, hslots⟩
  | checkCast => exact hslots
  | replace _ _ | putStatic | putField | invokeDynamic | allocateArrays => exact hreplaced

end Slot.OfValues

/-! ## The whole stack -/

/-- The property holds of the slots on the stack and of those that jumps have
recorded. -/
structure OperandStack.Everywhere (stack : OperandStack) (p : Slot → Prop) : Prop where
  slots : ∀ slot ∈ stack.slots, p slot
  recorded : ∀ entry ∈ stack.recorded, ∀ slot ∈ entry.2, p slot

namespace OperandStack.Everywhere

variable {p : Slot → Prop} {stack after : OperandStack}

theorem empty (limit : Option Nat) : (OperandStack.empty limit).Everywhere p :=
  ⟨List.forall_mem_nil p, fun _ hentry => absurd hentry List.not_mem_nil⟩

theorem withSlots (h : stack.Everywhere p) {slots : List Slot} (hslots : ∀ slot ∈ slots, p slot) :
    (stack.withSlots slots).Everywhere p :=
  ⟨hslots, h.recorded⟩

theorem dropRecorded (h : stack.Everywhere p) (offset : Nat) :
    (stack.dropRecorded offset).Everywhere p :=
  ⟨h.slots, fun entry hentry => h.recorded entry (List.mem_filter.1 hentry).1⟩

theorem setRecorded (h : stack.Everywhere p) (target : Nat) {joined : List Slot}
    (hjoined : ∀ slot ∈ joined, p slot) : (stack.setRecorded target joined).Everywhere p := by
  refine ⟨h.slots, fun entry hentry => ?_⟩
  rcases List.mem_cons.1 hentry with rfl | hold
  · exact hjoined
  · exact h.recorded entry (List.mem_filter.1 hold).1

theorem recordedAt? (h : stack.Everywhere p) {offset : Nat} {recorded : List Slot}
    (hrecorded : stack.recordedAt? offset = some recorded) : ∀ slot ∈ recorded, p slot := by
  obtain ⟨front, back, hentries, _⟩ := List.lookup_eq_some_iff.1 hrecorded
  exact h.recorded (offset, recorded) (by simp [hentries])

theorem joinSlots (h : stack.Everywhere p) (hvalues : Slot.OfValues p) {target : Nat}
    {recorded joined : List Slot} (hjoin : joinSlots target stack.slots recorded = .ok joined) :
    ∀ slot ∈ joined, p slot := by
  obtain ⟨_, rfl⟩ := joinSlots_ok hjoin
  intro slot hslot
  obtain ⟨below, hbelow, rfl⟩ := List.mem_iff_getElem.1 hslot
  rw [List.getElem_zipWith]
  exact hvalues.join (h.slots _ (List.getElem_mem _)) _

theorem arriving (h : stack.Everywhere p) (hvalues : Slot.OfValues p) {offset : Nat}
    {fallsThrough : Bool} {slots : List Slot}
    (harriving : stack.arriving offset fallsThrough = .ok slots) : ∀ slot ∈ slots, p slot := by
  unfold OperandStack.arriving at harriving
  cases hrecorded : stack.recordedAt? offset with
  | some recorded =>
    rw [hrecorded] at harriving
    cases fallsThrough with
    | true => exact h.joinSlots hvalues harriving
    | false =>
      cases harriving
      exact h.recordedAt? hrecorded
  | none =>
    rw [hrecorded] at harriving
    cases fallsThrough with
    | true =>
      cases harriving
      exact h.slots
    | false =>
      cases harriving
      exact List.forall_mem_nil p

theorem apply (h : stack.Everywhere p) (hvalues : Slot.OfValues p) {inst : Instruction}
    (hsupplies : inst.Supplies p) (happly : inst.apply stack = .ok ⟨⟩ after) :
    after.Everywhere p := by
  obtain ⟨effect, counts, heffect, _, _, rfl⟩ := Instruction.apply_ok happly
  refine h.withSlots (hvalues.slotsAfter (fun width hwidth => ?_) (fun hfresh => ?_) h.slots counts)
  · exact hsupplies.constant width (heffect.trans (congrArg some hwidth))
  · exact hsupplies.fresh (heffect.trans (congrArg some hfresh))

theorem noteJump (h : stack.Everywhere p) (hvalues : Slot.OfValues p) {target : Nat}
    (hnote : noteJump target stack = .ok ⟨⟩ after) : after.Everywhere p := by
  obtain ⟨joined, hjoined, rfl⟩ := noteJump_ok hnote
  refine h.setRecorded target ?_
  split at hjoined
  · rw [hjoined]
    exact h.slots
  · exact h.joinSlots hvalues hjoined

theorem notes (h : stack.Everywhere p) (hvalues : Slot.OfValues p) {targets : List Nat}
    (hnotes : targets.forM OperandStack.noteJump stack = .ok ⟨⟩ after) : after.Everywhere p := by
  induction targets generalizing stack with
  | nil =>
    cases hnotes
    exact h
  | cons target rest ih =>
    have hbind : (OperandStack.noteJump target >>= fun _ => rest.forM OperandStack.noteJump) stack
        = .ok ⟨⟩ after := hnotes
    obtain ⟨_, noted, hnote, hrest⟩ := bind_ok hbind
    exact ih (h.noteJump hvalues hnote) hrest

end OperandStack.Everywhere

/-! ## The walk -/

namespace Method

variable {method : Method} {p : Slot → Prop} {done : List Visit} {fallsThrough : Bool}
  {stack reached : OperandStack} {visit : Visit}

/-- What the walk shows at an instruction has the property. -/
theorem Reached.forall_slots (h : method.Reached fallsThrough visit.instruction stack visit reached)
    (hvalues : Slot.OfValues p) (hstack : stack.Everywhere p) : ∀ slot ∈ visit.slots, p slot := by
  cases hhandler : method.isHandler visit.instruction.offset with
  | true =>
    rw [h.handler hhandler]
    exact List.forall_mem_singleton.2 (hvalues.value .unknown)
  | false =>
    obtain ⟨slots, harriving, hslots⟩ := h.joined hhandler
    rw [hslots]
    split
    · exact List.forall_mem_map.2 fun old _ => hvalues.forget old
    · exact hstack.arriving hvalues harriving

/-- One step of the walk keeps the property, if the instruction brings in
nothing else. -/
theorem Reached.everywhere {after : OperandStack}
    (h : method.Reached fallsThrough visit.instruction stack visit reached)
    (hvalues : Slot.OfValues p) (hsupplies : visit.instruction.Supplies p)
    (hstack : stack.Everywhere p) (hleave : visit.instruction.leave reached = .ok ⟨⟩ after) :
    after.Everywhere p := by
  have hreached : reached.Everywhere p := by
    rw [h.stack]
    exact (hstack.dropRecorded _).withSlots (h.forall_slots hvalues hstack)
  obtain ⟨applied, happly, hnotes⟩ := Instruction.leave_ok hleave
  exact (hreached.apply hvalues hsupplies happly).notes hvalues hnotes

theorem Trail.everywhere (h : method.Trail done fallsThrough stack) (hvalues : Slot.OfValues p)
    (hsupplies : ∀ inst ∈ method.code, inst.Supplies p) : stack.Everywhere p := by
  induction h with
  | start => exact .empty _
  | step trail code arrives leaves ih =>
    refine arrives.everywhere hvalues (hsupplies _ (code.subset ?_)) ih leaves
    exact List.mem_append_right _ (List.mem_singleton_self _)

/-- What holds of all values, and of what the code brings in, holds of every
slot that the walk shows. -/
theorem forall_slots_of_visit (hvalues : Slot.OfValues p)
    (hsupplies : ∀ inst ∈ method.code, inst.Supplies p) (hvisit : visit ∈ method.walk.visits) :
    ∀ slot ∈ visit.slots, p slot := by
  obtain ⟨before, later, hvisits⟩ := List.append_of_mem hvisit
  obtain ⟨_, _, _, htrail, _, hreached⟩ := exists_trail hvisits
  exact hreached.forall_slots hvalues (htrail.everywhere hvalues hsupplies)

end Method

end BytecodeLint
