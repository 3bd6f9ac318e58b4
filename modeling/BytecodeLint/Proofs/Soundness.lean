import BytecodeLint.Proofs.Visits
import BytecodeLint.Proofs.Origin
import Mathlib.Data.List.Basic

/-!
# The symbolic stack tells the truth

Detectors trust what the slots of a visit say about the values on the
operand stack.  This module shows that they may: on whatever path control
comes to the instruction, with whatever branches taken and loops run round,
the value `k` below the top has the origin that slot `k` tells of.

The walk goes over the code once and never round a loop.  What makes it
sound is that the head of a loop forgets everything, so a jump back has
nothing to contradict, and that every other jump goes forward, so the walk
has seen its source before it comes to the target.

There are four groups.

* `Slot.TrueOf` is what a slot says, and `Describes` says it of a whole
  stack.
* What an instruction does to a stack that is described.
* Joins and layouts.
* `describes_of_reaches` is the result, by induction on the path.
-/

namespace BytecodeLint

open OperandStack

/-! ## What a slot says -/

namespace Constant

/-- The constant with a floating zero made positive. -/
def unsignedZero : Constant → Constant
  | float bits => if bits.toNat % FloatFormat.single.sign = 0 then float 0 else float bits
  | double bits => if bits.toNat % FloatFormat.double.sign = 0 then double 0 else double bits
  | literal => literal

/-- Constants that agree are equal up to the sign of a floating zero. -/
theorem unsignedZero_eq_of_agrees {left right : Constant} (h : left.agrees right = true) :
    left.unsignedZero = right.unsignedZero := by
  cases left <;> cases right <;> try (rw [eq_of_beq h])
  case float.float l r =>
    simp only [agrees, FloatFormat.agree, Bool.and_eq_true, Bool.or_eq_true, beq_iff_eq] at h
    rcases h.2 with heq | ⟨hl, hr⟩
    · rw [UInt32.toNat_inj.1 heq]
    · simp only [unsignedZero, if_pos hl, if_pos hr]
  case double.double l r =>
    simp only [agrees, FloatFormat.agree, Bool.and_eq_true, Bool.or_eq_true, beq_iff_eq] at h
    rcases h.2 with heq | ⟨hl, hr⟩
    · rw [UInt64.toNat_inj.1 heq]
    · simp only [unsignedZero, if_pos hl, if_pos hr]

end Constant

/-- What a provenance says of an origin.  An unknown provenance says
nothing. -/
def Provenance.TrueOf : Provenance → Origin → Prop
  | .unknown, _ => True
  | .localVar index, .localVar loaded => index = loaded
  | .field ref true, .staticField read => ref = read
  | .fieldOf ref false receiver, .instanceField read object => ref = read ∧ receiver.TrueOf object
  | _, _ => False

namespace Slot

/-- What a slot says of the origin of the value in its place.  Constants
are compared up to the sign of a floating zero. -/
def TrueOf : Slot → Origin → Prop
  | value source, origin => source.TrueOf origin
  | continuation, _ => True
  | constant literal, .constant pushed => literal.unsignedZero = pushed.unsignedZero
  | fresh offset, .allocated created => offset = created
  | _, _ => False

/-- The slot is true of an entry of the stack.  A slot that says nothing
may stand where there is no entry. -/
def HoldsAt (slot : Slot) (entry : Option Origin) : Prop :=
  slot.forget = slot ∨ ∃ origin, entry = some origin ∧ slot.TrueOf origin

theorem holdsAt_forget (slot : Slot) (entry : Option Origin) : slot.forget.HoldsAt entry := by
  cases slot <;> exact Or.inl rfl

theorem holdsAt_unknown (entry : Option Origin) : unknown.HoldsAt entry :=
  Or.inl rfl

variable {slot : Slot}

theorem TrueOf.holdsAt {origin : Origin} (h : slot.TrueOf origin) : slot.HoldsAt (some origin) :=
  Or.inr ⟨origin, rfl, h⟩

/-- What a slot tells of the receiver of a field is true of the object. -/
theorem HoldsAt.provenance {origin : Origin} (h : slot.HoldsAt (some origin)) :
    slot.provenance.TrueOf origin := by
  rcases h with hforget | ⟨found, hfound, h⟩
  · rw [← hforget]
    cases slot <;> trivial
  · cases hfound
    cases slot with
    | value source => exact h
    | continuation => trivial
    | constant literal => trivial
    | fresh offset => trivial

/-- Slots that agree say the same. -/
theorem HoldsAt.of_agrees {other : Slot} {entry : Option Origin} (h : other.HoldsAt entry)
    (hagrees : slot.agrees other = true) : slot.HoldsAt entry := by
  cases slot with
  | constant literal =>
    cases other with
    | constant known =>
      rcases h with hforget | ⟨origin, rfl, h⟩
      · cases hforget
      · refine Or.inr ⟨origin, rfl, ?_⟩
        have hsame := Constant.unsignedZero_eq_of_agrees hagrees
        cases origin with
        | constant pushed => exact hsame.trans h
        | _ => exact h
    | _ => cases hagrees
  | _ =>
    rw [agrees, beq_iff_eq] at hagrees
    · rw [hagrees]
      exact h
    · simp

theorem HoldsAt.join_left {other : Slot} {entry : Option Origin} (h : slot.HoldsAt entry) :
    (slot.join other).HoldsAt entry := by
  unfold join
  split
  · exact h
  · exact holdsAt_unknown entry

theorem HoldsAt.join_right {other : Slot} {entry : Option Origin} (h : other.HoldsAt entry) :
    (slot.join other).HoldsAt entry := by
  unfold join
  split
  · exact h.of_agrees ‹_›
  · exact holdsAt_unknown entry

theorem HoldsAt.replaced {entry : Option Origin} (h : slot.HoldsAt entry) (offset : Nat) :
    (replaced offset unknown slot).HoldsAt entry := by
  unfold OperandStack.replaced
  split
  · exact holdsAt_unknown entry
  · exact h

end Slot

/-- Every slot is true of the value in its place. -/
def Describes (slots : List Slot) (stack : List Origin) : Prop :=
  ∀ (below : Nat) (slot : Slot), slots[below]? = some slot → slot.HoldsAt stack[below]?

namespace Describes

variable {slots heads : List Slot} {stack origins : List Origin}

/-- Slots that say nothing describe every stack. -/
theorem of_forgotten (h : ∀ slot ∈ slots, slot.forget = slot) (stack : List Origin) :
    Describes slots stack :=
  fun _ slot hslot => Or.inl (h slot (List.mem_of_getElem? hslot))

theorem nil (stack : List Origin) : Describes [] stack :=
  of_forgotten (fun _ hslot => absurd hslot List.not_mem_nil) stack

theorem forget (slots : List Slot) (stack : List Origin) :
    Describes (slots.map Slot.forget) stack := by
  intro below slot hslot
  rw [List.getElem?_map] at hslot
  obtain ⟨old, _, rfl⟩ := Option.map_eq_some_iff.1 hslot
  exact old.holdsAt_forget _

theorem append (hheads : Describes heads origins) (hlength : heads.length = origins.length)
    (h : Describes slots stack) : Describes (heads ++ slots) (origins ++ stack) := by
  intro below slot hslot
  by_cases hbelow : below < heads.length
  · rw [List.getElem?_append_left hbelow] at hslot
    rw [List.getElem?_append_left (hlength ▸ hbelow)]
    exact hheads below slot hslot
  · rw [List.getElem?_append_right (Nat.not_lt.1 hbelow)] at hslot
    rw [List.getElem?_append_right (hlength ▸ Nat.not_lt.1 hbelow), ← hlength]
    exact h _ slot hslot

theorem drop (h : Describes slots stack) (count : Nat) :
    Describes (slots.drop count) (stack.drop count) := by
  intro below slot hslot
  rw [List.getElem?_drop] at hslot ⊢
  exact h _ slot hslot

theorem take (h : Describes slots stack) (count : Nat) :
    Describes (slots.take count) (stack.take count) := by
  intro below slot hslot
  rw [List.getElem?_take] at hslot ⊢
  by_cases hbelow : below < count
  · rw [if_pos hbelow] at hslot ⊢
    exact h below slot hslot
  · rw [if_neg hbelow] at hslot
    cases hslot

/-- The values of stacks that are deep enough, with the rest of the stacks
described. -/
theorem take_append (h : Describes heads origins) {count : Nat} (hslots : count ≤ heads.length)
    (horigins : count ≤ origins.length) (hrest : Describes slots stack) :
    Describes (heads.take count ++ slots) (origins.take count ++ stack) := by
  refine (h.take count).append ?_ hrest
  rw [List.length_take_of_le hslots, List.length_take_of_le horigins]

theorem cons {slot : Slot} {origin : Origin} (hslot : slot.TrueOf origin)
    (h : Describes slots stack) : Describes (slot :: slots) (origin :: stack) := by
  intro below known hknown
  cases below with
  | zero =>
    cases hknown
    exact hslot.holdsAt
  | succ below => exact h below known hknown

end Describes

/-! ## What an instruction does -/

section Execution

variable {slots : List Slot} {stack : List Origin}

theorem Describes.value {slot : Slot} {origin : Origin} (hslot : slot.TrueOf origin)
    (h : Describes slots stack) (width : Nat) :
    Describes (valueSlots slot width ++ slots) (origin.entries width ++ stack) := by
  unfold valueSlots Origin.entries
  by_cases hwide : width = 2
  · rw [if_pos hwide, if_pos hwide]
    exact .cons hslot (.cons trivial h)
  · rw [if_neg hwide, if_neg hwide]
    exact .cons hslot h

theorem Describes.result (h : Describes slots stack) (count : Nat) :
    Describes (resultSlots count ++ slots) (Origin.results count ++ stack) := by
  unfold resultSlots Origin.results
  by_cases hnone : count = 0
  · rw [if_pos hnone, if_pos hnone]
    exact h
  · rw [if_neg hnone, if_neg hnone]
    have hunknown : Slot.unknown.TrueOf .other := trivial
    exact h.value hunknown count

/-- The call of a constructor makes the walk forget, and takes no object
its origin. -/
theorem Describes.called (h : Describes slots stack) (inst : Instruction) (popped : List Slot) :
    Describes (inst.calledSlots popped slots) stack := by
  unfold Instruction.calledSlots
  split
  · split
    · intro below slot hslot
      rw [List.getElem?_map] at hslot
      obtain ⟨old, hold, rfl⟩ := Option.map_eq_some_iff.1 hslot
      exact (h below old hold).replaced _
    · exact h
  · exact h

private theorem Describes.swapped (h : Describes slots stack) (hslots : 2 ≤ slots.length)
    (hstack : 2 ≤ stack.length) :
    Describes (exchanged slots) (stack.tail.take 1 ++ stack.take 1 ++ stack.drop 2) := by
  have hparts : exchanged slots = (slots.drop 1).take 1 ++ (slots.take 1 ++ slots.drop 2) := by
    match slots, hslots with
    | _ :: _ :: _, _ => rfl
  rw [hparts, ← List.drop_one, List.append_assoc]
  refine (h.drop 1).take_append ?_ ?_ (h.take_append (by omega) (by omega) (h.drop 2))
  · rw [List.length_drop]
    omega
  · rw [List.length_drop]
    omega

private theorem Describes.receiver (h : Describes slots stack) (hslots : 1 ≤ slots.length)
    (hstack : 1 ≤ stack.length) :
    ((slots.head?.map Slot.provenance).getD .unknown).TrueOf (stack.head?.getD .other) := by
  match slots, stack, hslots, hstack with
  | slot :: _, origin :: _, _, _ => exact (h 0 slot rfl).provenance

/-- Slots that describe a stack describe it after the instruction too. -/
theorem Describes.slotsAfter {inst : Instruction} {effect : Effect} {counts : StackEffect}
    (h : Describes slots stack) (hcounts : inst.countSlots effect = .ok counts)
    (hslots : counts.pops ≤ slots.length) (hstack : counts.pops ≤ stack.length) :
    Describes (inst.slotsAfter counts slots effect) (inst.originsAfter counts stack effect) := by
  cases effect with
  | pushConstant width =>
    refine h.value ?_ width
    exact rfl
  | loadLocal width =>
    refine h.value ?_ width
    unfold Instruction.loaded Instruction.loadOrigin
    cases inst.local?.or inst.opcode.heldLocal? with
    | some index => exact rfl
    | none => trivial
  | dup copy under =>
    cases hcounts
    simp only [Instruction.slotsAfter, Instruction.originsAfter, List.append_assoc]
    have hcopied := h.take_append (Nat.le_of_add_right_le hslots) (Nat.le_of_add_right_le hstack)
      (h.drop (copy + under))
    exact h.take_append hslots hstack hcopied
  | swap =>
    cases hcounts
    exact h.swapped hslots hstack
  | getStatic =>
    simp only [Instruction.slotsAfter, Instruction.originsAfter]
    cases inst.field? with
    | none => exact h
    | some ref =>
      have hread : (Slot.value (.field ref true)).TrueOf (.staticField ref) := rfl
      exact h.value hread counts.pushes
  | getField =>
    simp only [Instruction.countSlots, Instruction.accessedSlots] at hcounts
    simp only [Instruction.slotsAfter, Instruction.originsAfter]
    cases hfield : inst.field? with
    | none => exact h
    | some ref =>
      rw [hfield] at hcounts
      cases hcounts
      rw [← List.drop_one]
      have hread : (Slot.value (.fieldOf ref false _)).TrueOf (.instanceField ref _) :=
        ⟨rfl, h.receiver hslots hstack⟩
      exact (h.drop 1).value hread _
  | invoke => exact ((h.drop counts.pops).called inst _).result counts.pushes
  | allocate => exact .cons rfl h
  | checkCast => exact h
  | replace pops pushes => exact (h.drop counts.pops).result counts.pushes
  | putStatic => exact (h.drop counts.pops).result counts.pushes
  | putField => exact (h.drop counts.pops).result counts.pushes
  | invokeDynamic => exact (h.drop counts.pops).result counts.pushes
  | allocateArrays => exact (h.drop counts.pops).result counts.pushes

/-- What a visit leaves describes what an execution leaves. -/
theorem Method.Leaves.describes {method : Method} {visit : Visit} {left : List Slot}
    {after : List Origin} (h : method.Leaves visit left) (hvisit : Describes visit.slots stack)
    (hexecute : visit.instruction.execute? stack = some after) : Describes left after := by
  obtain ⟨found, applied, hfound, _, happly, rfl⟩ := h
  obtain ⟨effect, counts, heffect, hcounts, hdepth, rfl⟩ := Instruction.apply_ok happly
  obtain ⟨hstack, rfl⟩ := Instruction.execute?_eq_some heffect hcounts hexecute
  rw [withSlots_slots]
  rw [← hfound] at hvisit
  exact hvisit.slotsAfter hcounts hdepth hstack

end Execution

/-! ## Joins and layouts -/

/-- A join describes whatever one of its stacks describes. -/
theorem Joined.describes {sources : Set (List Slot)} {slots : List Slot} {stack : List Origin}
    (h : Joined sources slots) :
    ∀ source ∈ sources, Describes source stack → Describes slots stack := by
  induction h with
  | single slots =>
    intro source hsource hdescribes
    rw [Set.mem_singleton_iff.1 hsource] at hdescribes
    exact hdescribes
  | join _ _ _ ihIncoming ihWaiting =>
    intro source hsource hdescribes below slot hslot
    rw [List.getElem?_zipWith_eq_some] at hslot
    obtain ⟨left, right, hleft, hright, rfl⟩ := hslot
    rcases hsource with hsource | hsource
    · exact (ihIncoming source hsource hdescribes below left hleft).join_left
    · exact (ihWaiting source hsource hdescribes below right hright).join_right

namespace Method

variable {method : Method} {before later : List Visit} {visit : Visit} {stack : List Origin}

theorem describes_of_handler (h : method.walk.visits = before ++ visit :: later)
    (hhandler : method.isHandler visit.instruction.offset = true) :
    Describes visit.slots stack := by
  rw [slots_of_handler h hhandler]
  refine .of_forgotten (fun slot hslot => ?_) stack
  rw [List.mem_singleton.1 hslot]
  rfl

/-- At the head of a loop the walk has forgotten whatever a jump back could
contradict. -/
theorem describes_of_loopHead (hascending : method.Ascending)
    (h : method.walk.visits = before ++ visit :: later)
    (hhead : visit.instruction.offset ∈ method.loopHeads) : Describes visit.slots stack := by
  cases hhandler : method.isHandler visit.instruction.offset with
  | true => exact describes_of_handler h hhandler
  | false =>
    obtain ⟨slots, _, hslots⟩ := joined_of_visit hascending h hhandler
    rw [hslots, if_pos (List.contains_iff_mem.2 hhead)]
    exact .forget slots stack

/-- If a stack that control brings to a visit is described, then so is the
stack at the visit. -/
theorem Brings.describes {source : List Slot}
    (hbrings : method.Brings before visit.instruction source) (hsource : Describes source stack)
    (hascending : method.Ascending) (h : method.walk.visits = before ++ visit :: later) :
    Describes visit.slots stack := by
  cases hhandler : method.isHandler visit.instruction.offset with
  | true => exact describes_of_handler h hhandler
  | false =>
    obtain ⟨slots, hjoined, hslots⟩ := joined_of_visit hascending h hhandler
    rw [hslots]
    split
    · exact .forget slots stack
    · rcases hjoined with ⟨hnone, _⟩ | hjoined
      · exact absurd hbrings (hnone source)
      · exact hjoined.describes source hbrings hsource

/-! ## Paths -/

/-- The invariant of an execution: control is at an instruction of the
method, and the visit of this instruction describes the stack. -/
structure Faithful (method : Method) (frame : Frame) : Prop where
  declared : frame.instruction ∈ method.code
  described : ∀ visit ∈ method.walk.visits, visit.instruction = frame.instruction →
    Describes visit.slots frame.stack

theorem faithful_first (hascending : method.Ascending) {first : Instruction}
    (hfirst : method.code.head? = some first) : method.Faithful ⟨first, []⟩ where
  declared := List.mem_of_mem_head? hfirst
  described := by
    rintro visit hvisit rfl
    obtain ⟨before, later, h⟩ := List.append_of_mem hvisit
    obtain ⟨_, _, _, _, hcode, _⟩ := exists_trail h
    have hnone : before = [] := hascending.nil_of_first hcode hfirst
    exact (Brings.entry hnone).describes (.nil []) hascending h

/-- What an instruction leaves describes the stack after it, if the
instruction was visited in time. -/
private theorem Faithful.leaves {frame : Frame} {after : List Origin} {earlier : Visit}
    (h : method.Faithful frame) (hvisits : method.walk.visits = before ++ visit :: later)
    (hearlier : earlier ∈ before) (hinst : earlier.instruction = frame.instruction)
    (hexecute : frame.instruction.execute? frame.stack = some after) :
    ∃ slots, method.Leaves earlier slots ∧ Describes slots after := by
  obtain ⟨_, _, _, htrail, _, _⟩ := exists_trail hvisits
  obtain ⟨slots, hleaves, _⟩ := htrail.existsUnique_leaves earlier hearlier
  have hmem : earlier ∈ method.walk.visits := hvisits ▸ List.mem_append_left _ hearlier
  have hdescribed := h.described earlier hmem hinst
  exact ⟨slots, hleaves, hleaves.describes hdescribed (hinst ▸ hexecute)⟩

theorem Faithful.step (hascending : method.Ascending)
    (hsubroutine : ∀ inst ∈ method.code, inst.opcode ∉ Opcode.subroutine) {frame next : Frame}
    (h : method.Faithful frame) (hstep : method.Steps frame next) : method.Faithful next := by
  cases hstep with
  | next adjacent conditional executed =>
    refine ⟨adjacent.subset (by simp), ?_⟩
    rintro visit hvisit rfl
    obtain ⟨before, later, hvisits⟩ := List.append_of_mem hvisit
    obtain ⟨_, _, _, _, hcode, _⟩ := exists_trail hvisits
    obtain ⟨earlier, last, hbefore, hlast⟩ := hascending.last_before hcode adjacent
    have hmem : last ∈ before := hbefore ▸ List.mem_append_right _ (List.mem_singleton_self _)
    obtain ⟨slots, hleaves, hslots⟩ := h.leaves hvisits hmem hlast executed
    have hfalls : last.instruction.fallsThrough = true := by
      rw [hlast]
      exact Opcode.fallsThrough_of_conditional conditional (hsubroutine _ h.declared)
    exact (Brings.next hbefore hfalls hleaves).describes hslots hascending hvisits
  | @jump inst _ _ _ declared target executed =>
    refine ⟨declared, ?_⟩
    rintro visit hvisit rfl
    obtain ⟨before, later, hvisits⟩ := List.append_of_mem hvisit
    obtain ⟨_, _, _, _, hcode, _⟩ := exists_trail hvisits
    by_cases hforward : inst.offset < visit.instruction.offset
    · obtain ⟨source, hmem, hsource⟩ := hascending.mem_before hcode h.declared hforward
      obtain ⟨slots, hleaves, hslots⟩ := h.leaves hvisits hmem hsource executed
      exact (Brings.jump hmem (hsource ▸ target) hleaves).describes hslots hascending hvisits
    · have hback : visit.instruction.offset ∈ inst.backwardTargets :=
        List.mem_filter.2 ⟨target, decide_eq_true (Nat.not_lt.1 hforward)⟩
      have hhead : visit.instruction.offset ∈ method.loopHeads :=
        List.mem_flatMap.2 ⟨inst, h.declared, hback⟩
      exact describes_of_loopHead hascending hvisits hhead
  | caught declared isHandler =>
    refine ⟨declared, ?_⟩
    rintro visit hvisit rfl
    obtain ⟨before, later, hvisits⟩ := List.append_of_mem hvisit
    exact describes_of_handler hvisits isHandler

/-- Whatever a visit shows of the stack is true on every path that comes to
its instruction. -/
theorem describes_of_reaches (hascending : method.Ascending)
    (hsubroutine : ∀ inst ∈ method.code, inst.opcode ∉ Opcode.subroutine)
    (hvisit : visit ∈ method.walk.visits)
    (hreaches : method.Reaches ⟨visit.instruction, stack⟩) : Describes visit.slots stack := by
  obtain ⟨first, hfirst, hsteps⟩ := hreaches
  have hfaithful : ∀ frame, Relation.ReflTransGen method.Steps ⟨first, []⟩ frame →
      method.Faithful frame := by
    intro frame hsteps
    induction hsteps with
    | refl => exact faithful_first hascending hfirst
    | tail _ hstep ih => exact ih.step hascending hsubroutine hstep
  exact (hfaithful _ hsteps).described visit hvisit rfl

/-- An object is allocated before a loop, and the loop loads a local
variable until it is zero. -/
def allocateAndSpin : Method where
  name := "spin"
  descriptor := "(I)V"
  maxStack := some 2
  code :=
    [ ⟨0, .new, .type "java/lang/Object"⟩
    , ⟨3, 0x1a, .none⟩
    , ⟨4, 0x9a, .branch 3⟩
    , ⟨7, .pop, .none⟩
    , ⟨8, .voidReturn, .none⟩ ]
  lines := []
  handlers := []

/-- The second time round the loop, the local variable is still on top of
the stack.  The walk has forgotten the object below it. -/
theorem allocateAndSpin_describes :
    allocateAndSpin.Ascending ∧
      (∀ inst ∈ allocateAndSpin.code, inst.opcode ∉ Opcode.subroutine) ∧
      ⟨⟨4, 0x9a, .branch 3⟩, [.value (.localVar 0), .unknown], ⟨1, 0⟩⟩
        ∈ allocateAndSpin.walk.visits ∧
      allocateAndSpin.Reaches ⟨⟨4, 0x9a, .branch 3⟩, [.localVar 0, .allocated 0]⟩ ∧
      Describes [.value (.localVar 0), .unknown] [.localVar 0, .allocated 0] := by
  have hascending : allocateAndSpin.Ascending := by decide
  have hsubroutine : ∀ inst ∈ allocateAndSpin.code, inst.opcode ∉ Opcode.subroutine := by decide
  have hvisit : (⟨⟨4, 0x9a, .branch 3⟩, [.value (.localVar 0), .unknown], ⟨1, 0⟩⟩ : Visit)
      ∈ allocateAndSpin.walk.visits := by decide
  have hload : allocateAndSpin.Steps ⟨⟨3, 0x1a, .none⟩, [.allocated 0]⟩
      ⟨⟨4, 0x9a, .branch 3⟩, [.localVar 0, .allocated 0]⟩ :=
    .next ⟨[⟨0, .new, .type "java/lang/Object"⟩], [⟨7, .pop, .none⟩, ⟨8, .voidReturn, .none⟩], rfl⟩
      (by decide) (by decide)
  have hreaches : allocateAndSpin.Reaches
      ⟨⟨4, 0x9a, .branch 3⟩, [.localVar 0, .allocated 0]⟩ := by
    refine ⟨⟨0, .new, .type "java/lang/Object"⟩, rfl, ?_⟩
    refine .tail (.tail (.tail (.tail .refl ?enter) hload) ?back) hload
    case enter =>
      exact .next ⟨[], _, rfl⟩ (by decide) (by decide)
    case back =>
      exact .jump (by decide) (by decide) (by decide)
  exact ⟨hascending, hsubroutine, hvisit, hreaches,
    describes_of_reaches hascending hsubroutine hvisit hreaches⟩

end Method

end BytecodeLint
