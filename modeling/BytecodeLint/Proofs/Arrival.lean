import BytecodeLint.Proofs.Trail
import Mathlib.Data.Set.Insert
import Mathlib.Tactic.Tauto

/-!
# The stacks that meet at an instruction

Control comes to an instruction from several others, and each of them
brings a stack.  The walk joins these stacks two by two, in the order in
which it meets the jumps, and it keeps the joins of the targets ahead in a
table.  This module shows that no stack is lost, kept too long or counted
for a wrong target.

There are four groups.

* `Joined` is a join of a set of stacks, taken in some order.
* `Method.Brings` lists the stacks that control brings to an instruction
  from the visits before it.
* `OperandStack.Carries` is the invariant of the table, and
  `Trail.carries` proves it for every trail.
* `joined_of_visit` is the result: what a visit shows is the join of the
  stacks that control brings, and at the head of a loop its layout.
-/

namespace BytecodeLint

open OperandStack

/-! ## Joins of sets of stacks -/

/-- A join of all stacks of a nonempty set, two by two in some order. -/
inductive Joined : Set (List Slot) → List Slot → Prop
  | single (slots : List Slot) : Joined {slots} slots
  | join {sources others slots recorded}
      (incoming : Joined sources slots) (waiting : Joined others recorded)
      (length : slots.length = recorded.length) :
      Joined (sources ∪ others) (List.zipWith Slot.join slots recorded)

/-- All stacks of a join have the same depth. -/
theorem Joined.length_eq {sources : Set (List Slot)} {slots : List Slot}
    (h : Joined sources slots) : ∀ source ∈ sources, source.length = slots.length := by
  induction h with
  | single slots =>
    intro source hsource
    rw [Set.mem_singleton_iff.1 hsource]
  | join _ _ length ihIncoming ihWaiting =>
    intro source hsource
    rw [List.length_zipWith, length, Nat.min_self]
    rcases hsource with hsource | hsource
    · rw [ihIncoming source hsource, length]
    · exact ihWaiting source hsource

theorem Joined.nonempty {sources : Set (List Slot)} {slots : List Slot}
    (h : Joined sources slots) : sources.Nonempty := by
  induction h with
  | single slots => exact Set.singleton_nonempty slots
  | join _ _ _ ihIncoming _ => exact ihIncoming.mono Set.subset_union_left

/-! ## The stacks that control brings -/

namespace Method

/-- The offsets of the code ascend. -/
def Ascending (method : Method) : Prop :=
  method.code.Pairwise fun earlier later => earlier.offset < later.offset

instance (method : Method) : Decidable method.Ascending :=
  inferInstanceAs (Decidable (List.Pairwise _ _))

/-- A stack that control brings to `inst` from the visits `before` it: the
empty stack at the start of the method, what the last visit leaves if it
falls through, and what a visit leaves that jumps to `inst`. -/
inductive Brings (method : Method) (before : List Visit) (inst : Instruction) :
    List Slot → Prop
  | entry (first : before = []) : Brings method before inst []
  | next {earlier last slots} (split : before = earlier ++ [last])
      (falls : last.instruction.fallsThrough = true) (leaves : method.Leaves last slots) :
      Brings method before inst slots
  | jump {source slots} (visited : source ∈ before)
      (target : inst.offset ∈ source.instruction.targets)
      (leaves : method.Leaves source slots) : Brings method before inst slots

/-- The stacks that jumps from the visits bring to an offset. -/
def jumping (method : Method) (visits : List Visit) (offset : Nat) : Set (List Slot) :=
  { slots | ∃ source ∈ visits, offset ∈ source.instruction.targets ∧ method.Leaves source slots }

end Method

/-! ## The table of recorded stacks -/

namespace OperandStack

/-- The table holds a join of the given stacks for the offset, or nothing
if there are none. -/
def Carries (stack : OperandStack) (offset : Nat) (sources : Set (List Slot)) : Prop :=
  match stack.recordedAt? offset with
  | none => sources = ∅
  | some recorded => Joined sources recorded

variable {stack after : OperandStack} {offset : Nat} {sources : Set (List Slot)}

theorem Carries.congr (h : stack.Carries offset sources)
    (hsame : after.recordedAt? offset = stack.recordedAt? offset) :
    after.Carries offset sources := by
  unfold Carries at h ⊢
  rwa [hsame]

/-- A jump adds its stack to those of its target and of no other offset. -/
theorem Carries.noteJump {target : Nat} (h : stack.Carries offset sources)
    (hnote : noteJump target stack = .ok ⟨⟩ after) :
    after.Carries offset (sources ∪ { slots | offset = target ∧ slots = stack.slots }) := by
  obtain ⟨joined, hjoined, rfl⟩ := noteJump_ok hnote
  by_cases htarget : offset = target
  · subst htarget
    have hadded : { slots | offset = offset ∧ slots = stack.slots } = {stack.slots} := by
      ext slots
      simp
    unfold Carries at h ⊢
    rw [recordedAt?_setRecorded_self, hadded]
    show Joined _ joined
    cases hrecorded : stack.recordedAt? offset with
    | none =>
      simp only [hrecorded] at h hjoined
      rw [h, hjoined, Set.empty_union]
      exact .single _
    | some recorded =>
      simp only [hrecorded] at h hjoined
      obtain ⟨hlength, rfl⟩ := joinSlots_ok hjoined
      rw [Set.union_comm]
      exact .join (.single _) h hlength
  · have hadded : { slots | offset = target ∧ slots = stack.slots } = ∅ := by
      ext slots
      simp [htarget]
    rw [hadded, Set.union_empty]
    exact h.congr (recordedAt?_setRecorded_ne _ _ htarget)

/-- The same for all targets of an instruction, which may repeat. -/
theorem Carries.notes {targets : List Nat} (h : stack.Carries offset sources)
    (hnotes : targets.forM OperandStack.noteJump stack = .ok ⟨⟩ after) :
    after.Carries offset (sources ∪ { slots | offset ∈ targets ∧ slots = stack.slots }) := by
  induction targets generalizing stack sources with
  | nil =>
    cases hnotes
    simpa using h
  | cons target rest ih =>
    have hbind : (OperandStack.noteJump target >>= fun _ => rest.forM OperandStack.noteJump) stack
        = .ok ⟨⟩ after := hnotes
    obtain ⟨_, noted, hnote, hrest⟩ := bind_ok hbind
    have hslots : noted.slots = stack.slots := by
      obtain ⟨joined, _, rfl⟩ := noteJump_ok hnote
      rfl
    have hlater := ih (h.noteJump hnote) hrest
    rw [hslots, Set.union_assoc] at hlater
    convert hlater using 2
    ext slots
    simp only [List.mem_cons, Set.mem_ofPred_eq, Set.mem_union]
    tauto

end OperandStack

namespace Method

variable {method : Method} {before : List Visit} {fallsThrough : Bool} {stack : OperandStack}

/-- Whatever lies ahead of all visits made so far, the table holds what
their jumps bring there. -/
theorem Trail.carries (h : method.Trail before fallsThrough stack) :
    ∀ offset, (∀ visit ∈ before, visit.instruction.offset < offset) →
      stack.Carries offset (method.jumping before offset) := by
  induction h with
  | start =>
    intro offset _
    show method.jumping [] offset = ∅
    ext slots
    simp [jumping]
  | @step done _ stack visit reached after trail _ arrives leaves ih =>
    intro offset hahead
    have hvisit : visit.instruction.offset < offset :=
      hahead visit (List.mem_append_right _ (List.mem_singleton_self _))
    obtain ⟨applied, happly, hnotes⟩ := Instruction.leave_ok leaves
    -- Neither the arrival nor the instruction touches what is recorded ahead.
    have hkept : applied.recordedAt? offset = stack.recordedAt? offset := by
      obtain ⟨_, _, _, _, _, rfl⟩ := Instruction.apply_ok happly
      rw [withSlots_recordedAt?, arrives.stack, withSlots_recordedAt?]
      exact recordedAt?_dropRecorded_ne _ (Nat.ne_of_gt hvisit)
    have hdone : stack.Carries offset (method.jumping done offset) :=
      ih offset fun earlier hearlier => hahead earlier (List.mem_append_left _ hearlier)
    have hleaves : method.Leaves visit applied.slots := trail.leaves_applied arrives happly
    convert (hdone.congr hkept).notes hnotes using 1
    ext slots
    simp only [jumping, List.mem_append, List.mem_singleton, Set.mem_ofPred_eq, Set.mem_union,
      Instruction.forwardTargets, List.mem_filter, decide_eq_true_eq]
    constructor
    · rintro ⟨source, hsource | rfl, htarget, hslots⟩
      · exact Or.inl ⟨source, hsource, htarget, hslots⟩
      · exact Or.inr ⟨⟨htarget, hvisit⟩, hslots.unique hleaves⟩
    · rintro (⟨source, hsource, htarget, hslots⟩ | ⟨⟨htarget, _⟩, rfl⟩)
      · exact ⟨source, Or.inl hsource, htarget, hslots⟩
      · exact ⟨visit, Or.inr rfl, htarget, hleaves⟩

/-! ## What a visit shows -/

/-- Control brings the current stack, if it falls through, and what jumps
bring. -/
theorem Trail.brings_iff (h : method.Trail before fallsThrough stack) (inst : Instruction)
    (slots : List Slot) :
    method.Brings before inst slots ↔
      (fallsThrough = true ∧ slots = stack.slots) ∨ slots ∈ method.jumping before inst.offset := by
  constructor
  · rintro (first | ⟨split, falls, leaves⟩ | ⟨visited, target, leaves⟩)
    · rcases h.last_leaves with ⟨_, hslots, hfalls⟩ | ⟨earlier, last, hlast, _⟩
      · exact Or.inl ⟨hfalls, hslots.symm⟩
      · rw [hlast] at first
        simp at first
    · rcases h.last_leaves with ⟨hnil, _⟩ | ⟨earlier, last, hlast, hleaves, hfalls⟩
      · rw [hnil] at split
        simp at split
      · rw [hlast] at split
        obtain ⟨_, hsame⟩ := List.append_inj' split rfl
        cases hsame
        exact Or.inl ⟨hfalls.trans falls, leaves.unique hleaves⟩
    · exact Or.inr ⟨_, visited, target, leaves⟩
  · rintro (⟨hfalls, rfl⟩ | ⟨source, visited, target, leaves⟩)
    · rcases h.last_leaves with ⟨hnil, hslots, _⟩ | ⟨earlier, last, hlast, hleaves, hlastFalls⟩
      · rw [hslots]
        exact .entry hnil
      · exact .next hlast (hlastFalls.symm.trans hfalls) hleaves
    · exact .jump visited target leaves

/-- The stack on arrival is the join of the stacks that control brings, or
empty if it brings none. -/
theorem Trail.joined_of_arriving (h : method.Trail before fallsThrough stack)
    {inst : Instruction} {slots : List Slot}
    (hbehind : ∀ visit ∈ before, visit.instruction.offset < inst.offset)
    (harriving : stack.arriving inst.offset fallsThrough = .ok slots) :
    (∀ source, ¬ method.Brings before inst source) ∧ slots = [] ∨
      Joined { source | method.Brings before inst source } slots := by
  have hcarries := h.carries inst.offset hbehind
  have hbrings : { source | method.Brings before inst source } =
      { source | fallsThrough = true ∧ source = stack.slots } ∪
        method.jumping before inst.offset := by
    ext source
    exact h.brings_iff inst source
  unfold Carries at hcarries
  unfold arriving at harriving
  cases hrecorded : stack.recordedAt? inst.offset with
  | none =>
    simp only [hrecorded] at hcarries harriving
    rw [hcarries, Set.union_empty] at hbrings
    cases fallsThrough with
    | true =>
      cases harriving
      have honly : { source | true = true ∧ source = stack.slots } = {stack.slots} := by
        ext source
        simp
      rw [hbrings, honly]
      exact Or.inr (.single _)
    | false =>
      cases harriving
      refine Or.inl ⟨fun source hsource => ?_, rfl⟩
      have hmem : source ∈ { source | method.Brings before inst source } := hsource
      rw [hbrings] at hmem
      exact absurd hmem.1 Bool.false_ne_true
  | some recorded =>
    simp only [hrecorded] at hcarries harriving
    rw [hbrings]
    refine Or.inr ?_
    cases fallsThrough with
    | true =>
      obtain ⟨hlength, rfl⟩ := joinSlots_ok harriving
      have honly : { source | true = true ∧ source = stack.slots } = {stack.slots} := by
        ext source
        simp
      rw [honly]
      exact .join (.single _) hcarries hlength
    | false =>
      cases harriving
      have hnone : { source : List Slot | false = true ∧ source = stack.slots } = ∅ := by
        ext source
        simp
      rw [hnone, Set.empty_union]
      exact hcarries

/-- The visits before an instruction of ascending code lie behind it. -/
theorem lies_behind (hascending : method.Ascending) {inst : Instruction}
    (hcode : before.map (·.instruction) ++ [inst] <+: method.code) :
    ∀ earlier ∈ before, earlier.instruction.offset < inst.offset := by
  intro earlier hearlier
  have hsorted := hascending.sublist hcode.sublist
  exact (List.pairwise_append.1 hsorted).2.2 earlier.instruction
    (List.mem_map_of_mem hearlier) inst (List.mem_singleton_self _)

section Visits

variable {visit : Visit} {later : List Visit}

theorem slots_of_handler (h : method.walk.visits = before ++ visit :: later)
    (hhandler : method.isHandler visit.instruction.offset = true) : visit.slots = [.unknown] := by
  obtain ⟨_, _, _, _, _, hreached⟩ := exists_trail h
  exact hreached.handler hhandler

/-- What a visit shows that is no handler: the join of all stacks that
control brings, and at the head of a loop only its layout. -/
theorem joined_of_visit (hascending : method.Ascending)
    (h : method.walk.visits = before ++ visit :: later)
    (hhandler : method.isHandler visit.instruction.offset = false) :
    ∃ slots,
      ((∀ source, ¬ method.Brings before visit.instruction source) ∧ slots = [] ∨
        Joined { source | method.Brings before visit.instruction source } slots) ∧
      visit.slots =
        if method.loopHeads.contains visit.instruction.offset then slots.map Slot.forget
        else slots := by
  obtain ⟨_, _, _, htrail, hcode, hreached⟩ := exists_trail h
  obtain ⟨slots, harriving, hslots⟩ := hreached.joined hhandler
  exact ⟨slots, htrail.joined_of_arriving (lies_behind hascending hcode) harriving, hslots⟩

end Visits

end Method

end BytecodeLint
