import BytecodeLint.Proofs.Arrival
import BytecodeLint.Proofs.Contents

/-!
# The walk solves the forward dataflow equation

The stack on arrival at an instruction is the join of the stacks that
control brings to it.  `IsJoin` says what the join of a set of stacks is,
entry by entry and without an order, and `Method.Solves` is the equation of
one instruction.  `solves_iff_eq_slots` is the result: what a visit shows
is the one solution of its equation.

The equation needs constants that agree only if they are equal.  A NaN
agrees with nothing, not even with itself, and of two zeros that agree the
join keeps one.  `Method.Plain` leaves both out.

There are three groups.

* `IsJoin` and the equation.
* Plain slots.  Their joins are joins by equality, and `Trail.plain` shows
  that plain code has plain slots everywhere.
* The result.
-/

namespace BytecodeLint

open OperandStack

/-! ## The equation -/

/-- `slots` is the join of a set of stacks.  An entry is kept if all stacks
have it, and unknown otherwise.  The join of no stacks is empty. -/
structure IsJoin (sources : Set (List Slot)) (slots : List Slot) : Prop where
  empty : sources = ∅ → slots = []
  depth : ∀ source ∈ sources, source.length = slots.length
  agreed : ∀ below slot, below < slots.length →
    (∀ source ∈ sources, source[below]? = some slot) → slots[below]? = some slot
  torn : ∀ below, below < slots.length →
    (∀ slot, ∃ source ∈ sources, source[below]? ≠ some slot) →
      slots[below]? = some .unknown

/-- A set of stacks has at most one join. -/
theorem IsJoin.unique {sources : Set (List Slot)} {slots others : List Slot}
    (h : IsJoin sources slots) (hothers : IsJoin sources others) : slots = others := by
  rcases Set.eq_empty_or_nonempty sources with hnone | ⟨source, hsource⟩
  · rw [h.empty hnone, hothers.empty hnone]
  · have hlength : slots.length = others.length :=
      (h.depth source hsource).symm.trans (hothers.depth source hsource)
    apply List.ext_getElem?
    intro below
    by_cases hbelow : below < slots.length
    · by_cases hagree : ∃ slot, ∀ source ∈ sources, source[below]? = some slot
      · obtain ⟨slot, hslot⟩ := hagree
        rw [h.agreed below slot hbelow hslot,
          hothers.agreed below slot (hlength ▸ hbelow) hslot]
      · push Not at hagree
        rw [h.torn below hbelow hagree, hothers.torn below (hlength ▸ hbelow) hagree]
    · rw [List.getElem?_eq_none (Nat.not_lt.1 hbelow),
        List.getElem?_eq_none (hlength ▸ Nat.not_lt.1 hbelow)]

/-- The dataflow equation: `slots` is the stack on arrival at `inst`, where
`before` are the visits before it.  A handler has the caught exception
alone, and the head of a loop keeps the layout of the join only. -/
def Method.Solves (method : Method) (before : List Visit) (inst : Instruction)
    (slots : List Slot) : Prop :=
  if method.isHandler inst.offset then slots = [.unknown]
  else ∃ joined, IsJoin { source | method.Brings before inst source } joined ∧
    slots = if method.loopHeads.contains inst.offset then joined.map Slot.forget else joined

/-! ## Plain slots -/

/-- A constant that agrees with itself and with nothing else. -/
def Constant.Plain (literal : Constant) : Prop :=
  literal.isNan = false ∧ literal.isNegativeZero = false

instance (literal : Constant) : Decidable literal.Plain :=
  inferInstanceAs (Decidable (_ ∧ _))

/-- The code of the method has plain constants only. -/
def Method.Plain (method : Method) : Prop :=
  ∀ inst ∈ method.code, ∀ literal ∈ inst.constant?, literal.Plain

instance (method : Method) : Decidable method.Plain :=
  inferInstanceAs (Decidable (∀ inst ∈ method.code, ∀ literal ∈ inst.constant?, _))

namespace Slot

/-- A constant in the slot is plain. -/
def Plain (slot : Slot) : Prop :=
  ∀ literal, slot = .constant literal → literal.Plain

theorem ofValues_plain : OfValues Plain where
  value _ _ h := by cases h
  continuation _ h := by cases h

theorem plain_fresh (offset : Nat) : (fresh offset).Plain := fun _ h => by cases h

/-- Plain slots agree exactly if they are equal. -/
theorem agrees_iff_eq {incoming recorded : Slot} (h : incoming.Plain) (hrecorded : recorded.Plain) :
    incoming.agrees recorded = true ↔ incoming = recorded := by
  cases incoming with
  | constant left =>
    cases recorded with
    | constant right =>
      have hleft := h left rfl
      have hright := hrecorded right rfl
      rw [agrees, Constant.agrees_iff_eq hleft.1 hleft.2 hright.2, constant.injEq]
    | value source => simp [agrees]
    | continuation => simp [agrees]
    | fresh offset => simp [agrees]
  | value source => simp [agrees]
  | continuation => simp [agrees]
  | fresh offset => simp [agrees]

theorem join_eq {incoming recorded : Slot} (h : incoming.Plain) (hrecorded : recorded.Plain) :
    incoming.join recorded = if incoming = recorded then incoming else unknown := by
  unfold join
  by_cases heq : incoming = recorded
  · rw [if_pos ((agrees_iff_eq h hrecorded).2 heq), if_pos heq]
  · rw [if_neg (fun hagrees => heq ((agrees_iff_eq h hrecorded).1 hagrees)), if_neg heq]

end Slot

/-- All slots of the stack are plain. -/
def PlainSlots (slots : List Slot) : Prop :=
  ∀ slot ∈ slots, slot.Plain

/-! ## Plain code has plain slots -/

theorem Opcode.plain_heldConstant {op : Opcode} {literal : Constant}
    (h : op.heldConstant? = some literal) : literal.Plain := by
  unfold heldConstant? at h
  split at h
  · cases h
    decide
  · split at h
    · cases h
      exact ⟨rfl, rfl⟩
    · split at h
      · cases h
        exact ⟨rfl, rfl⟩
      · split at h
        · cases h
          split
          · decide
          · split <;> decide
        · split at h
          · cases h
            split <;> decide
          · cases h

namespace Instruction

variable {inst : Instruction} {slots : List Slot}

theorem plain_literal (h : ∀ literal, inst.constant? = some literal → literal.Plain) :
    inst.literal.Plain := by
  unfold literal
  cases hoperand : inst.constant? with
  | some found => exact h found hoperand
  | none =>
    cases hheld : inst.opcode.heldConstant? with
    | some found => exact Opcode.plain_heldConstant hheld
    | none => exact ⟨rfl, rfl⟩

theorem plain_slotsAfter (hliteral : inst.literal.Plain) (h : PlainSlots slots)
    (counts : StackEffect) (effect : Effect) :
    PlainSlots (inst.slotsAfter counts slots effect) := by
  refine Slot.ofValues_plain.slotsAfter (fun _ _ literal heq => ?_)
    (fun _ => Slot.plain_fresh _) h counts
  cases heq
  exact hliteral

end Instruction

theorem Joined.plain {sources : Set (List Slot)} {slots : List Slot} (h : Joined sources slots)
    (hsources : ∀ source ∈ sources, PlainSlots source) : PlainSlots slots := by
  induction h with
  | single slots => exact hsources slots rfl
  | join _ _ _ ihIncoming _ =>
    have hincoming := ihIncoming fun source hsource => hsources source (Or.inl hsource)
    intro slot hslot
    obtain ⟨below, hbelow, rfl⟩ := List.mem_iff_getElem.1 hslot
    rw [List.getElem_zipWith]
    exact Slot.ofValues_plain.join (hincoming _ (List.getElem_mem _)) _

namespace Method

variable {method : Method} {before : List Visit} {fallsThrough : Bool}
  {stack reached : OperandStack} {visit : Visit}

/-- What an instruction of plain code leaves is plain if what it found is. -/
theorem Leaves.plain {slots : List Slot} (h : method.Leaves visit slots)
    (hliteral : visit.instruction.literal.Plain) (hvisit : PlainSlots visit.slots) :
    PlainSlots slots := by
  obtain ⟨found, after, hfound, _, happly, rfl⟩ := h
  obtain ⟨effect, counts, _, _, _, rfl⟩ := Instruction.apply_ok happly
  rw [withSlots_slots, hfound]
  exact Instruction.plain_slotsAfter hliteral hvisit counts effect

/-- Control brings plain stacks, if the visits before are plain. -/
theorem plain_of_brings (hplain : method.Plain) {inst : Instruction}
    (hcode : before.map (·.instruction) ++ [inst] <+: method.code)
    (hbefore : ∀ earlier ∈ before, PlainSlots earlier.slots) :
    ∀ source, method.Brings before inst source → PlainSlots source := by
  have hliteral : ∀ earlier ∈ before, earlier.instruction.literal.Plain := by
    intro earlier hearlier
    refine Instruction.plain_literal fun literal hoperand => ?_
    refine hplain earlier.instruction (hcode.subset ?_) literal hoperand
    exact List.mem_append_left _ (List.mem_map_of_mem hearlier)
  rintro source (_ | ⟨split, _, leaves⟩ | ⟨visited, _, leaves⟩)
  · intro slot hslot
    cases hslot
  · have hlast := split ▸ List.mem_append_right _ (List.mem_singleton_self _)
    exact leaves.plain (hliteral _ hlast) (hbefore _ hlast)
  · exact leaves.plain (hliteral _ visited) (hbefore _ visited)

/-- One step: what control brings is plain, so the next visit is plain. -/
private theorem plain_of_reached (hascending : method.Ascending) (hplain : method.Plain)
    (htrail : method.Trail before fallsThrough stack)
    (hcode : before.map (·.instruction) ++ [visit.instruction] <+: method.code)
    (hreached : method.Reached fallsThrough visit.instruction stack visit reached)
    (hbefore : ∀ earlier ∈ before, PlainSlots earlier.slots) : PlainSlots visit.slots := by
  cases hhandler : method.isHandler visit.instruction.offset with
  | true =>
    rw [hreached.handler hhandler]
    exact List.forall_mem_singleton.2 (Slot.ofValues_plain.value .unknown)
  | false =>
    obtain ⟨slots, harriving, hslots⟩ := hreached.joined hhandler
    have hjoined : PlainSlots slots := by
      rcases htrail.joined_of_arriving (lies_behind hascending hcode) harriving with
        ⟨_, rfl⟩ | hjoined
      · intro slot hslot
        cases hslot
      · exact hjoined.plain (plain_of_brings hplain hcode hbefore)
    rw [hslots]
    split
    · intro slot hslot
      obtain ⟨old, _, rfl⟩ := List.mem_map.1 hslot
      exact Slot.ofValues_plain.forget old
    · exact hjoined

theorem Trail.plain (h : method.Trail before fallsThrough stack) (hascending : method.Ascending)
    (hplain : method.Plain) : ∀ earlier ∈ before, PlainSlots earlier.slots := by
  induction h with
  | start =>
    intro earlier hearlier
    cases hearlier
  | step trail code arrives _ ih =>
    intro earlier hearlier
    rcases List.mem_append.1 hearlier with hearlier | hearlier
    · exact ih earlier hearlier
    · rw [List.mem_singleton.1 hearlier]
      exact plain_of_reached hascending hplain trail code arrives ih

end Method

/-! ## The walk solves the equation -/

/-- What is known of an entry of the join holds in all stacks. -/
theorem IsJoin.all_of_known {sources : Set (List Slot)} {slots : List Slot} {below : Nat}
    {slot : Slot} (h : IsJoin sources slots) (hslot : slots[below]? = some slot)
    (hknown : slot ≠ .unknown) : ∀ source ∈ sources, source[below]? = some slot := by
  have hbelow : below < slots.length := (List.getElem?_eq_some_iff.1 hslot).1
  by_cases hagree : ∃ other, ∀ source ∈ sources, source[below]? = some other
  · obtain ⟨other, hother⟩ := hagree
    have hsame := h.agreed below other hbelow hother
    rw [hslot] at hsame
    cases hsame
    exact hother
  · push Not at hagree
    have htorn := h.torn below hbelow hagree
    rw [hslot] at htorn
    cases htorn
    exact absurd rfl hknown

theorem isJoin_empty : IsJoin ∅ [] where
  empty _ := rfl
  depth source hsource := absurd hsource (Set.notMem_empty source)
  agreed below _ hbelow := absurd hbelow (Nat.not_lt_zero below)
  torn below hbelow := absurd hbelow (Nat.not_lt_zero below)

theorem isJoin_single (slots : List Slot) : IsJoin {slots} slots where
  empty hempty := absurd hempty (Set.singleton_ne_empty slots)
  depth source hsource := by rw [Set.mem_singleton_iff.1 hsource]
  agreed below slot _ hagree := hagree slots rfl
  torn below hbelow htorn := by
    obtain ⟨source, hsource, hne⟩ := htorn slots[below]
    rw [Set.mem_singleton_iff.1 hsource] at hne
    exact absurd (List.getElem?_eq_getElem hbelow) hne

/-- Joining two joins entry by entry gives the join of all their stacks. -/
theorem IsJoin.zipWith {sources others : Set (List Slot)} {slots recorded : List Slot}
    (h : IsJoin sources slots) (hrecorded : IsJoin others recorded)
    (hnonempty : sources.Nonempty) (hlength : slots.length = recorded.length)
    (hplain : PlainSlots slots) (hplainRecorded : PlainSlots recorded) :
    IsJoin (sources ∪ others) (List.zipWith Slot.join slots recorded) := by
  have hwidth : (List.zipWith Slot.join slots recorded).length = slots.length := by
    rw [List.length_zipWith, ← hlength, Nat.min_self]
  -- An entry of the new join, in terms of the two old ones.
  have hentry : ∀ (below : Nat) (left right : Slot), slots[below]? = some left →
      recorded[below]? = some right →
        (List.zipWith Slot.join slots recorded)[below]? =
          some (if left = right then left else Slot.unknown) := by
    intro below left right hleft hright
    rw [List.getElem?_zipWith, hleft, hright]
    show some (Slot.join _ _) = _
    rw [Slot.join_eq (hplain _ (List.mem_of_getElem? hleft))
      (hplainRecorded _ (List.mem_of_getElem? hright))]
  refine ⟨fun hempty => ?_, ?_, ?_, ?_⟩
  · exact absurd hempty (hnonempty.mono Set.subset_union_left).ne_empty
  · rintro source (hsource | hsource)
    · rw [hwidth, h.depth source hsource]
    · rw [hwidth, hlength, hrecorded.depth source hsource]
  · intro below slot hbelow hagree
    rw [hwidth] at hbelow
    have hleft := h.agreed below slot hbelow fun source hsource => hagree source (Or.inl hsource)
    have hright := hrecorded.agreed below slot (hlength ▸ hbelow)
      fun source hsource => hagree source (Or.inr hsource)
    rw [hentry below slot slot hleft hright, if_pos rfl]
  · intro below hbelow htorn
    rw [hwidth] at hbelow
    have hleft := List.getElem?_eq_getElem hbelow
    have hright := List.getElem?_eq_getElem (hlength ▸ hbelow)
    rw [hentry below _ _ hleft hright]
    by_cases hsame : slots[below] = recorded[below]
    · rw [if_pos hsame]
      by_contra hknown
      have hne : slots[below] ≠ .unknown := fun heq => hknown (congrArg some heq)
      -- Both joins know the entry, so no stack is torn from it.
      obtain ⟨source, hsource | hsource, hother⟩ := htorn slots[below]
      · exact hother (h.all_of_known hleft hne source hsource)
      · rw [← hsame] at hright
        exact hother (hrecorded.all_of_known hright hne source hsource)
    · rw [if_neg hsame]

/-- The join of plain stacks is a join by equality, in whatever order it was
taken. -/
theorem Joined.isJoin {sources : Set (List Slot)} {slots : List Slot} (h : Joined sources slots)
    (hsources : ∀ source ∈ sources, PlainSlots source) : IsJoin sources slots := by
  induction h with
  | single slots => exact isJoin_single slots
  | join incoming waiting length ihIncoming ihWaiting =>
    have hincoming := fun source hsource => hsources source (Or.inl hsource)
    have hwaiting := fun source hsource => hsources source (Or.inr hsource)
    exact (ihIncoming hincoming).zipWith (ihWaiting hwaiting) incoming.nonempty length
      (incoming.plain hincoming) (waiting.plain hwaiting)

namespace Method

variable {method : Method} {before later : List Visit} {visit : Visit}

/-- What a visit of the walk shows is the one solution of the dataflow
equation of its instruction, and the stacks that meet there are equally
deep.  The visits follow the code without a gap, and each of those before
leaves exactly one stack. -/
theorem solves_iff_eq_slots (hascending : method.Ascending) (hplain : method.Plain)
    (h : method.walk.visits = before ++ visit :: later) :
    (before ++ visit :: later).map (·.instruction) <+: method.code ∧
      (∀ earlier ∈ before, ∃! slots, method.Leaves earlier slots) ∧
      (∀ slots, method.Solves before visit.instruction slots ↔ slots = visit.slots) ∧
      (method.isHandler visit.instruction.offset = false → ∀ slots others,
        method.Brings before visit.instruction slots →
        method.Brings before visit.instruction others → slots.length = others.length) := by
  obtain ⟨_, _, _, htrail, hcode, _⟩ := exists_trail h
  refine ⟨h ▸ visits_initial method.code true _, htrail.existsUnique_leaves, ?_⟩
  unfold Solves
  cases hhandler : method.isHandler visit.instruction.offset with
  | true =>
    rw [slots_of_handler h hhandler]
    exact ⟨fun slots => Iff.rfl, fun hno => absurd hno (Bool.true_eq_false ▸ id)⟩
  | false =>
    obtain ⟨joined, hjoined, hslots⟩ := joined_of_visit hascending h hhandler
    have hsolves : IsJoin { source | method.Brings before visit.instruction source } joined := by
      rcases hjoined with ⟨hnone, rfl⟩ | hjoined
      · rw [Set.eq_empty_of_forall_notMem hnone]
        exact isJoin_empty
      · exact hjoined.isJoin (plain_of_brings hplain hcode (htrail.plain hascending hplain))
    refine ⟨fun slots => ?_, fun _ slots others hbrings hother => ?_⟩
    · constructor
      · rintro ⟨other, hother, rfl⟩
        rw [hother.unique hsolves, hslots]
      · rintro rfl
        exact ⟨joined, hsolves, hslots⟩
    · exact (hsolves.depth slots hbrings).trans (hsolves.depth others hother).symm

/-- Both arms of a conditional push the literal 7, so it is still known
where they meet. -/
def sameArms : Method where
  name := "choose"
  descriptor := "(Z)I"
  maxStack := some 1
  code :=
    [ ⟨0, 0x1a, .none⟩
    , ⟨1, 0x99, .branch 9⟩
    , ⟨4, .bipush, .constant (.int 7)⟩
    , ⟨6, .goto, .branch 11⟩
    , ⟨9, .bipush, .constant (.int 7)⟩
    , ⟨11, .ireturn, .none⟩ ]
  lines := []
  handlers := []

theorem sameArms_solves_iff :
    sameArms.Ascending ∧ sameArms.Plain ∧
      sameArms.walk.visits = sameArms.walk.visits.take 5 ++
        [⟨⟨11, .ireturn, .none⟩, [.constant (.int 7)], ⟨1, 0⟩⟩] ∧
      ∀ slots, sameArms.Solves (sameArms.walk.visits.take 5) ⟨11, .ireturn, .none⟩ slots ↔
        slots = [.constant (.int 7)] :=
  have hascending : sameArms.Ascending := by decide
  have hplain : sameArms.Plain := by decide
  have hvisits : sameArms.walk.visits = sameArms.walk.visits.take 5 ++
      [⟨⟨11, .ireturn, .none⟩, [.constant (.int 7)], ⟨1, 0⟩⟩] := by decide
  ⟨hascending, hplain, hvisits, (solves_iff_eq_slots hascending hplain hvisits).2.2.1⟩

end Method

end BytecodeLint
