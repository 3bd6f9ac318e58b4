import BytecodeLint.Proofs.Dataflow
import BytecodeLint.Proofs.Depth
import BytecodeLint.Proofs.Soundness
import Mathlib.Logic.Function.Basic

/-!
# Slots that hold one object

A fresh slot names the instruction that allocated its object.  In a loop
this instruction allocates many objects, so two fresh slots of one name
might hold different ones.  This module shows that they never do: on
whatever path control comes to a visit, all of its fresh slots of one name
hold the object that was allocated there last.

The reason is that nothing stays fresh at the head of a loop.  So a slot is
fresh only behind its allocation, and when an instruction allocates, no slot
bears its name.

There are three groups.

* Where a fresh slot comes from: from a fresh slot before the instruction,
  and at a visit from all the stacks that control brings.
* `fresh_lt_of_visit`: a fresh slot is seen only behind its allocation.
* `Tracks`, and `tracks_of_comesTo` by induction on the path.
-/

namespace BytecodeLint

open OperandStack

/-! ## Where a fresh slot comes from -/

/-- Every place after a `dup` is the copy of one place before it. -/
theorem exists_getElem?_dup (copy under below : Nat) :
    ∃ source : Nat, ∀ {α : Type} (list : List α), copy + under ≤ list.length →
      (list.take (copy + under) ++ list.take copy ++ list.drop (copy + under))[below]? =
        list[source]? := by
  by_cases hfirst : below < copy + under
  · refine ⟨below, fun list hdeep => ?_⟩
    rw [List.append_assoc, List.getElem?_append_left, List.getElem?_take_of_lt hfirst]
    rwa [List.length_take_of_le hdeep]
  · by_cases hsecond : below < copy + under + copy
    · refine ⟨below - (copy + under), fun list hdeep => ?_⟩
      have hcopy : copy ≤ list.length := Nat.le_of_add_right_le hdeep
      rw [List.getElem?_append_left, List.getElem?_append_right,
        List.length_take_of_le hdeep, List.getElem?_take_of_lt (by omega)]
      · rw [List.length_take_of_le hdeep]
        omega
      · rw [List.length_append, List.length_take_of_le hdeep, List.length_take_of_le hcopy]
        exact hsecond
    · refine ⟨below - copy, fun list hdeep => ?_⟩
      have hcopy : copy ≤ list.length := Nat.le_of_add_right_le hdeep
      have hlength : (list.take (copy + under) ++ list.take copy).length =
          copy + under + copy := by
        rw [List.length_append, List.length_take_of_le hdeep, List.length_take_of_le hcopy]
      rw [List.getElem?_append_right (by omega), hlength, List.getElem?_drop]
      congr 1
      omega

theorem exists_getElem?_exchanged (below : Nat) :
    ∃ source : Nat, ∀ {α : Type} (list : List α), 2 ≤ list.length →
      (exchanged list)[below]? = list[source]? := by
  match below with
  | 0 => exact ⟨1, fun | _ :: _ :: _, _ => rfl⟩
  | 1 => exact ⟨0, fun | _ :: _ :: _, _ => rfl⟩
  | below + 2 => exact ⟨below + 2, fun | _ :: _ :: _, _ => rfl⟩

namespace Instruction

variable {inst : Instruction} {counts : StackEffect} {effect : Effect} {slots : List Slot}
  {stack after : List Entry} {clock later below offset : Nat}

/-- Where a slot is fresh after an instruction, the entry was allocated by it
just now, or it stood where a slot was fresh before. -/
theorem Performs.fresh (h : inst.Performs stack clock after later)
    (heffect : inst.opcode.effect? = some effect) (hcounts : inst.countSlots effect = .ok counts)
    (hdepth : counts.pops ≤ slots.length)
    (hfresh : (inst.slotsAfter counts slots effect)[below]? = some (.fresh offset)) :
    (offset = inst.offset ∧ after[below]? = some ⟨.object clock, some inst.offset⟩) ∨
      ∃ source : Nat, slots[source]? = some (.fresh offset) ∧ after[below]? = stack[source]? := by
  cases h with
  | @dup copy under _ _ opcode deep =>
    cases heffect.symm.trans opcode
    cases hcounts
    obtain ⟨source, hsource⟩ := exists_getElem?_dup copy under below
    exact Or.inr ⟨source, hsource slots hdepth ▸ hfresh, hsource stack deep⟩
  | @swap first second rest _ opcode =>
    cases heffect.symm.trans opcode
    cases hcounts
    obtain ⟨source, hsource⟩ := exists_getElem?_exchanged below
    exact Or.inr ⟨source, hsource slots hdepth ▸ hfresh,
      hsource (first :: second :: rest) (by simp)⟩
  | checkCast opcode =>
    cases heffect.symm.trans opcode
    exact Or.inr ⟨below, hfresh, rfl⟩
  | allocate opcode =>
    cases heffect.symm.trans opcode
    cases below with
    | zero =>
      cases hfresh
      exact Or.inl ⟨rfl, rfl⟩
    | succ below => exact Or.inr ⟨below, hfresh, rfl⟩
  | @compute _ _ results _ _ opcode computes counted deep enough made =>
    cases heffect.symm.trans opcode
    cases hcounts.symm.trans counted
    obtain ⟨heads, rest, hafter, hheads, hunallocated, _, hrest⟩ :=
      slotsAfter_of_computes heffect hcounts computes slots
    rw [hafter] at hfresh
    by_cases hbelow : below < heads.length
    · rw [List.getElem?_append_left hbelow] at hfresh
      cases hunallocated _ (List.mem_of_getElem? hfresh)
    · rw [List.getElem?_append_right (Nat.not_lt.1 hbelow)] at hfresh
      have hsource := hrest _ _ hfresh
      rw [List.getElem?_drop] at hsource
      refine Or.inr ⟨_, hsource, ?_⟩
      rw [List.getElem?_append_right (by omega), List.getElem?_drop, enough, hheads]

/-- A slot that is fresh after an instruction was fresh before it, or the
instruction allocates. -/
theorem fresh_of_slotsAfter (heffect : inst.opcode.effect? = some effect)
    (hcounts : inst.countSlots effect = .ok counts) (hdepth : counts.pops ≤ slots.length)
    (hfresh : (inst.slotsAfter counts slots effect)[below]? = some (.fresh offset)) :
    offset = inst.offset ∨ ∃ source : Nat, slots[source]? = some (.fresh offset) := by
  -- Any execution will do to tell the places apart.
  let stack : List Entry := slots.map fun _ => ⟨.other, none⟩
  obtain ⟨after, later, hperforms⟩ := exists_performs 0 heffect hcounts
    (hdepth.trans_eq (List.length_map _).symm : counts.pops ≤ stack.length)
  rcases hperforms.fresh heffect hcounts hdepth hfresh with ⟨hoffset, _⟩ | ⟨source, hsource, _⟩
  · exact Or.inl hoffset
  · exact Or.inr ⟨source, hsource⟩

end Instruction

theorem Slot.join_eq_fresh {incoming recorded : Slot} {offset : Nat}
    (h : incoming.join recorded = .fresh offset) :
    incoming = .fresh offset ∧ recorded = .fresh offset := by
  unfold join at h
  split at h
  · rename_i hagrees
    rw [h] at hagrees
    refine ⟨h, ?_⟩
    rw [agrees, beq_iff_eq] at hagrees
    · exact hagrees.symm
    · simp
  · cases h

/-- A slot of a join is fresh only if it is fresh in every stack. -/
theorem Joined.fresh {sources : Set (List Slot)} {slots : List Slot} (h : Joined sources slots)
    {below offset : Nat} (hfresh : slots[below]? = some (.fresh offset)) :
    ∀ source ∈ sources, source[below]? = some (.fresh offset) := by
  induction h with
  | single slots =>
    intro source hsource
    rw [Set.mem_singleton_iff.1 hsource]
    exact hfresh
  | join _ _ _ ihIncoming ihWaiting =>
    intro source hsource
    rw [List.getElem?_zipWith_eq_some] at hfresh
    obtain ⟨left, right, hleft, hright, hjoin⟩ := hfresh
    obtain ⟨rfl, rfl⟩ := Slot.join_eq_fresh hjoin
    rcases hsource with hsource | hsource
    · exact ihIncoming hleft source hsource
    · exact ihWaiting hright source hsource

namespace Method

variable {method : Method} {before later : List Visit} {visit : Visit} {below offset : Nat}

/-- Where a visit shows a fresh slot, control does not come back to it and
catches nothing, and every stack that it brings has the fresh slot. -/
theorem fresh_of_visit (hascending : method.Ascending)
    (h : method.walk.visits = before ++ visit :: later)
    (hfresh : visit.slots[below]? = some (.fresh offset)) :
    method.isHandler visit.instruction.offset = false ∧
      visit.instruction.offset ∉ method.loopHeads ∧
      (∃ source, method.Brings before visit.instruction source) ∧
      ∀ source, method.Brings before visit.instruction source →
        source[below]? = some (.fresh offset) := by
  cases hhandler : method.isHandler visit.instruction.offset with
  | true =>
    rw [slots_of_handler h hhandler] at hfresh
    cases List.mem_singleton.1 (List.mem_of_getElem? hfresh)
  | false =>
    obtain ⟨slots, hjoined, hslots⟩ := joined_of_visit hascending h hhandler
    by_cases hhead : visit.instruction.offset ∈ method.loopHeads
    · rw [hslots, if_pos (List.contains_iff_mem.2 hhead), List.getElem?_map] at hfresh
      obtain ⟨old, _, hforget⟩ := Option.map_eq_some_iff.1 hfresh
      cases old <;> cases hforget
    · rw [hslots, if_neg fun hcontains => hhead (List.contains_iff_mem.1 hcontains)] at hfresh
      rcases hjoined with ⟨_, rfl⟩ | hjoined
      · cases hfresh
      · exact ⟨rfl, hhead, hjoined.nonempty, fun source hsource => hjoined.fresh hfresh source hsource⟩

/-! ## Behind the allocation -/

/-- A fresh slot is seen only behind the instruction that it names. -/
theorem fresh_lt_of_visit (hascending : method.Ascending)
    (h : method.walk.visits = before ++ visit :: later)
    (hfresh : visit.slots[below]? = some (.fresh offset)) :
    offset < visit.instruction.offset := by
  induction hlength : before.length using Nat.strong_induction_on
    generalizing before visit later below with
  | _ length ih =>
    obtain ⟨_, _, _, htrail, hcode, _⟩ := exists_trail h
    obtain ⟨_, _, ⟨source, hbrings⟩, hsources⟩ := fresh_of_visit hascending h hfresh
    have hsource := hsources source hbrings
    -- The stack was left by an earlier visit, where the slot was fresh or allocated.
    have hleft : ∀ earlier ∈ before, method.Leaves earlier source →
        offset < visit.instruction.offset := by
      rintro earlier hearlier ⟨stack, after, hslots, _, happly, rfl⟩
      have hbehind := lies_behind hascending hcode earlier hearlier
      obtain ⟨effect, counts, heffect, hcounts, hdepth, rfl⟩ := Instruction.apply_ok happly
      rw [withSlots_slots] at hsource
      rcases Instruction.fresh_of_slotsAfter heffect hcounts hdepth hsource with
        rfl | ⟨place, hplace⟩
      · exact hbehind
      · obtain ⟨first, rest, rfl⟩ := List.append_of_mem hearlier
        have hvisits : method.walk.visits = first ++ earlier :: (rest ++ visit :: later) := by
          rw [h, List.append_assoc]
          rfl
        rw [hslots] at hplace
        exact (ih first.length (by simp at hlength; omega) hvisits hplace rfl).trans hbehind
    rcases hbrings with first | ⟨split, _, leaves⟩ | ⟨visited, _, leaves⟩
    · cases hsource
    · exact hleft _ (split ▸ List.mem_append_right _ (List.mem_singleton_self _)) leaves
    · exact hleft _ visited leaves

end Method

/-! ## One object for each name -/

/-- The fresh slots that name `offset` hold the object that was allocated at
the time `made offset`. -/
def Tracks (made : Nat → Nat) (slots : List Slot) (stack : List Entry) : Prop :=
  ∀ (below offset : Nat), slots[below]? = some (.fresh offset) →
    ∃ entry, stack[below]? = some entry ∧ entry.value = .object (made offset)

namespace Method

variable {method : Method} {visit : Visit} {made : Nat → Nat} {stack after : List Entry}
  {clock later : Nat}

/-- An instruction that allocates gives its name to a new object.  No slot
bore the name before. -/
theorem Leaves.tracks {left : List Slot} (h : method.Leaves visit left)
    (htracks : Tracks made visit.slots stack)
    (hbehind : ∀ below offset : Nat, visit.slots[below]? = some (.fresh offset) →
      offset < visit.instruction.offset)
    (hperforms : visit.instruction.Performs stack clock after later) :
    Tracks (Function.update made visit.instruction.offset clock) left after := by
  obtain ⟨found, applied, hslots, _, happly, rfl⟩ := h
  obtain ⟨effect, counts, heffect, hcounts, hdepth, rfl⟩ := Instruction.apply_ok happly
  intro below offset hfresh
  rw [withSlots_slots] at hfresh
  rcases hperforms.fresh heffect hcounts hdepth hfresh with
    ⟨rfl, hentry⟩ | ⟨source, hsource, hentry⟩
  · refine ⟨_, hentry, ?_⟩
    rw [Function.update_self]
  · rw [hslots] at hsource
    obtain ⟨entry, hfound, hvalue⟩ := htracks source offset hsource
    refine ⟨entry, hentry.trans hfound, ?_⟩
    rw [Function.update_of_ne (Nat.ne_of_lt (hbehind source offset hsource)), hvalue]

/-- The invariant of an execution: control is at an instruction of the
method, and the visit of this instruction tracks the objects. -/
structure Tracked (method : Method) (moment : Moment) : Prop where
  declared : moment.instruction ∈ method.code
  tracked : ∀ visit ∈ method.walk.visits, visit.instruction = moment.instruction →
    ∃ made, Tracks made visit.slots moment.stack

theorem tracked_first (hascending : method.Ascending) {first : Instruction}
    (hfirst : method.code.head? = some first) : method.Tracked ⟨first, [], 0⟩ where
  declared := List.mem_of_mem_head? hfirst
  tracked := by
    rintro visit hvisit rfl
    obtain ⟨before, later, h⟩ := List.append_of_mem hvisit
    obtain ⟨_, _, _, _, hcode, _⟩ := exists_trail h
    have hnone : before = [] := hascending.nil_of_first hcode hfirst
    refine ⟨fun _ => 0, fun below offset hfresh => ?_⟩
    obtain ⟨_, _, _, hsources⟩ := fresh_of_visit hascending h hfresh
    cases hsources [] (.entry hnone)

/-- What an instruction leaves is tracked after it, if the instruction was
visited in time. -/
private theorem Tracked.leaves {before rest : List Visit} {earlier : Visit} {inst : Instruction}
    (hascending : method.Ascending) (h : method.Tracked ⟨inst, stack, clock⟩)
    (hvisits : method.walk.visits = before ++ visit :: rest) (hearlier : earlier ∈ before)
    (hinst : earlier.instruction = inst) (hperforms : inst.Performs stack clock after later) :
    ∃ slots made, method.Leaves earlier slots ∧ Tracks made slots after := by
  subst hinst
  obtain ⟨_, _, _, htrail, _, _⟩ := exists_trail hvisits
  obtain ⟨slots, hleaves, _⟩ := htrail.existsUnique_leaves earlier hearlier
  have hmem : earlier ∈ method.walk.visits := hvisits ▸ List.mem_append_left _ hearlier
  obtain ⟨made, htracks⟩ := h.tracked earlier hmem rfl
  obtain ⟨first, behind, hsplit⟩ := List.append_of_mem hmem
  exact ⟨slots, _, hleaves, hleaves.tracks htracks
    (fun _ _ => fresh_lt_of_visit hascending hsplit) hperforms⟩

/-- If a stack that control brings to a visit is tracked, then so is the
stack at the visit. -/
theorem Brings.tracks {before rest : List Visit} {source : List Slot}
    (hbrings : method.Brings before visit.instruction source) (hsource : Tracks made source stack)
    (hascending : method.Ascending) (h : method.walk.visits = before ++ visit :: rest) :
    Tracks made visit.slots stack := by
  intro below offset hfresh
  obtain ⟨_, _, _, hsources⟩ := fresh_of_visit hascending h hfresh
  exact hsource below offset (hsources source hbrings)

theorem Tracked.step (hascending : method.Ascending)
    (hsubroutine : ∀ inst ∈ method.code, inst.opcode ∉ Opcode.subroutine)
    {moment following : Moment} (h : method.Tracked moment)
    (hstep : method.Proceeds moment following) : method.Tracked following := by
  cases hstep with
  | next continues =>
    obtain ⟨adjacent, conditional, performs⟩ := continues
    refine ⟨adjacent.subset (by simp), ?_⟩
    rintro visit hvisit rfl
    obtain ⟨before, rest, hvisits⟩ := List.append_of_mem hvisit
    obtain ⟨_, _, _, _, hcode, _⟩ := exists_trail hvisits
    obtain ⟨earlier, last, hbefore, hlast⟩ := hascending.last_before hcode adjacent
    have hmem : last ∈ before := hbefore ▸ List.mem_append_right _ (List.mem_singleton_self _)
    obtain ⟨slots, made, hleaves, htracks⟩ := h.leaves hascending hvisits hmem hlast performs
    have hfalls : last.instruction.fallsThrough = true := by
      rw [hlast]
      exact Opcode.fallsThrough_of_conditional conditional (hsubroutine _ h.declared)
    exact ⟨made, (Brings.next hbefore hfalls hleaves).tracks htracks hascending hvisits⟩
  | @jump inst _ _ _ _ _ declared target performs =>
    refine ⟨declared, ?_⟩
    rintro visit hvisit rfl
    obtain ⟨before, rest, hvisits⟩ := List.append_of_mem hvisit
    obtain ⟨_, _, _, _, hcode, _⟩ := exists_trail hvisits
    by_cases hforward : inst.offset < visit.instruction.offset
    · obtain ⟨source, hmem, hsource⟩ := hascending.mem_before hcode h.declared hforward
      obtain ⟨slots, made, hleaves, htracks⟩ := h.leaves hascending hvisits hmem hsource performs
      exact ⟨made, (Brings.jump hmem (hsource ▸ target) hleaves).tracks htracks hascending hvisits⟩
    · have hback : visit.instruction.offset ∈ inst.backwardTargets :=
        List.mem_filter.2 ⟨target, decide_eq_true (Nat.not_lt.1 hforward)⟩
      have hhead : visit.instruction.offset ∈ method.loopHeads :=
        List.mem_flatMap.2 ⟨inst, h.declared, hback⟩
      refine ⟨fun _ => 0, fun below offset hfresh => ?_⟩
      exact absurd hhead (fresh_of_visit hascending hvisits hfresh).2.1
  | caught declared isHandler unmade known =>
    refine ⟨declared, ?_⟩
    rintro visit hvisit rfl
    obtain ⟨before, rest, hvisits⟩ := List.append_of_mem hvisit
    refine ⟨fun _ => 0, fun below offset hfresh => ?_⟩
    have hno := (fresh_of_visit hascending hvisits hfresh).1
    rw [isHandler] at hno
    cases hno

/-- On whatever path control comes to a visit, its fresh slots of one name
hold one object. -/
theorem tracks_of_comesTo (hascending : method.Ascending)
    (hsubroutine : ∀ inst ∈ method.code, inst.opcode ∉ Opcode.subroutine)
    (hvisit : visit ∈ method.walk.visits) {moment : Moment} (h : method.ComesTo moment)
    (hinst : visit.instruction = moment.instruction) :
    ∃ made, Tracks made visit.slots moment.stack := by
  obtain ⟨first, hfirst, hsteps⟩ := h
  have htracked : ∀ moment, Relation.ReflTransGen method.Proceeds ⟨first, [], 0⟩ moment →
      method.Tracked moment := by
    intro moment hsteps
    induction hsteps with
    | refl => exact tracked_first hascending hfirst
    | tail _ hstep ih => exact ih.step hascending hsubroutine hstep
  exact (htracked moment hsteps).tracked visit hvisit hinst

end Method

end BytecodeLint
