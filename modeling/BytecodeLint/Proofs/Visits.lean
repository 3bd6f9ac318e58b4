import BytecodeLint.Proofs.Arrival
import Mathlib.Data.List.Nodup

/-!
# The visits of a walk in their order

The visits of a walk follow the code from its start.  Where the offsets of
the code ascend, a visit is therefore found by its instruction, and what
lies before it in the code was visited before it.

There are three groups.

* The visits lie in the order of their offsets.
* The visits before a visit are those of the instructions before it.
* Stacks that meet have one depth.
-/

namespace BytecodeLint

namespace Method

variable {method : Method} {before later : List Visit} {visit following : Visit}

/-! ## The order of the visits -/

theorem Ascending.nodup (hascending : method.Ascending) : method.code.Nodup :=
  hascending.imp fun hlt heq => by
    rw [heq] at hlt
    exact Nat.lt_irrefl _ hlt

/-- An instruction is found by its offset. -/
theorem Ascending.offset_inj (hascending : method.Ascending) {inst other : Instruction}
    (hinst : inst ∈ method.code) (hother : other ∈ method.code)
    (hoffset : inst.offset = other.offset) : inst = other := by
  have hnodup : (method.code.map (·.offset)).Nodup :=
    List.pairwise_map.2 (hascending.imp Nat.ne_of_lt)
  exact List.inj_on_of_nodup_map hnodup hinst hother hoffset

/-- An instruction is followed by one other. -/
theorem Ascending.following_unique (hascending : method.Ascending) {inst first second : Instruction}
    (hfirst : [inst, first] <:+: method.code) (hsecond : [inst, second] <:+: method.code) :
    first = second := by
  obtain ⟨front, back, hfirst⟩ := hfirst
  obtain ⟨front', back', hsecond⟩ := hsecond
  have hnodup := hascending.nodup
  have hcode : front ++ inst :: first :: back = method.code := by simpa using hfirst
  have hother : front' ++ inst :: second :: back' = method.code := by simpa using hsecond
  rw [← hcode] at hnodup
  obtain ⟨_, hcons, hfront⟩ := List.nodup_append.1 hnodup
  have hnotFront : inst ∉ front := fun hmem => hfront _ hmem _ (List.mem_cons_self ..) rfl
  obtain ⟨_, hrest⟩ := (List.append_cons_inj_of_notMem hnotFront (List.nodup_cons.1 hcons).1).1
    (hcode.trans hother.symm)
  exact (List.cons.inj hrest.2).1

/-- No instruction is visited twice. -/
theorem Ascending.visit_unique (hascending : method.Ascending)
    (hcode : before.map (·.instruction) <+: method.code) (hvisit : visit ∈ before)
    (hfollowing : following ∈ before) (hsame : visit.instruction = following.instruction) :
    visit = following :=
  List.inj_on_of_nodup_map (hascending.nodup.sublist hcode.sublist) hvisit hfollowing hsame

/-- The visits of a walk lie in the order of their offsets. -/
theorem Ascending.visits (hascending : method.Ascending) :
    method.walk.visits.Pairwise
      fun earlier later => earlier.instruction.offset < later.instruction.offset := by
  have hinitial : method.walk.visits.map (·.instruction) <+: method.code := visits_initial _ _ _
  have hsorted := List.Pairwise.sublist hinitial.sublist hascending
  rwa [List.pairwise_map] at hsorted

theorem Ascending.lt_of_visits (hascending : method.Ascending)
    (h : method.walk.visits = before ++ visit :: later) :
    (∀ earlier ∈ before, earlier.instruction.offset < visit.instruction.offset) ∧
      ∀ behind ∈ later, visit.instruction.offset < behind.instruction.offset := by
  have hvisits := hascending.visits
  rw [h] at hvisits
  obtain ⟨_, hbehind, hbefore⟩ := List.pairwise_append.1 hvisits
  exact ⟨fun earlier hmem => hbefore earlier hmem visit (List.mem_cons_self ..),
    (List.pairwise_cons.1 hbehind).1⟩

theorem mem_code_of_visit (h : visit ∈ method.walk.visits) :
    visit.instruction ∈ method.code := by
  have hinitial : method.walk.visits.map (·.instruction) <+: method.code := visits_initial _ _ _
  exact hinitial.subset (List.mem_map_of_mem h)

/-- No instruction has an opcode that is not in the set of the method. -/
theorem opcode_ne_of_lacks {inst : Instruction} {op : Opcode}
    (h : method.opcodes.contains op = false) (hinst : inst ∈ method.code) : inst.opcode ≠ op := by
  rintro rfl
  rw [opcodes, OpcodeSet.contains_ofList] at h
  have hmem : inst.opcode ∈ method.code.map (·.opcode) := List.mem_map_of_mem hinst
  rw [List.contains_iff_mem.2 hmem] at h
  cases h

theorem opcode_beq_eq_false {op : Opcode} (h : method.opcodes.contains op = false)
    (hvisit : visit ∈ method.walk.visits) : (visit.instruction.opcode == op) = false :=
  beq_eq_false_iff_ne.2 (opcode_ne_of_lacks h (mem_code_of_visit hvisit))

/-- Of two visits, the one with the lower offset is made first. -/
theorem Ascending.exists_between {rest front : List Visit} {earlier : Visit}
    (hascending : method.Ascending)
    (hearlier : method.walk.visits = before ++ earlier :: rest)
    (hvisit : method.walk.visits = front ++ visit :: later)
    (hlt : earlier.instruction.offset < visit.instruction.offset) :
    ∃ between, front = before ++ earlier :: between := by
  rcases List.append_eq_append_iff.1 (hearlier.symm.trans hvisit) with
    ⟨middle, hfront, hmiddle⟩ | ⟨middle, hbefore, hmiddle⟩
  · cases middle with
    | nil =>
      cases hmiddle
      exact absurd hlt (Nat.lt_irrefl _)
    | cons first between =>
      cases hmiddle
      exact ⟨between, hfront⟩
  · cases middle with
    | nil =>
      cases hmiddle
      exact absurd hlt (Nat.lt_irrefl _)
    | cons first between =>
      cases hmiddle
      have hbehind := (hascending.lt_of_visits hearlier).1 visit (by simp [hbefore])
      omega

/-- The next visit is of the next instruction in the code. -/
theorem adjacent_next (h : method.walk.visits = before ++ visit :: following :: later) :
    [visit.instruction, following.instruction] <:+: method.code := by
  have hsplit : method.walk.visits = (before ++ [visit]) ++ following :: later := by simpa using h
  obtain ⟨_, _, _, _, ⟨rest, hcode⟩, _⟩ := exists_trail hsplit
  refine ⟨before.map (·.instruction), rest, ?_⟩
  rw [← hcode]
  simp

/-! ## What was visited before -/

/-- The instruction just before another in the code was visited just before
it. -/
theorem Ascending.last_before (hascending : method.Ascending) {inst following : Instruction}
    (hcode : before.map (·.instruction) ++ [following] <+: method.code)
    (hadjacent : [inst, following] <:+: method.code) :
    ∃ earlier last, before = earlier ++ [last] ∧ last.instruction = inst := by
  obtain ⟨rest, hcode⟩ := hcode
  obtain ⟨front, back, hadjacent⟩ := hadjacent
  have hnodup := hascending.nodup
  rw [← hcode] at hnodup hadjacent
  obtain ⟨hfront, _, hrest⟩ := List.nodup_append.1 hnodup
  obtain ⟨_, _, hbefore⟩ := List.nodup_append.1 hfront
  have hnotBefore : following ∉ before.map (·.instruction) := fun hmem =>
    hbefore _ hmem _ (List.mem_singleton_self _) rfl
  have hnotRest : following ∉ rest := fun hmem =>
    hrest _ (List.mem_append_right _ (List.mem_singleton_self _)) _ hmem rfl
  have hsplit : before.map (·.instruction) ++ following :: rest =
      (front ++ [inst]) ++ following :: back := by
    simpa using hadjacent.symm
  obtain ⟨hvisited, _⟩ := (List.append_cons_inj_of_notMem hnotBefore hnotRest).1 hsplit
  obtain ⟨earlier, ends, rfl, _, hends⟩ := List.map_eq_append_iff.1 hvisited
  obtain ⟨last, rfl, hlast⟩ := List.map_eq_singleton_iff.1 hends
  exact ⟨earlier, last, rfl, hlast⟩

theorem Ascending.mem_before (hascending : method.Ascending) {inst following : Instruction}
    (hcode : before.map (·.instruction) ++ [following] <+: method.code)
    (hinst : inst ∈ method.code) (hlt : inst.offset < following.offset) :
    ∃ earlier ∈ before, earlier.instruction = inst := by
  obtain ⟨rest, hcode⟩ := hcode
  unfold Ascending at hascending
  rw [← hcode] at hinst hascending
  rcases List.mem_append.1 hinst with hinst | hinst
  · rcases List.mem_append.1 hinst with hinst | hinst
    · exact List.mem_map.1 hinst
    · rw [List.mem_singleton.1 hinst] at hlt
      exact absurd hlt (Nat.lt_irrefl _)
  · have hbehind := (List.pairwise_append.1 hascending).2.2 following
      (List.mem_append_right _ (List.mem_singleton_self _)) inst hinst
    omega

/-- Nothing is visited before the first instruction. -/
theorem Ascending.nil_of_first (hascending : method.Ascending) {following : Instruction}
    (hcode : before.map (·.instruction) ++ [following] <+: method.code)
    (hfirst : method.code.head? = some following) : before = [] := by
  cases before with
  | nil => rfl
  | cons first rest =>
    have hsame : first.instruction = following := by
      obtain ⟨back, hcode⟩ := hcode
      rw [← hcode] at hfirst
      exact Option.some_inj.1 hfirst
    have hlt := lies_behind hascending hcode first (List.mem_cons_self ..)
    rw [hsame] at hlt
    exact absurd hlt (Nat.lt_irrefl _)

/-- The instruction behind a visit was visited as well, or it is the first
that was not. -/
theorem Ascending.next_of_visited (hascending : method.Ascending) {next : Instruction}
    {rest : List Instruction} (hcode : before.map (·.instruction) ++ rest = method.code)
    (hvisit : visit ∈ before) (hadjacent : [visit.instruction, next] <:+: method.code) :
    (∃ following ∈ before, following.instruction = next) ∨ rest.head? = some next := by
  obtain ⟨front, back, rfl⟩ := List.append_of_mem hvisit
  cases back with
  | cons following back =>
    have hfollows : [visit.instruction, following.instruction] <:+: method.code :=
      ⟨front.map (·.instruction), back.map (·.instruction) ++ rest, by rw [← hcode]; simp⟩
    exact Or.inl ⟨following, by simp, hascending.following_unique hfollows hadjacent⟩
  | nil =>
    cases rest with
    | cons following rest =>
      have hfollows : [visit.instruction, following] <:+: method.code :=
        ⟨front.map (·.instruction), rest, by rw [← hcode]; simp⟩
      exact Or.inr (congrArg some (hascending.following_unique hfollows hadjacent))
    | nil =>
      rw [List.append_nil] at hcode
      have hnext : next ∈ method.code := hadjacent.subset (by simp)
      rw [← hcode] at hnext
      exact Or.inl (List.mem_map.1 hnext)

/-- A visit with a lower offset was made before. -/
theorem Ascending.mem_of_lt (hascending : method.Ascending)
    (h : method.walk.visits = before ++ visit :: later) (hfollowing : following ∈ method.walk.visits)
    (hlt : following.instruction.offset < visit.instruction.offset) : following ∈ before := by
  rw [h] at hfollowing
  rcases List.mem_append.1 hfollowing with hbefore | hbehind
  · exact hbefore
  · rcases List.mem_cons.1 hbehind with rfl | hbehind
    · exact absurd hlt (Nat.lt_irrefl _)
    · exact absurd ((hascending.lt_of_visits h).2 following hbehind) (Nat.lt_asymm hlt)

/-! ## Stacks that meet -/

/-- The stack on arrival is as deep as any stack that control brings. -/
theorem Trail.length_of_arriving {fallsThrough : Bool} {stack : OperandStack}
    (h : method.Trail before fallsThrough stack) {inst : Instruction} {slots source : List Slot}
    (hbehind : ∀ visit ∈ before, visit.instruction.offset < inst.offset)
    (harriving : stack.arriving inst.offset fallsThrough = .ok slots)
    (hbrings : method.Brings before inst source) : source.length = slots.length := by
  rcases h.joined_of_arriving hbehind harriving with ⟨hnone, _⟩ | hjoined
  · exact absurd hbrings (hnone source)
  · exact hjoined.length_eq source hbrings

/-- A visit that is no handler shows as many slots as any stack that control
brings. -/
theorem length_of_brings (hascending : method.Ascending)
    (h : method.walk.visits = before ++ visit :: later)
    (hhandler : method.isHandler visit.instruction.offset = false) {source : List Slot}
    (hbrings : method.Brings before visit.instruction source) :
    visit.slots.length = source.length := by
  obtain ⟨slots, hjoined, hslots⟩ := joined_of_visit hascending h hhandler
  have hlayout : visit.slots.length = slots.length := by
    rw [hslots]
    split
    · exact List.length_map _
    · rfl
  rcases hjoined with ⟨hnone, _⟩ | hjoined
  · exact absurd hbrings (hnone source)
  · rw [hlayout, hjoined.length_eq source hbrings]

/-- Where control brings nothing, the stack is empty. -/
theorem slots_of_isolated (hascending : method.Ascending)
    (h : method.walk.visits = before ++ visit :: later)
    (hhandler : method.isHandler visit.instruction.offset = false)
    (hnone : ∀ source, ¬ method.Brings before visit.instruction source) : visit.slots = [] := by
  obtain ⟨slots, hjoined, hslots⟩ := joined_of_visit hascending h hhandler
  obtain ⟨_, rfl⟩ | hjoined := hjoined
  · rw [hslots, List.map_nil, ite_self]
  · obtain ⟨source, hsource⟩ := hjoined.nonempty
    exact absurd hsource (hnone source)

/-- Jumps to one offset ahead bring stacks of one depth. -/
theorem Trail.length_of_jumping {fallsThrough : Bool} {stack : OperandStack}
    (h : method.Trail before fallsThrough stack) {offset : Nat}
    (hbehind : ∀ visit ∈ before, visit.instruction.offset < offset) {first second : List Slot}
    (hfirst : first ∈ method.jumping before offset)
    (hsecond : second ∈ method.jumping before offset) : first.length = second.length := by
  have hcarries := h.carries offset hbehind
  unfold OperandStack.Carries at hcarries
  split at hcarries
  · rw [hcarries] at hfirst
    cases hfirst
  · rw [hcarries.length_eq first hfirst, hcarries.length_eq second hsecond]

end Method

end BytecodeLint
