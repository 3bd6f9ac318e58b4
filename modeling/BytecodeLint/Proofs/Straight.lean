import BytecodeLint.Proofs.Depth
import BytecodeLint.Proofs.Soundness

/-!
# Straight code

Between two instructions of straight code control goes on from each to the
next, if no branch is taken.  This module follows a run through such code
beside the visits of the walk.  The walk counts the slots of every
instruction, so it tells how much of the stack the run leaves alone.

There are three groups.

* The step from an instruction to the next, and the depth of the stack there.
* `Method.Straight`, for code and for the visits in it.
* `Keeps`: a run through straight code keeps what lies below.  There is a
  lemma for one step and one for the whole run.
-/

namespace BytecodeLint

namespace Method

variable {method : Method} {before later : List Visit} {visit following : Visit}

/-! ## The step to the next instruction -/

theorem Continues.offset_lt (hascending : method.Ascending) {moment next : Moment}
    (h : method.Continues moment next) :
    moment.instruction.offset < next.instruction.offset := by
  have hpair := List.Pairwise.sublist h.adjacent.sublist hascending
  exact List.rel_of_pairwise_cons hpair (List.mem_singleton_self _)

theorem offset_le_of_continues (hascending : method.Ascending) {moment finish : Moment}
    (h : Relation.ReflTransGen method.Continues moment finish) :
    moment.instruction.offset ≤ finish.instruction.offset := by
  induction h with
  | refl => exact Nat.le_refl _
  | tail _ hnext ih => exact ih.trans (Nat.le_of_lt (hnext.offset_lt hascending))

theorem eq_of_continues (hascending : method.Ascending) {moment finish : Moment}
    (h : Relation.ReflTransGen method.Continues moment finish)
    (hfinish : finish.instruction = moment.instruction) : finish = moment := by
  rcases h.cases_head with heq | ⟨next, hnext, hrest⟩
  · exact heq.symm
  · have hlt := hnext.offset_lt hascending
    have hle := offset_le_of_continues hascending hrest
    rw [hfinish] at hle
    omega

/-- The depth of the stack at the next visit, where control goes on to it. -/
theorem depth_next (hascending : method.Ascending)
    (h : method.walk.visits = before ++ visit :: following :: later)
    (hfalls : visit.instruction.fallsThrough = true)
    (hhandler : method.isHandler following.instruction.offset = false) :
    following.slots.length = visit.slots.length - visit.effect.pops + visit.effect.pushes := by
  have hsplit : method.walk.visits = (before ++ [visit]) ++ following :: later := by simpa using h
  have hmem : visit ∈ before ++ [visit] := List.mem_append_right _ (List.mem_singleton_self _)
  obtain ⟨_, _, _, htrail, _, _⟩ := exists_trail hsplit
  obtain ⟨left, hleaves, _⟩ := htrail.existsUnique_leaves visit hmem
  have hbrings : method.Brings (before ++ [visit]) following.instruction left :=
    .next rfl hfalls hleaves
  have hcounted : visit.Counted := counted_of_visit (hsplit ▸ List.mem_append_left _ hmem)
  rw [length_of_brings hascending hsplit hhandler hbrings, (hleaves.length hcounted).2]

/-! ## Straight code -/

/-- Control runs from `first` to `last` through the code in order, if no
branch is taken, and no handler begins on the way. -/
structure Straight (method : Method) (first last : Nat) : Prop where
  conditional : ∀ inst ∈ method.code, first ≤ inst.offset → inst.offset < last →
    inst.opcode ∉ Opcode.unconditional
  handlers : ∀ handler ∈ method.handlers, ¬ (first < handler ∧ handler ≤ last)

/-- What straight code is, said of the visits from its first instruction to
its last. -/
theorem Straight.visits {middle : List Visit} {origin final : Visit}
    (h : method.Straight origin.instruction.offset final.instruction.offset)
    (hascending : method.Ascending)
    (hvisits : method.walk.visits = before ++ origin :: (middle ++ final :: later)) :
    (∀ visit ∈ origin :: middle, visit.instruction.opcode ∉ Opcode.unconditional) ∧
      ∀ visit ∈ middle ++ [final], method.isHandler visit.instruction.offset = false := by
  have hsplit : method.walk.visits = (before ++ origin :: middle) ++ final :: later := by
    simpa using hvisits
  have hbehind := (hascending.lt_of_visits hvisits).2
  have hahead := (hascending.lt_of_visits hsplit).1
  constructor
  · intro visit hmem
    have hvisited : visit ∈ method.walk.visits := by
      rw [hsplit]
      exact List.mem_append_left _ (List.mem_append_right _ hmem)
    have hfirst : origin.instruction.offset ≤ visit.instruction.offset := by
      rcases List.mem_cons.1 hmem with rfl | hmem
      · exact Nat.le_refl _
      · exact Nat.le_of_lt (hbehind visit (List.mem_append_left _ hmem))
    have hlast := hahead visit (List.mem_append_right _ hmem)
    exact h.conditional _ (mem_code_of_visit hvisited) hfirst hlast
  · intro visit hmem
    have hfirst : origin.instruction.offset < visit.instruction.offset := by
      refine hbehind visit ?_
      simp only [List.mem_append, List.mem_cons] at hmem ⊢
      tauto
    have hlast : visit.instruction.offset ≤ final.instruction.offset := by
      rcases List.mem_append.1 hmem with hmem | hmem
      · exact Nat.le_of_lt (hahead visit (by simp [hmem]))
      · rw [List.mem_singleton.1 hmem]
    refine Bool.eq_false_iff.2 fun hhandler => ?_
    exact h.handlers _ (List.contains_iff_mem.1 hhandler) ⟨hfirst, hlast⟩

end Method

/-! ## What a straight run keeps -/

/-- The instruction takes none of the lowest `depth` slots. -/
def Visit.Spares (visit : Visit) (depth : Nat) : Prop :=
  visit.effect.pops + depth ≤ visit.slots.length

/-- Control is at the visit, and below the slots that lie above the lowest
`depth` ones it finds the entries `kept`. -/
structure Keeps (depth : Nat) (kept : List Entry) (visit : Visit) (moment : Moment) : Prop where
  instruction : moment.instruction = visit.instruction
  high : visit.slots.length - depth ≤ moment.stack.length
  below : moment.stack.drop (visit.slots.length - depth) = kept

namespace Keeps

variable {method : Method} {before middle later : List Visit} {visit following final : Visit}
  {depth : Nat} {kept : List Entry} {moment next finish : Moment}

/-- The step lemma: an instruction that spares the lowest slots keeps what
lies there. -/
theorem step (h : Keeps depth kept visit moment) (hascending : method.Ascending)
    (hvisits : method.walk.visits = before ++ visit :: following :: later)
    (hspares : visit.Spares depth) (hfalls : visit.instruction.fallsThrough = true)
    (hhandler : method.isHandler following.instruction.offset = false)
    (hnext : method.Continues moment next) : Keeps depth kept following next := by
  have hvisited : visit ∈ method.walk.visits := by simp [hvisits]
  obtain ⟨effect, heffect, hcounts⟩ :=
    Instruction.stackEffect_ok (Method.counted_of_visit hvisited)
  have hlength := Method.depth_next hascending hvisits hfalls hhandler
  obtain ⟨hinst, hhigh, hbelow⟩ := h
  have hperforms := hnext.performs
  have hadjacent := hnext.adjacent
  rw [hinst] at hperforms hadjacent
  obtain ⟨_, heads, hheads, hafter⟩ := hperforms.shape heffect hcounts
  have hspared : visit.effect.pops + depth ≤ visit.slots.length := hspares
  -- Above the lowest slots lie the slots that are put and those not taken.
  have hsplit : following.slots.length - depth =
      heads.length + (visit.slots.length - depth - visit.effect.pops) := by omega
  have hrest : visit.effect.pops + (visit.slots.length - depth - visit.effect.pops) =
      visit.slots.length - depth := by omega
  refine ⟨hascending.following_unique hadjacent (Method.adjacent_next hvisits), ?_, ?_⟩
  · rw [hafter, List.length_append, List.length_drop]
    omega
  · rw [hafter, hsplit, List.drop_append, List.drop_eq_nil_of_le (Nat.le_add_right _ _),
      Nat.add_sub_cancel_left, List.nil_append, List.drop_drop, hrest]
    exact hbelow

/-- An instruction that spares the lowest slots finds what it takes. -/
theorem exists_step (h : Keeps depth kept visit moment)
    (hvisits : method.walk.visits = before ++ visit :: following :: later)
    (hspares : visit.Spares depth) (hconditional : visit.instruction.opcode ∉ Opcode.unconditional) :
    ∃ next, method.Continues moment next := by
  have hvisited : visit ∈ method.walk.visits := by simp [hvisits]
  obtain ⟨effect, heffect, hcounts⟩ :=
    Instruction.stackEffect_ok (Method.counted_of_visit hvisited)
  obtain ⟨inst, stack, clock⟩ := moment
  obtain ⟨rfl, hhigh, _⟩ := h
  have hspared : visit.effect.pops + depth ≤ visit.slots.length := hspares
  have hdeep : visit.effect.pops ≤ stack.length := by
    simp only at hhigh
    omega
  obtain ⟨after, later, hperforms⟩ :=
    Instruction.exists_performs clock heffect hcounts hdeep
  exact ⟨_, .next (Method.adjacent_next hvisits) hconditional hperforms⟩

/-- Control goes on to the next visit, and to no other. -/
theorem advance (h : Keeps depth kept visit moment) (hascending : method.Ascending)
    (hsubroutine : ∀ inst ∈ method.code, inst.opcode ∉ Opcode.subroutine)
    (hvisits : method.walk.visits = before ++ visit :: following :: later)
    (hspares : visit.Spares depth) (hconditional : visit.instruction.opcode ∉ Opcode.unconditional)
    (hhandler : method.isHandler following.instruction.offset = false) :
    (∃ next, method.Continues moment next) ∧
      ∀ next, method.Continues moment next → Keeps depth kept following next := by
  have hdeclared : visit.instruction ∈ method.code :=
    Method.mem_code_of_visit (by simp [hvisits])
  have hfalls : visit.instruction.fallsThrough = true :=
    Opcode.fallsThrough_of_conditional hconditional (hsubroutine _ hdeclared)
  refine ⟨h.exists_step hvisits hspares hconditional, ?_⟩
  intro next hnext
  exact h.step hascending hvisits hspares hfalls hhandler hnext

/-- A run from a visit to a later one begins with a step. -/
theorem exists_first (h : Keeps depth kept visit moment) (hascending : method.Ascending)
    (hvisits : method.walk.visits = before ++ visit :: (middle ++ final :: later))
    (hrun : Relation.ReflTransGen method.Continues moment finish)
    (hfinish : finish.instruction = final.instruction) :
    ∃ next, method.Continues moment next ∧
      Relation.ReflTransGen method.Continues next finish := by
  rcases hrun.cases_head with rfl | hstep
  · have hsplit : method.walk.visits = (before ++ visit :: middle) ++ final :: later := by
      simpa using hvisits
    have hlt := (hascending.lt_of_visits hsplit).1 visit (by simp)
    rw [← h.instruction, hfinish] at hlt
    exact absurd hlt (Nat.lt_irrefl _)
  · exact hstep

/-- The run lemma: straight code that spares the lowest slots can be run to
its end, and however it is run, it keeps what lies there. -/
theorem run (hascending : method.Ascending)
    (hsubroutine : ∀ inst ∈ method.code, inst.opcode ∉ Opcode.subroutine)
    (hvisits : method.walk.visits = before ++ visit :: (middle ++ final :: later))
    (hspares : ∀ earlier ∈ visit :: middle, earlier.Spares depth)
    (hconditional : ∀ earlier ∈ visit :: middle,
      earlier.instruction.opcode ∉ Opcode.unconditional)
    (hhandlers : ∀ later ∈ middle ++ [final], method.isHandler later.instruction.offset = false)
    (h : Keeps depth kept visit moment) :
    (∃ finish, Relation.ReflTransGen method.Continues moment finish ∧
        finish.instruction = final.instruction) ∧
      ∀ finish, Relation.ReflTransGen method.Continues moment finish →
        finish.instruction = final.instruction → Keeps depth kept final finish := by
  induction middle generalizing before visit moment with
  | nil =>
    obtain ⟨⟨next, hnext⟩, hkeeps⟩ := h.advance hascending hsubroutine hvisits
      (hspares visit (by simp)) (hconditional visit (by simp)) (hhandlers final (by simp))
    refine ⟨⟨next, .single hnext, (hkeeps next hnext).instruction⟩, ?_⟩
    intro finish hrun hfinish
    obtain ⟨next, hnext, hrest⟩ := h.exists_first hascending hvisits hrun hfinish
    have hsame : finish.instruction = next.instruction :=
      hfinish.trans (hkeeps next hnext).instruction.symm
    rw [Method.eq_of_continues hascending hrest hsame]
    exact hkeeps next hnext
  | cons following rest ih =>
    obtain ⟨⟨next, hnext⟩, hkeeps⟩ := h.advance hascending hsubroutine hvisits
      (hspares visit (by simp)) (hconditional visit (by simp)) (hhandlers following (by simp))
    have hsplit : method.walk.visits =
        (before ++ [visit]) ++ following :: (rest ++ final :: later) := by simpa using hvisits
    have hlater := fun next (hnext : method.Continues moment next) =>
      ih hsplit (fun earlier hmem => hspares earlier (List.mem_cons_of_mem _ hmem))
        (fun earlier hmem => hconditional earlier (List.mem_cons_of_mem _ hmem))
        (fun later hmem => hhandlers later (List.mem_cons_of_mem _ hmem)) (hkeeps next hnext)
    constructor
    · obtain ⟨finish, hrest, hfinish⟩ := (hlater next hnext).1
      exact ⟨finish, .head hnext hrest, hfinish⟩
    · intro finish hrun hfinish
      obtain ⟨next, hnext, hrest⟩ := h.exists_first hascending hvisits hrun hfinish
      exact (hlater next hnext).2 finish hrest hfinish

end Keeps

end BytecodeLint
