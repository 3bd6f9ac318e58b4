import BytecodeLint.Proofs.Meeting

/-!
# Which methods are analysed

A walk either comes to the end of the code or gives the method up.  It comes
to the end exactly if the depths of the stack can be told beforehand: if there
is a level for each instruction such that the levels agree wherever control
goes forward, each instruction finds the slots that it takes, and there is
room for what it leaves.  These levels are then the depths that the walk
shows.

There are four groups.

* `Method.Levels` is the assignment of levels.
* The levels of a walk that completes.
* A walk keeps to levels: the step lemma and the run lemma.
* `Method.completes_iff_levels` is the result.
-/

namespace BytecodeLint

open OperandStack

/-! ## Levels -/

/-- The level behind an instruction, from the level before it. -/
def Instruction.levelAfter (inst : Instruction) (level : Nat) : Nat :=
  match inst.stackEffect with
  | .ok counts => level - counts.pops + counts.pushes
  | .error _ => level

namespace Method

/-- The slots of every instruction can be counted. -/
def Counts (method : Method) : Prop :=
  ∀ inst ∈ method.code, ∃ counts, inst.stackEffect = .ok counts

/-- `level` assigns to every instruction a depth of the stack, and these
depths are consistent. -/
structure Levels (method : Method) (level : Instruction → Nat) : Prop where
  /-- A handler finds the exception alone. -/
  handler : ∀ inst ∈ method.code, method.isHandler inst.offset = true → level inst = 1
  first : ∀ inst, method.code.head? = some inst → method.isHandler inst.offset = false →
    level inst = 0
  /-- No control comes forward to the instruction. -/
  isolated : ∀ last inst, [last, inst] <:+: method.code → last.fallsThrough = false →
    (∀ source ∈ method.code, inst.offset ∉ source.forwardTargets) →
    method.isHandler inst.offset = false → level inst = 0
  deep : ∀ inst ∈ method.code, ∀ counts, inst.stackEffect = .ok counts →
    counts.pops ≤ level inst
  next : ∀ inst following, [inst, following] <:+: method.code → inst.fallsThrough = true →
    method.isHandler following.offset = false → level following = inst.levelAfter (level inst)
  jump : ∀ source ∈ method.code, ∀ landing ∈ method.code,
    landing.offset ∈ source.forwardTargets → method.isHandler landing.offset = false →
    level landing = source.levelAfter (level source)
  /-- Whatever is at the offset, or if nothing is. -/
  meet : ∀ source ∈ method.code, ∀ other ∈ method.code, ∀ offset ∈ source.forwardTargets,
    offset ∈ other.forwardTargets →
    source.levelAfter (level source) = other.levelAfter (level other)
  room : ∀ inst ∈ method.code,
    method.Allows (level inst) ∧ method.Allows (inst.levelAfter (level inst))

variable {method : Method} {done before later : List Visit} {visit source : Visit}
  {rest : List Instruction} {inst : Instruction} {fallsThrough : Bool}
  {stack reached failed : OperandStack} {slots : List Slot} {fault : StackFault} {offset : Nat}
  {level : Instruction → Nat}

/-- The depth of what a visit leaves is the level behind its instruction. -/
theorem Leaves.levelAfter (h : method.Leaves visit slots) (hcounted : visit.Counted) :
    slots.length = visit.instruction.levelAfter visit.slots.length := by
  unfold Instruction.levelAfter
  rw [show visit.instruction.stackEffect = .ok visit.effect from hcounted]
  exact (h.length hcounted).2

/-! ## The levels of a walk -/

/-- The depth that the walk shows at an instruction. -/
def shownLevel (method : Method) (inst : Instruction) : Nat :=
  ((method.walk.visits.find? (·.instruction == inst)).map (·.slots.length)).getD 0

theorem shownLevel_of_visit (hascending : method.Ascending) (h : visit ∈ method.walk.visits) :
    method.shownLevel visit.instruction = visit.slots.length := by
  have hsome : (method.walk.visits.find? (·.instruction == visit.instruction)).isSome = true :=
    List.find?_isSome.2 ⟨visit, h, beq_self_eq_true _⟩
  obtain ⟨found, hfound⟩ := Option.isSome_iff_exists.1 hsome
  have hinst : found.instruction = visit.instruction := by
    simpa using List.find?_some hfound
  have hsame : found = visit :=
    hascending.visit_unique (visits_initial _ _ _) (List.mem_of_find?_eq_some hfound) h hinst
  unfold shownLevel
  rw [hfound, hsame]
  rfl

/-- What a walk that completes tells of an instruction of the method. -/
theorem exists_shown (hascending : method.Ascending) (h : method.walk.completes = true)
    (hinst : inst ∈ method.code) :
    ∃ visit ∈ method.walk.visits, visit.instruction = inst ∧
      method.shownLevel inst = visit.slots.length ∧
      ∃ slots, method.Leaves visit slots ∧
        slots.length = inst.levelAfter (method.shownLevel inst) := by
  obtain ⟨visit, hvisit, rfl, slots, hleaves⟩ := exists_visit_of_completes h hinst
  have hlevel := shownLevel_of_visit hascending hvisit
  refine ⟨visit, hvisit, rfl, hlevel, slots, hleaves, ?_⟩
  rw [hlevel]
  exact hleaves.levelAfter (counted_of_visit hvisit)

/-- Where no control comes forward, nothing is brought. -/
theorem not_brings_of_isolated (hascending : method.Ascending)
    (h : method.walk.visits = before ++ visit :: later) {last : Instruction}
    (hadjacent : [last, visit.instruction] <:+: method.code) (hfalls : last.fallsThrough = false)
    (hjumps : ∀ source ∈ method.code, visit.instruction.offset ∉ source.forwardTargets)
    (source : List Slot) : ¬ method.Brings before visit.instruction source := by
  obtain ⟨_, _, _, _, hcode, _⟩ := exists_trail h
  obtain ⟨earlier, previous, rfl, hprevious⟩ := hascending.last_before hcode hadjacent
  rintro (hnil | ⟨hsplit, hgoes, _⟩ | ⟨hvisited, htarget, _⟩)
  · simp at hnil
  · obtain ⟨_, hsame⟩ := List.append_inj' hsplit rfl
    cases hsame
    rw [hprevious, hfalls] at hgoes
    cases hgoes
  · have hsource := hcode.subset (List.mem_append_left _ (List.mem_map_of_mem hvisited))
    refine hjumps _ hsource (List.mem_filter.2 ⟨htarget, decide_eq_true ?_⟩)
    exact lies_behind hascending hcode _ hvisited

/-- A walk that completes shows consistent levels. -/
theorem levels_of_completes (hascending : method.Ascending) (h : method.walk.completes = true) :
    method.Levels method.shownLevel := by
  obtain ⟨_, _, walks⟩ := walksTo_of_completes h
  refine ⟨?handler, ?first, ?isolated, ?deep, ?next, ?jump, ?meet, ?room⟩
  case handler =>
    intro inst hinst hhandler
    obtain ⟨visit, hvisit, rfl, hlevel, _⟩ := exists_shown hascending h hinst
    obtain ⟨before, later, hvisits⟩ := List.append_of_mem hvisit
    rw [hlevel, slots_of_handler hvisits hhandler]
    rfl
  case first =>
    intro inst hfirst hhandler
    have hinst : inst ∈ method.code := List.mem_of_mem_head? hfirst
    obtain ⟨visit, hvisit, rfl, hlevel, _⟩ := exists_shown hascending h hinst
    obtain ⟨before, later, hvisits⟩ := List.append_of_mem hvisit
    obtain ⟨_, _, _, _, hcode, _⟩ := exists_trail hvisits
    obtain rfl := hascending.nil_of_first hcode hfirst
    rw [hlevel, length_of_brings hascending hvisits hhandler (.entry rfl)]
    rfl
  case isolated =>
    intro last inst hadjacent hfalls hjumps hhandler
    have hinst : inst ∈ method.code := hadjacent.subset (by simp)
    obtain ⟨visit, hvisit, rfl, hlevel, _⟩ := exists_shown hascending h hinst
    obtain ⟨before, later, hvisits⟩ := List.append_of_mem hvisit
    rw [hlevel, slots_of_isolated hascending hvisits hhandler
      (not_brings_of_isolated hascending hvisits hadjacent hfalls hjumps)]
    rfl
  case deep =>
    intro inst hinst counts hcounts
    obtain ⟨visit, hvisit, rfl, hlevel, slots, hleaves, _⟩ := exists_shown hascending h hinst
    have hcounted := counted_of_visit hvisit
    cases hcounts.symm.trans hcounted
    rw [hlevel]
    exact (hleaves.length hcounted).1
  case next =>
    intro inst following hadjacent hfalls hhandler
    have hinst : inst ∈ method.code := hadjacent.subset (by simp)
    have hfollowing : following ∈ method.code := hadjacent.subset (by simp)
    obtain ⟨source, hsource, rfl, _, slots, hleaves, hlength⟩ := exists_shown hascending h hinst
    obtain ⟨target, htarget, rfl, hlevel, _⟩ := exists_shown hascending h hfollowing
    rw [hlevel, ← hlength]
    exact length_of_forwards hascending hsource htarget hhandler
      (.fall hadjacent hfalls hhandler hleaves)
  case jump =>
    intro inst hinst landing hlanding hjumps hhandler
    obtain ⟨source, hsource, rfl, _, slots, hleaves, hlength⟩ := exists_shown hascending h hinst
    obtain ⟨target, htarget, rfl, hlevel, _⟩ := exists_shown hascending h hlanding
    rw [hlevel, ← hlength]
    exact length_of_forwards hascending hsource htarget hhandler (.jump hjumps hleaves)
  case meet =>
    intro inst hinst other hother offset hjumps hotherJumps
    obtain ⟨first, hfirst, rfl, _, left, hleft, hlength⟩ := exists_shown hascending h hinst
    obtain ⟨second, hsecond, rfl, _, right, hright, hotherLength⟩ :=
      exists_shown hascending h hother
    rw [← hlength, ← hotherLength]
    exact walks.length_of_jumps hascending hfirst hsecond hjumps hotherJumps hleft hright
  case room =>
    intro inst hinst
    obtain ⟨visit, hvisit, rfl, hlevel, slots, hleaves, hlength⟩ :=
      exists_shown hascending h hinst
    obtain ⟨hbefore, hafter⟩ := walks.room visit hvisit
    rw [← hlength, hlevel]
    exact ⟨hbefore, hafter slots hleaves⟩

/-! ## Walks that keep to levels -/

/-- The visit shows the level of its instruction. -/
structure KeepsTo (method : Method) (level : Instruction → Nat) (visit : Visit) : Prop where
  declared : visit.instruction ∈ method.code
  counted : visit.Counted
  length : visit.slots.length = level visit.instruction

theorem KeepsTo.length_of_leaves (h : method.KeepsTo level visit)
    (hleaves : method.Leaves visit slots) :
    slots.length = visit.instruction.levelAfter (level visit.instruction) := by
  rw [hleaves.levelAfter h.counted, h.length]

namespace Levels

/-- What is handed to an instruction that is no handler has its level. -/
theorem length_of_forwards (h : method.Levels level) (hascending : method.Ascending)
    (hkeeps : method.KeepsTo level source) (hinst : inst ∈ method.code)
    (hhandler : method.isHandler inst.offset = false)
    (hforwards : method.Forwards source inst.offset slots) : slots.length = level inst := by
  rw [hkeeps.length_of_leaves hforwards.leaves]
  generalize hoffset : inst.offset = offset at hforwards
  cases hforwards with
  | jump target _ =>
    subst hoffset
    exact (h.jump _ hkeeps.declared _ hinst target hhandler).symm
  | @fall next _ adjacent falls handler _ =>
    obtain rfl : inst = next := hascending.offset_inj hinst (adjacent.subset (by simp)) hoffset
    exact (h.next _ _ adjacent falls handler).symm

/-- Visits that keep to levels hand on stacks that meet. -/
theorem not_disagree (h : method.Levels level) (hascending : method.Ascending)
    {visits : List Visit} (hkeeps : ∀ visit ∈ visits, method.KeepsTo level visit) :
    ¬ method.Disagree visits := by
  rintro ⟨first, hfirst, second, hsecond, offset, left, right, hleft, hright, hdepths⟩
  refine hdepths ?_
  -- Where one of them falls through, both have the level of the target.
  have hfallen : ∀ next ∈ method.code, method.isHandler next.offset = false →
      next.offset = offset → left.length = right.length := by
    rintro next hnext hhandler rfl
    rw [h.length_of_forwards hascending (hkeeps first hfirst) hnext hhandler hleft,
      h.length_of_forwards hascending (hkeeps second hsecond) hnext hhandler hright]
  cases hleft with
  | fall adjacent _ handler _ => exact hfallen _ (adjacent.subset (by simp)) handler rfl
  | jump hjump hleaves =>
    generalize hsame : offset = other at hright
    cases hright with
    | fall adjacent _ handler _ =>
      exact hfallen _ (adjacent.subset (by simp)) handler hsame.symm
    | jump hother hotherLeaves =>
      subst hsame
      rw [(hkeeps first hfirst).length_of_leaves hleaves,
        (hkeeps second hsecond).length_of_leaves hotherLeaves]
      exact h.meet _ (hkeeps first hfirst).declared _ (hkeeps second hsecond).declared _ hjump
        hother

/-- What control brings to the next instruction has its level. -/
theorem length_of_brings (h : method.Levels level) (hascending : method.Ascending)
    (walks : method.WalksTo done (inst :: rest) fallsThrough stack)
    (hkeeps : ∀ visit ∈ done, method.KeepsTo level visit)
    (hhandler : method.isHandler inst.offset = false) (hbrings : method.Brings done inst slots) :
    slots.length = level inst := by
  have hcode := walks.code_eq
  have hinst : inst ∈ method.code := by simp [← hcode]
  cases hbrings with
  | entry first =>
    subst first
    exact (h.first inst (by rw [← hcode]; rfl) hhandler).symm
  | @next earlier last _ split falls leaves =>
    have hlast : last ∈ done := by simp [split]
    have hadjacent : [last.instruction, inst] <:+: method.code :=
      ⟨earlier.map (·.instruction), rest, by rw [← hcode, split]; simp⟩
    exact h.length_of_forwards hascending (hkeeps last hlast) hinst hhandler
      (.fall hadjacent falls hhandler leaves)
  | @jump source _ visited target leaves =>
    have hforward : inst.offset ∈ source.instruction.forwardTargets :=
      List.mem_filter.2 ⟨target, decide_eq_true (walks.behind hascending source visited)⟩
    exact h.length_of_forwards hascending (hkeeps source visited) hinst hhandler
      (.jump hforward leaves)

/-- An instruction to which nothing is brought has level zero. -/
theorem eq_zero_of_not_brings (h : method.Levels level) (hascending : method.Ascending)
    (walks : method.WalksTo done (inst :: rest) fallsThrough stack)
    (hhandler : method.isHandler inst.offset = false)
    (hnone : ∀ source, ¬ method.Brings done inst source) : level inst = 0 := by
  have hcode := walks.code_eq
  have hprefix : done.map (·.instruction) ++ [inst] <+: method.code :=
    ⟨rest, by rw [← hcode]; simp⟩
  rcases walks.trail.last_leaves with ⟨hnil, _⟩ | ⟨earlier, last, hlast, hleaves, _⟩
  · exact absurd (.entry hnil) (hnone [])
  · have hadjacent : [last.instruction, inst] <:+: method.code :=
      ⟨earlier.map (·.instruction), rest, by rw [← hcode, hlast]; simp⟩
    have hfalls : last.instruction.fallsThrough = false :=
      Bool.eq_false_iff.2 fun hfalls => hnone stack.slots (.next hlast hfalls hleaves)
    refine h.isolated _ _ hadjacent hfalls (fun source hsource htarget => ?_) hhandler
    obtain ⟨htarget, hahead⟩ := List.mem_filter.1 htarget
    obtain ⟨jumping, hjumping, rfl⟩ :=
      hascending.mem_before hprefix hsource (of_decide_eq_true hahead)
    obtain ⟨slots, hslots, _⟩ := walks.trail.existsUnique_leaves jumping hjumping
    exact hnone slots (.jump hjumping htarget hslots)

/-- The step lemma: if all visits so far show their levels, then so does the
next one. -/
theorem step (h : method.Levels level) (hascending : method.Ascending)
    (walks : method.WalksTo done (inst :: rest) fallsThrough stack)
    (hkeeps : ∀ visit ∈ done, method.KeepsTo level visit)
    (reaches : method.reach method.loopHeads fallsThrough inst stack = .ok visit reached) :
    method.KeepsTo level visit := by
  have hcode := walks.code_eq
  have hinst : inst ∈ method.code := by simp [← hcode]
  have hshown := shown_of_reach reaches
  have hreached := reach_ok reaches
  obtain rfl := hreached.instruction
  refine ⟨hinst, hreached.effect, ?_⟩
  cases hhandler : method.isHandler visit.instruction.offset with
  | true => rw [(handler_of_shown hhandler hshown).2, h.handler _ hinst hhandler, List.length_singleton]
  | false =>
    obtain ⟨met, harriving, hlength⟩ := arriving_of_shown hhandler hshown
    rw [hlength]
    rcases walks.trail.joined_of_arriving (walks.behind hascending) harriving with
      ⟨hnone, rfl⟩ | hjoined
    · exact (h.eq_zero_of_not_brings hascending walks hhandler hnone).symm
    · obtain ⟨source, hsource⟩ := hjoined.nonempty
      rw [← hjoined.length_eq source hsource]
      exact h.length_of_brings hascending walks hkeeps hhandler hsource

/-- The run lemma: a walk shows the levels wherever it comes. -/
theorem keepsTo (h : method.Levels level) (hascending : method.Ascending)
    (walks : method.WalksTo done rest fallsThrough stack) :
    ∀ visit ∈ done, method.KeepsTo level visit := by
  induction walks with
  | start =>
    intro visit hvisit
    cases hvisit
  | step walks reaches _ ih =>
    intro visit hvisit
    rcases List.mem_append.1 hvisit with hvisit | hvisit
    · exact ih visit hvisit
    · rw [List.mem_singleton.1 hvisit]
      exact h.step hascending walks ih reaches

/-- A walk over code with levels does not fault when it arrives. -/
theorem not_arriving (h : method.Levels level) (hcounts : method.Counts)
    (hascending : method.Ascending)
    (walks : method.WalksTo done (inst :: rest) fallsThrough stack) :
    method.reach method.loopHeads fallsThrough inst stack ≠ .error fault failed := by
  intro fails
  have hinst : inst ∈ method.code := by simp [← walks.code_eq]
  rcases reach_fault fails with ⟨hhandler, hcrowded, _⟩ | ⟨hhandler, harriving⟩ | ⟨_, hraised⟩
  · obtain ⟨hroom, _⟩ := h.room inst hinst
    rw [h.handler inst hinst hhandler] at hroom
    exact hcrowded fun limit hlimit => hroom limit (walks.trail.limit_eq.symm.trans hlimit)
  · exact h.not_disagree hascending (h.keepsTo hascending walks)
      (walks.disagree_of_arriving hascending hhandler harriving)
  · obtain ⟨counts, hcounted⟩ := hcounts inst hinst
    cases hraised.symm.trans hcounted

/-- An instruction that keeps to its level finds what it takes, and has room
for what it leaves. -/
theorem exists_apply (h : method.Levels level)
    (walks : method.WalksTo done (inst :: rest) fallsThrough stack)
    (reaches : method.reach method.loopHeads fallsThrough inst stack = .ok visit reached)
    (hkeeps : method.KeepsTo level visit) :
    ∃ applied, inst.apply reached = .ok ⟨⟩ applied := by
  obtain ⟨hbounded, hlimit, hslots⟩ := walks.of_reach reaches
  obtain rfl := (reach_ok reaches).instruction
  have hdepth : reached.depth = level visit.instruction := by
    rw [← hkeeps.length, ← hslots]
    rfl
  have hroom := (h.room _ hkeeps.declared).2
  unfold Instruction.levelAfter at hroom
  rw [hkeeps.counted] at hroom
  have haccords := Instruction.apply_accords hkeeps.counted hbounded.current
  refine haccords.isOk_iff.2 ⟨?_, fun limit hmax => ?_⟩
  · rw [hdepth]
    exact h.deep _ hkeeps.declared _ hkeeps.counted
  · rw [hdepth]
    exact hroom limit (hlimit.symm.trans hmax)

/-- A walk over code with levels does not fault when it goes on. -/
theorem not_leaving (h : method.Levels level) (hascending : method.Ascending)
    (walks : method.WalksTo done (inst :: rest) fallsThrough stack)
    (reaches : method.reach method.loopHeads fallsThrough inst stack = .ok visit reached) :
    inst.leave reached ≠ .error fault failed := by
  intro fails
  have hdone := h.keepsTo hascending walks
  have hvisit := h.step hascending walks hdone reaches
  rcases Instruction.leave_fault fails with happly | ⟨applied, happly, hnotes⟩
  · obtain ⟨applied, happlied⟩ := h.exists_apply walks reaches hvisit
    cases happly.symm.trans happlied
  · refine h.not_disagree hascending (fun earlier hearlier => ?_)
      (walks.disagree_of_notes hascending reaches happly hnotes)
    rcases List.mem_append.1 hearlier with hearlier | hearlier
    · exact hdone earlier hearlier
    · rw [List.mem_singleton.1 hearlier]
      exact hvisit

/-- A walk over code with levels comes to its end. -/
theorem completes (h : method.Levels level) (hcounts : method.Counts)
    (hascending : method.Ascending) : method.walk.completes = true := by
  have hending := method.ending
  generalize method.walk = walk at hending
  cases hending with
  | complete walks => rfl
  | arriving walks fails => exact absurd fails (h.not_arriving hcounts hascending walks)
  | leaving walks reaches fails => exact absurd fails (h.not_leaving hascending walks reaches)

end Levels

/-! ## The methods that are analysed -/

/-- A method is walked to its end exactly if the slots of each instruction can
be counted and there are consistent levels.  There is then one assignment of
levels, and the walk shows it. -/
theorem completes_iff_levels (hascending : method.Ascending) :
    (method.walk.completes = true ↔ method.Counts ∧ ∃ level, method.Levels level) ∧
      (method.Counts → ∀ level, method.Levels level →
        method.walk.visits.map (fun visit => (visit.instruction, visit.slots.length)) =
          method.code.map fun inst => (inst, level inst)) := by
  refine ⟨⟨fun hcompletes => ⟨?_, _, levels_of_completes hascending hcompletes⟩,
    fun ⟨hcounts, _, hlevels⟩ => hlevels.completes hcounts hascending⟩,
    fun hcounts level hlevels => ?_⟩
  · intro inst hinst
    obtain ⟨visit, hvisit, rfl, _⟩ := exists_visit_of_completes hcompletes hinst
    exact ⟨visit.effect, counted_of_visit hvisit⟩
  · obtain ⟨_, _, walks⟩ := walksTo_of_completes (hlevels.completes hcounts hascending)
    have hcode := walks.code_eq
    rw [List.append_nil] at hcode
    rw [← hcode, List.map_map]
    refine List.map_congr_left fun visit hvisit => ?_
    exact Prod.ext rfl (hlevels.keepsTo hascending walks visit hvisit).length

/-- Two arms that meet at 11, a handler at 8, a jump back from 12, and code at
15 to which no control comes. -/
def armsAndHandler : Method where
  name := "run"
  descriptor := "(Z)V"
  maxStack := some 1
  code :=
    [ ⟨0, 0x1a, .none⟩
    , ⟨1, 0x99, .branch 10⟩
    , ⟨4, .iconst0, .none⟩
    , ⟨5, .goto, .branch 11⟩
    , ⟨8, .pop, .none⟩
    , ⟨9, .voidReturn, .none⟩
    , ⟨10, .iconst1, .none⟩
    , ⟨11, .pop, .none⟩
    , ⟨12, .goto, .branch 0⟩
    , ⟨15, .voidReturn, .none⟩ ]
  lines := []
  handlers := [8]

/-- There are levels for the code with a handler, and none for arms that
push different numbers of values. -/
theorem armsAndHandler_levels :
    armsAndHandler.Ascending ∧ armsAndHandler.walk.completes = true ∧ armsAndHandler.Counts ∧
      (∃ level, armsAndHandler.Levels level ∧
        armsAndHandler.code.map level = [0, 1, 0, 1, 1, 0, 0, 1, 0, 0]) ∧
      unevenArms.Ascending ∧ unevenArms.walk.completes = false ∧
      ¬ (unevenArms.Counts ∧ ∃ level, unevenArms.Levels level) := by
  have hcompletes : armsAndHandler.walk.completes = true := by decide +kernel
  have hfaults : unevenArms.walk.completes = false := by decide +kernel
  have hascending : armsAndHandler.Ascending := by decide
  obtain ⟨hiff, hunique⟩ := completes_iff_levels hascending
  obtain ⟨hcounts, level, hlevels⟩ := hiff.1 hcompletes
  refine ⟨hascending, hcompletes, hcounts, ⟨level, hlevels, ?_⟩, by decide, hfaults, fun h => ?_⟩
  · have hshown := congrArg (List.map Prod.snd) (hunique hcounts level hlevels)
    rw [List.map_map, List.map_map] at hshown
    have hdepths : armsAndHandler.walk.visits.map (·.slots.length) =
        [0, 1, 0, 1, 1, 0, 0, 1, 0, 0] := by decide +kernel
    exact hshown.symm.trans hdepths
  · have hcontrary := (completes_iff_levels (by decide)).1.2 h
    rw [hfaults] at hcontrary
    cases hcontrary

end Method

end BytecodeLint
