import BytecodeLint.Proofs.Growth

/-!
# The limit of the stack only decides overflow

A method may tell how many slots its stack needs.  The limit is looked at
wherever slots are put, also in the middle of a wide value, and the stacks
that jumps record travel on under it.  This module runs every program on the
stack beside the same program with a larger limit.  As long as the first does
not overflow, the two go the same way, and they fail for the same reason.

There are four groups.

* `LimitLe` orders the limits.  Without a limit there is room for everything.
* `StackM.Relaxed` says that a program does the same with a larger limit.  It
  holds of every operation, and so of both halves of a step.
* Walks and the faults that end them.
* The detectors of the catalog do not look at the limit, so an analysis
  reports the same.  `unchanged_of_limitLe` is the result.
-/

namespace BytecodeLint

open OperandStack

/-! ## Limits -/

/-- The second limit leaves at least as much room as the first. -/
def LimitLe : Option Nat → Option Nat → Prop
  | _, none => True
  | none, some _ => False
  | some limit, some larger => limit ≤ larger

instance : (limit larger : Option Nat) → Decidable (LimitLe limit larger)
  | some limit, some larger => inferInstanceAs (Decidable (limit ≤ larger))
  | none, some _ => inferInstanceAs (Decidable False)
  | some _, none => inferInstanceAs (Decidable True)
  | none, none => inferInstanceAs (Decidable True)

/-- There is no room for a slot. -/
def StackFault.isOverflow : StackFault → Bool
  | overflow _ => true
  | _ => false

namespace OperandStack

/-- The stack under another limit. -/
def relimit (stack : OperandStack) (limit : Option Nat) : OperandStack :=
  { stack with limit }

variable (stack : OperandStack) {larger : Option Nat}

@[simp] theorem relimit_slots : (stack.relimit larger).slots = stack.slots := rfl

@[simp] theorem relimit_depth : (stack.relimit larger).depth = stack.depth := rfl

@[simp] theorem relimit_recordedAt? (offset : Nat) :
    (stack.relimit larger).recordedAt? offset = stack.recordedAt? offset := rfl

@[simp] theorem relimit_arriving (offset : Nat) (fallsThrough : Bool) :
    (stack.relimit larger).arriving offset fallsThrough = stack.arriving offset fallsThrough := rfl

variable {stack}

theorem Fits.relimit {depth : Nat} (h : stack.Fits depth) (hle : LimitLe stack.limit larger) :
    (stack.relimit larger).Fits depth := by
  intro most hmost
  obtain rfl : larger = some most := hmost
  cases hlimit : stack.limit with
  | none =>
    rw [hlimit] at hle
    exact hle.elim
  | some limit =>
    rw [hlimit] at hle
    exact Nat.le_trans (h limit hlimit) hle

end OperandStack

/-! ## Programs on the stack -/

namespace StackM

variable {α β : Type}

/-- Under a larger limit the program gives the same result, unless it
overflows. -/
def Relaxed (program : StackM α) : Prop :=
  ∀ stack larger, LimitLe stack.limit larger →
    match program stack with
    | .ok value after =>
      after.limit = stack.limit ∧ program (stack.relimit larger) = .ok value (after.relimit larger)
    | .error fault failed =>
      fault.isOverflow = false →
        program (stack.relimit larger) = .error fault (failed.relimit larger)

namespace Relaxed

theorem pure (value : α) : Relaxed (pure value) :=
  fun _ _ _ => ⟨rfl, rfl⟩

theorem throw (fault : StackFault) : Relaxed (throw fault : StackM α) :=
  fun _ _ _ _ => rfl

theorem bind {program : StackM α} {next : α → StackM β} (h : Relaxed program)
    (hnext : ∀ value, Relaxed (next value)) : Relaxed (program >>= next) := by
  intro stack larger hle
  have hfirst := h stack larger hle
  simp only [bind_apply]
  cases hprogram : program stack with
  | error fault failed =>
    rw [hprogram] at hfirst
    intro hfault
    simp only [hfirst hfault]
  | ok value after =>
    rw [hprogram] at hfirst
    obtain ⟨hlimit, hsame⟩ := hfirst
    have hsecond := hnext value after larger (hlimit ▸ hle)
    simp only [hsame]
    cases hresult : next value after with
    | error fault failed =>
      rw [hresult] at hsecond
      exact hsecond
    | ok result last =>
      rw [hresult] at hsecond
      exact ⟨hsecond.1.trans hlimit, hsecond.2⟩

theorem ofExcept (result : Except StackFault α) :
    Relaxed (MonadExcept.ofExcept result : StackM α) := by
  cases result with
  | ok value => exact pure value
  | error fault => exact throw fault

/-! ### The operations on slots -/

theorem requireDepth (needed : Nat) : Relaxed (requireDepth needed) := by
  intro stack larger _
  rw [requireDepth_eq, requireDepth_eq, relimit_depth]
  by_cases hshort : stack.depth < needed
  · rw [if_pos hshort, if_pos hshort]
    exact fun _ => rfl
  · rw [if_neg hshort, if_neg hshort]
    exact ⟨rfl, rfl⟩

/-- Here alone the limit is looked at. -/
theorem requireRoom (extra : Nat) : Relaxed (requireRoom extra) := by
  intro stack larger hle
  rw [requireRoom_eq, requireRoom_eq, relimit_depth]
  by_cases hfits : stack.Fits (stack.depth + extra)
  · rw [if_pos hfits, if_pos (hfits.relimit hle)]
    exact ⟨rfl, rfl⟩
  · rw [if_neg hfits]
    exact nofun

theorem push (slot : Slot) : Relaxed (push slot) :=
  (requireRoom 1).bind fun _ _ _ _ => ⟨rfl, rfl⟩

theorem pushValue (slot : Slot) (width : Nat) : Relaxed (pushValue slot width) := by
  unfold OperandStack.pushValue
  split
  · exact (push .continuation).bind fun _ => push slot
  · exact (pure ()).bind fun _ => push slot

theorem pushResult (count : Nat) : Relaxed (pushResult count) := by
  unfold BytecodeLint.pushResult
  split
  · exact pure ()
  · exact pushValue .unknown count

theorem pop (count : Nat) : Relaxed (pop count) :=
  (requireDepth count).bind fun _ _ _ _ => ⟨rfl, rfl⟩

theorem dup (copy under : Nat) : Relaxed (dup copy under) :=
  (requireDepth (copy + under)).bind fun _ => (requireRoom copy).bind fun _ _ _ _ => ⟨rfl, rfl⟩

theorem swap : Relaxed swap := by
  intro stack larger _
  rw [swap_eq, swap_eq, relimit_depth, relimit_slots]
  by_cases hshort : stack.depth < 2
  · rw [if_pos hshort, if_pos hshort]
    exact fun _ => rfl
  · rw [if_neg hshort, if_neg hshort]
    exact ⟨rfl, rfl⟩

theorem replaceObject (offset : Nat) (slot : Slot) : Relaxed (replaceObject offset slot) :=
  fun _ _ _ => ⟨rfl, rfl⟩

theorem forget : Relaxed forget :=
  fun _ _ _ => ⟨rfl, rfl⟩

/-! ### Control flow and execution -/

theorem noteJump (target : Nat) : Relaxed (noteJump target) := by
  intro stack larger _
  rw [noteJump_eq, noteJump_eq, relimit_recordedAt?, relimit_slots]
  cases stack.recordedAt? target with
  | none => exact ⟨rfl, rfl⟩
  | some recorded =>
    simp only
    cases joinSlots target stack.slots recorded with
    | ok joined => exact ⟨rfl, rfl⟩
    | error fault => exact fun _ => rfl

theorem noteJumps (targets : List Nat) : Relaxed (targets.forM OperandStack.noteJump) := by
  induction targets with
  | nil => exact pure ()
  | cons target rest ih => exact (noteJump target).bind fun _ => ih

/-- A handler needs room for the exception. -/
theorem enter (offset : Nat) (fallsThrough isHandler : Bool) :
    Relaxed (enter offset fallsThrough isHandler) := by
  intro stack larger hle
  rw [enter_eq, enter_eq, relimit_arriving]
  cases isHandler with
  | true =>
    rw [if_pos rfl, if_pos rfl]
    by_cases hfits : stack.Fits 1
    · rw [if_pos hfits, if_pos (hfits.relimit hle)]
      exact ⟨rfl, rfl⟩
    · rw [if_neg hfits]
      exact nofun
  | false =>
    rw [if_neg Bool.false_ne_true, if_neg Bool.false_ne_true]
    cases stack.arriving offset fallsThrough with
    | ok slots => exact ⟨rfl, rfl⟩
    | error fault => exact fun _ => rfl

theorem perform (inst : Instruction) (counts : StackEffect) (effect : Effect) :
    Relaxed (inst.perform counts effect) := by
  have hpopAndPush :
      Relaxed (do let _ ← OperandStack.pop counts.pops; BytecodeLint.pushResult counts.pushes) :=
    (pop counts.pops).bind fun _ => pushResult counts.pushes
  cases effect with
  | pushConstant width => exact pushValue _ width
  | loadLocal width => exact pushValue _ width
  | dup copy under => exact dup copy under
  | swap => exact swap
  | getStatic =>
    simp only [Instruction.perform]
    split
    · exact pushValue _ _
    · exact throw _
  | getField =>
    simp only [Instruction.perform]
    split
    · exact (pop 1).bind fun _ => pushValue _ _
    · exact throw _
  | invoke =>
    refine (pop counts.pops).bind fun popped => ?_
    split
    · split
      · exact (replaceObject _ .unknown).bind fun _ => pushResult _
      · exact (pure ()).bind fun _ => pushResult _
    · exact (pure ()).bind fun _ => pushResult _
  | allocate => exact push _
  | checkCast => exact requireDepth 1
  | replace | putStatic | putField | invokeDynamic | allocateArrays => exact hpopAndPush

theorem apply (inst : Instruction) : Relaxed inst.apply :=
  (ofExcept _).bind fun _ => (ofExcept _).bind fun _ => perform inst _ _

theorem reach (method : Method) (heads : List Nat) (fallsThrough : Bool) (inst : Instruction) :
    Relaxed (method.reach heads fallsThrough inst) := by
  refine (enter inst.offset fallsThrough (method.isHandler inst.offset)).bind fun _ => ?_
  have hlook : Relaxed (do
      let effect ← MonadExcept.ofExcept inst.stackEffect
      return { instruction := inst, slots := (← get).slots, effect : Visit }) :=
    (ofExcept _).bind fun _ _ _ _ => ⟨rfl, rfl⟩
  split
  · exact forget.bind fun _ => hlook
  · exact (pure ()).bind fun _ => hlook

theorem leave (inst : Instruction) : Relaxed inst.leave :=
  (apply inst).bind fun _ => noteJumps _

end Relaxed

end StackM

/-! ## Walks -/

namespace Method

/-- The method with another limit. -/
def relimit (method : Method) (limit : Option Nat) : Method :=
  { method with maxStack := limit }

variable {method : Method} {larger : Option Nat}

theorem walkFrom_relimit (heads : List Nat) (rest : List Instruction) (fallsThrough : Bool)
    {stack : OperandStack} (hle : LimitLe stack.limit larger)
    (hroom : ∀ fault, (method.walkFrom heads rest fallsThrough stack).fault = some fault →
      fault.fault.isOverflow = false) :
    (method.relimit larger).walkFrom heads rest fallsThrough (stack.relimit larger) =
      method.walkFrom heads rest fallsThrough stack := by
  induction rest generalizing fallsThrough stack with
  | nil => rfl
  | cons inst rest ih =>
    have hreach := StackM.Relaxed.reach method heads fallsThrough inst stack larger hle
    have hsame : (method.relimit larger).reach heads fallsThrough inst =
        method.reach heads fallsThrough inst := rfl
    simp only [walkFrom, hsame] at hroom ⊢
    cases hresult : method.reach heads fallsThrough inst stack with
    | error fault failed =>
      simp only [hresult] at hreach hroom
      simp only [hreach (hroom _ rfl)]
    | ok visit reached =>
      simp only [hresult] at hreach hroom
      have hleave := StackM.Relaxed.leave inst reached larger (hreach.1 ▸ hle)
      simp only [hreach.2]
      cases hleft : inst.leave reached with
      | error fault failed =>
        simp only [hleft] at hleave hroom
        simp only [hleave (hroom _ rfl)]
      | ok value after =>
        simp only [hleft] at hleave hroom
        simp only [hleave.2]
        exact congrArg (Walk.cons visit)
          (ih inst.fallsThrough (hleave.1 ▸ hreach.1 ▸ hle) hroom)

theorem walk_relimit (hle : LimitLe method.maxStack larger)
    (hroom : ∀ fault, method.walk.fault = some fault → fault.fault.isOverflow = false) :
    (method.relimit larger).walk = method.walk :=
  walkFrom_relimit method.loopHeads method.code true hle hroom

theorem Reached.relimit {fallsThrough : Bool} {inst : Instruction} {stack reached : OperandStack}
    {visit : Visit} (h : method.Reached fallsThrough inst stack visit reached) :
    (method.relimit larger).Reached fallsThrough inst (stack.relimit larger) visit
      (reached.relimit larger) where
  instruction := h.instruction
  effect := h.effect
  handler := h.handler
  joined := h.joined
  stack := congrArg (OperandStack.relimit · larger) h.stack

theorem Reached.limit_eq {fallsThrough : Bool} {inst : Instruction} {stack reached : OperandStack}
    {visit : Visit} (h : method.Reached fallsThrough inst stack visit reached) :
    reached.limit = stack.limit := by
  rw [h.stack]
  rfl

theorem Trail.relimit {done : List Visit} {fallsThrough : Bool} {stack : OperandStack}
    (h : method.Trail done fallsThrough stack) (hle : LimitLe method.maxStack larger) :
    (method.relimit larger).Trail done fallsThrough (stack.relimit larger) := by
  induction h with
  | start => exact .start
  | @step done fallsThrough stack visit reached after trail code arrives leaves ih =>
    have hlimit : reached.limit = method.maxStack := arrives.limit_eq.trans trail.limit_eq
    have hleave := StackM.Relaxed.leave visit.instruction reached larger (hlimit ▸ hle)
    rw [leaves] at hleave
    exact .step ih code arrives.relimit hleave.2

/-- A fault other than an overflow is raised at the same instruction. -/
theorem FaultsAt.relimit {inst : Instruction} {fault : StackFault}
    (h : method.FaultsAt inst fault) (hle : LimitLe method.maxStack larger)
    (hroom : fault.isOverflow = false) : (method.relimit larger).FaultsAt inst fault := by
  cases h with
  | @arriving done fallsThrough stack failed trail code fails =>
    have hreach := StackM.Relaxed.reach method method.loopHeads fallsThrough inst stack larger
      (trail.limit_eq ▸ hle)
    rw [fails] at hreach
    exact .arriving (trail.relimit hle) code (hreach hroom)
  | @leaving done fallsThrough stack visit reached failed trail code arrives fails =>
    have hleave := StackM.Relaxed.leave inst reached larger
      ((arrives.limit_eq.trans trail.limit_eq) ▸ hle)
    rw [fails] at hleave
    exact .leaving (trail.relimit hle) code arrives.relimit (hleave hroom)

end Method

/-! ## Analyses -/

/-- The detector does not look at the limit of a method. -/
structure Detector.IgnoresLimit (detector : Detector) : Prop where
  accepts : ∀ (method : Method) limit opcodes,
    detector.accepts (method.relimit limit) opcodes = detector.accepts method opcodes
  enter : ∀ (method : Method) limit,
    detector.enter (method.relimit limit) = detector.enter method
  visit : ∀ (visit : Visit) (cls : Class) (method : Method) limit state,
    detector.visit { visit with cls, method := method.relimit limit } state =
      detector.visit { visit with cls, method } state
  leave : ∀ (method : Method) limit,
    detector.leave (method.relimit limit) = detector.leave method
  abandon : ∀ (method : Method) limit,
    detector.abandon (method.relimit limit) = detector.abandon method

theorem ignoresLimit_of_mem_catalog {detector : Detector} (h : detector ∈ catalog) :
    detector.IgnoresLimit := by
  simp only [catalog, List.mem_cons, List.not_mem_nil, or_false] at h
  rcases h with rfl | rfl | rfl | rfl | rfl
  · exact ⟨fun _ _ _ => rfl, fun _ _ => rfl, fun _ _ _ _ _ => rfl, fun _ _ => rfl, fun _ _ => rfl⟩
  · refine ⟨fun _ _ _ => rfl, fun _ _ => rfl, fun v cls method limit state => ?_, fun _ _ => rfl,
      fun _ _ => rfl⟩
    exact (Boxing.visit_eq _ state).trans (Boxing.visit_eq { v with cls, method } state).symm
  · refine ⟨fun _ _ _ => rfl, fun _ _ => rfl, fun v cls method limit state => ?_, fun _ _ => rfl,
      fun _ _ => rfl⟩
    exact (MemoryBloat.visit_eq _ state).trans
      (MemoryBloat.visit_eq { v with cls, method } state).symm
  · refine ⟨fun _ _ _ => rfl, fun _ _ => rfl, fun v cls method limit state => ?_, fun _ _ => rfl,
      fun _ _ => rfl⟩
    exact (DiscardedObject.visit_eq _ state).trans
      (DiscardedObject.visit_eq { v with cls, method } state).symm
  · exact ⟨fun _ _ _ => rfl, fun _ _ => rfl, fun _ _ _ _ _ => rfl, fun _ _ => rfl, fun _ _ => rfl⟩

section Analyses

variable {cls : Class} {method : Method} {larger : Option Nat}

theorem Pass.attempt_relimit {pass : Pass} (h : pass.detector ∈ catalog) :
    pass.attempt (method.relimit larger) = pass.attempt method := by
  have hignores := ignoresLimit_of_mem_catalog h
  have hopcodes : (method.relimit larger).opcodes = method.opcodes := rfl
  simp only [attempt, hopcodes, hignores.accepts, hignores.enter]

theorem Attempt.visit_relimit {attempt : Attempt} (h : attempt.pass.detector ∈ catalog)
    (methods : List Method) (visit : Visit) :
    attempt.visit
        { visit with cls := cls.withMethods methods, method := method.relimit larger } =
      attempt.visit { visit with cls, method } := by
  have hothers := (ignoresOthers_of_mem_catalog h).visit visit cls methods
    (method.relimit larger) attempt.pass.state
  have hlimit := (ignoresLimit_of_mem_catalog h).visit visit cls method larger attempt.pass.state
  have habandon := (ignoresLimit_of_mem_catalog h).abandon method larger
  by_cases hlive : attempt.isLive = true
  · cases hvisit : attempt.pass.detector.visit { visit with cls, method } attempt.pass.state with
    | ok found after =>
      rw [visit_of_ok hlive hvisit, visit_of_ok hlive (hothers.trans (hlimit.trans hvisit))]
    | error fault after =>
      rw [visit_of_error hlive hvisit, visit_of_error hlive (hothers.trans (hlimit.trans hvisit)),
        habandon]
      rfl
  · rw [visit_of_out (Bool.eq_false_iff.2 hlive), visit_of_out (Bool.eq_false_iff.2 hlive)]

theorem Attempt.follow_relimit (methods : List Method) (visits : List Visit)
    {attempts : List Attempt} (h : ∀ attempt ∈ attempts, attempt.pass.detector ∈ catalog) :
    follow (cls.withMethods methods) (method.relimit larger) visits attempts =
      follow cls method visits attempts := by
  induction visits generalizing attempts with
  | nil => rfl
  | cons visit rest ih =>
    have hfirst : visitAll
          { visit with cls := cls.withMethods methods, method := method.relimit larger } attempts =
        visitAll { visit with cls, method } attempts := by
      unfold visitAll
      rw [List.map_congr_left fun attempt hmem => visit_relimit (h attempt hmem) methods visit]
    have hnext : ∀ attempt ∈ (visitAll { visit with cls, method } attempts).1,
        attempt.pass.detector ∈ catalog := by
      intro attempt hattempt
      obtain ⟨_, hvisited, rfl⟩ := List.mem_map.1 hattempt
      obtain ⟨old, hold, rfl⟩ := List.mem_map.1 hvisited
      rw [visit_detector]
      exact h old hold
    simp only [follow, hfirst, ih hnext]

theorem Attempt.conclude_relimit {attempt : Attempt} (h : attempt.pass.detector ∈ catalog)
    (completes : Bool) :
    attempt.conclude (method.relimit larger) completes = attempt.conclude method completes := by
  have hignores := ignoresLimit_of_mem_catalog h
  simp only [conclude, hignores.leave, hignores.abandon]

/-- A method with the same walk gives the same passes, findings and
diagnostics. -/
theorem analyzeMethod_relimit {passes : List Pass} (h : ∀ pass ∈ passes, pass.detector ∈ catalog)
    (methods : List Method) (hwalk : (method.relimit larger).walk = method.walk) :
    analyzeMethod (cls.withMethods methods) passes (method.relimit larger) =
      analyzeMethod cls passes method := by
  have hattempts : passes.map (·.attempt (method.relimit larger)) = passes.map (·.attempt method) :=
    List.map_congr_left fun pass hpass => Pass.attempt_relimit (h pass hpass)
  have hdetectors : ∀ attempt ∈ passes.map (·.attempt method),
      attempt.pass.detector ∈ catalog := by
    intro attempt hattempt
    obtain ⟨pass, hpass, rfl⟩ := List.mem_map.1 hattempt
    rw [Pass.attempt_detector]
    exact h pass hpass
  have hfollow : Attempt.follow (cls.withMethods methods) (method.relimit larger)
      method.walk.visits (passes.map (·.attempt method)) = _ :=
    Attempt.follow_relimit methods method.walk.visits hdetectors
  have hconclude : ∀ attempt ∈ (Attempt.follow cls method method.walk.visits
      (passes.map (·.attempt method))).1,
      attempt.conclude (method.relimit larger) method.walk.completes =
        attempt.conclude method method.walk.completes := by
    intro attempt hattempt
    refine Attempt.conclude_relimit ?_ _
    have hmem := List.mem_map_of_mem (f := (·.pass.detector)) hattempt
    rw [Attempt.follow_detectors] at hmem
    obtain ⟨first, hfirst, heq⟩ := List.mem_map.1 hmem
    exact heq ▸ hdetectors first hfirst
  have hdiagnostic : ∀ fault : WalkFault,
      fault.diagnostic (cls.withMethods methods) (method.relimit larger) =
        fault.diagnostic cls method := fun _ => rfl
  simp only [analyzeMethod, hattempts, hwalk, hfollow, hdiagnostic,
    List.map_congr_left hconclude]

/-- The second method is the first with another limit, and its walk is the
same. -/
def Method.WalksLike (method other : Method) : Prop :=
  ∃ limit, other = method.relimit limit ∧ other.walk = method.walk

theorem Method.WalksLike.refl (method : Method) : method.WalksLike method :=
  ⟨method.maxStack, rfl, rfl⟩

theorem analyzeMethods_walksLike {passes : List Pass}
    (h : ∀ pass ∈ passes, pass.detector ∈ catalog) (all : List Method)
    {methods others : List Method} (hlike : List.Forall₂ Method.WalksLike methods others) :
    analyzeMethods (cls.withMethods all) passes (others.filter Method.hasBody) =
      analyzeMethods cls passes (methods.filter Method.hasBody) := by
  induction hlike generalizing passes with
  | nil => rfl
  | @cons method other methods others hfirst _ ih =>
    obtain ⟨limit, rfl, hwalk⟩ := hfirst
    have hbody : (method.relimit limit).hasBody = method.hasBody := rfl
    rw [List.filter_cons, List.filter_cons, hbody]
    cases method.hasBody with
    | false =>
      rw [if_neg Bool.false_ne_true, if_neg Bool.false_ne_true]
      exact ih h
    | true =>
      have hnext : ∀ pass ∈ (analyzeMethod cls passes method).1, pass.detector ∈ catalog := by
        intro pass hpass
        rw [analyzeMethod_passes] at hpass
        obtain ⟨first, hmem, rfl⟩ := List.mem_map.1 hpass
        exact h first hmem
      rw [if_pos rfl, if_pos rfl]
      simp only [analyzeMethods, analyzeMethod_relimit h all hwalk, ih hnext]

/-- A class whose methods walk alike is analysed alike. -/
theorem analyzeClass_walksLike {detectors : List Detector}
    (hcatalog : ∀ detector ∈ detectors, detector ∈ catalog) {others : List Method}
    (hlike : List.Forall₂ Method.WalksLike cls.methods others) :
    analyzeClass detectors (cls.withMethods others) = analyzeClass detectors cls := by
  have hbegun : begun detectors (cls.withMethods others) = begun detectors cls := by
    refine List.filterMap_congr fun detector hmem => ?_
    unfold Pass.start?
    rw [(ignoresOthers_of_mem_catalog (hcatalog detector hmem)).start]
  have hmethods : analyzeMethods (cls.withMethods others) (begun detectors cls)
        (others.filter Method.hasBody) =
      analyzeMethods cls (begun detectors cls) (cls.methods.filter Method.hasBody) :=
    analyzeMethods_walksLike (fun pass hpass => hcatalog _ (mem_of_mem_begun hpass)) others hlike
  unfold begun at hbegun hmethods
  simp only [analyzeClass, hbegun]
  show Analysis.mk _ _ = Analysis.mk _ _
  simp only [Class.withMethods] at hmethods ⊢
  rw [hmethods]

end Analyses

/-- A method that does not overflow is left as it is by a larger limit: it has
the same visits with the same slots, and if it faults, then at the same
instruction for the same reason.  The same calls fill and empty fields, and
every selection of detectors reports the same, of the method and of the
class. -/
theorem unchanged_of_limitLe {detectors : List Detector}
    (hcatalog : ∀ detector ∈ detectors, detector ∈ catalog) {cls : Class}
    {before after : List Method} {method : Method} {larger : Option Nat}
    (hmethods : cls.methods = before ++ method :: after)
    (hle : LimitLe method.maxStack larger)
    (hroom : ∀ fault, method.walk.fault = some fault → fault.fault.isOverflow = false) :
    (method.relimit larger).walk = method.walk ∧
      (∀ inst fault, method.FaultsAt inst fault → fault.isOverflow = false →
        (method.relimit larger).FaultsAt inst fault) ∧
      MemoryBloat.changesIn cls (method.relimit larger) = MemoryBloat.changesIn cls method ∧
      (∀ passes : List Pass, (∀ pass ∈ passes, pass.detector ∈ detectors) →
        analyzeMethod cls passes (method.relimit larger) = analyzeMethod cls passes method) ∧
      analyzeClass detectors (cls.withMethods (before ++ method.relimit larger :: after)) =
        analyzeClass detectors cls := by
  have hwalk : (method.relimit larger).walk = method.walk := Method.walk_relimit hle hroom
  have hlike : List.Forall₂ Method.WalksLike cls.methods
      (before ++ method.relimit larger :: after) := by
    rw [hmethods]
    refine List.rel_append (List.forall₂_same.2 fun other _ => .refl other) ?_
    exact .cons ⟨larger, rfl, hwalk⟩ (List.forall₂_same.2 fun other _ => .refl other)
  refine ⟨hwalk, fun inst fault h hfault => h.relimit hle hfault, ?_, fun passes hpasses => ?_,
    analyzeClass_walksLike hcatalog hlike⟩
  · unfold MemoryBloat.changesIn
    rw [hwalk]
    rfl
  · exact analyzeMethod_relimit (fun pass hpass => hcatalog _ (hpasses pass hpass)) cls.methods
      hwalk

/-- More room does not help the method that underflows, and changes nothing for
the methods that have room enough.  With less room these overflow. -/
theorem clearedInVain_unchanged :
    (∀ detector ∈ catalog, detector ∈ catalog) ∧
      clearedInVain.methods = [addToLog] ++ clearThenUnderflow :: [addToLog] ∧
      LimitLe clearThenUnderflow.maxStack (some 3) ∧
      clearThenUnderflow.walk.fault = some ⟨11, .underflow 2 1⟩ ∧
      (clearThenUnderflow.relimit (some 3)).walk.fault = some ⟨11, .underflow 2 1⟩ ∧
      analyzeClass catalog (clearedInVain.withMethods
          [addToLog, clearThenUnderflow.relimit (some 3), addToLog]) =
        analyzeClass catalog clearedInVain ∧
      LimitLe addToLog.maxStack none ∧ addToLog.walk.fault = none ∧
      MemoryBloat.changesIn clearedInVain (addToLog.relimit none) =
        [.fill ⟨"Demo", "log", "Ljava/util/List;"⟩
          ⟨"Demo", "add", "(Ljava/lang/Object;)V", 4, none, none⟩] ∧
      (addToLog.relimit (some 1)).walk.fault = some ⟨3, .overflow 1⟩ := by
  have hcatalog : ∀ detector ∈ catalog, detector ∈ catalog := fun _ h => h
  have hmethods : clearedInVain.methods = [addToLog] ++ clearThenUnderflow :: [addToLog] := rfl
  have hunderflow : clearThenUnderflow.walk.fault = some ⟨11, .underflow 2 1⟩ := by decide +kernel
  have hcompletes : addToLog.walk.fault = none := by decide +kernel
  have hthree : LimitLe clearThenUnderflow.maxStack (some 3) := by decide
  have hnone : LimitLe addToLog.maxStack none := by decide
  have hfirst : clearedInVain.methods = [] ++ addToLog :: [clearThenUnderflow, addToLog] := rfl
  obtain ⟨hwalk, _, _, _, hclass⟩ :=
    unchanged_of_limitLe hcatalog hmethods hthree fun fault hfault => by
      cases hunderflow.symm.trans hfault
      rfl
  obtain ⟨_, _, hchanges, _, _⟩ :=
    unchanged_of_limitLe hcatalog hfirst hnone fun fault hfault => by
      cases hcompletes.symm.trans hfault
  refine ⟨hcatalog, hmethods, hthree, hunderflow, hwalk ▸ hunderflow, hclass, hnone, hcompletes,
    ?_, by decide +kernel⟩
  rw [hchanges]
  decide +kernel

end BytecodeLint
