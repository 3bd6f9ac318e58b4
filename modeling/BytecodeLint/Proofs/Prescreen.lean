import BytecodeLint.Proofs.Abandonment
import BytecodeLint.Proofs.Contents
import BytecodeLint.Proofs.Operands
import BytecodeLint.Proofs.Visits

/-!
# Nothing is lost by the prescreen

A detector looks at the opcodes of a method and may reject the method before
its code is read.  This module shows what would become of a method that is
rejected, if the detector took it up all the same: it finds nothing there,
and whatever it finds later is the same.

For three detectors the missing opcode is that of the instruction that would
be reported.  The other two miss an opcode that brings a literal or an object
onto the stack, and the instruction that would be reported stands far from
it, behind copies and joins.  `Method.forall_slots_of_visit` says that there
is no such slot anywhere.

Two detectors rely on more than the opcodes.  Literals are looked for at
`ldc` and `ldc_w`, so no other instruction may carry a string.  And memory
bloat leaves the initializers out, which may well fill a collection.

There are four groups.

* The opcodes that a method has not.
* `Detector.PassesOver`: no visit of the method tells the detector anything.
  There is one lemma for each detector.
* The later results.
* `unscreened_of_rejects` is the result.
-/

namespace BytecodeLint

/-! ## Missing opcodes -/

namespace Method

/-- Strings are carried by the short constant loads only. -/
def StringsInLdc (method : Method) : Prop :=
  ∀ inst ∈ method.code, (inst.constant?.bind Constant.string?).isSome = true →
    inst.opcode = .ldc ∨ inst.opcode = .ldcW

instance (method : Method) : Decidable method.StringsInLdc :=
  inferInstanceAs (Decidable (∀ inst ∈ method.code, _ → _))

end Method

/-- Only `new` brings an object onto the stack. -/
theorem Opcode.eq_new_of_allocate : ∀ op : Opcode, op.effect? = some .allocate → op = new :=
  Opcode.forall_of_byte (by decide +kernel)

/-- No opcode holds a string. -/
theorem Opcode.string?_of_heldConstant? : ∀ op : Opcode, ∀ literal ∈ op.heldConstant?,
    literal.string? = none :=
  Opcode.forall_of_byte (by decide +kernel)

theorem Instruction.string?_literal (inst : Instruction) :
    inst.literal.string? = inst.constant?.bind Constant.string? := by
  unfold literal
  cases inst.constant? with
  | some value => rfl
  | none =>
    cases hheld : inst.opcode.heldConstant? with
    | some value => exact Opcode.string?_of_heldConstant? _ value hheld
    | none => rfl

/-- What no slot shows is not seen at any depth. -/
theorem Step.bind_peek?_eq_none {α : Type} {step : Step} {view : Slot → Option α}
    (h : ∀ slot ∈ step.slots, view slot = none) (below : Nat) :
    (step.peek? below).bind view = none := by
  refine Option.bind_eq_none_iff.2 fun slot hslot => h slot ?_
  exact List.mem_of_getElem? hslot

/-! ## Methods that tell nothing -/

namespace Detector

variable {detector : Detector} {cls : Class} {method : Method}

/-- The detector goes through the method without a finding and without a
failure, and leaving the method changes nothing. -/
def PassesOver (detector : Detector) (cls : Class) (method : Method) (state : detector.State) :
    Prop :=
  ∃ last, detector.follow cls method method.walk.visits (detector.enter method state) =
    .ok [] last ∧ detector.leave method last = last

/-- Visits that find nothing, one after another.  What each of them keeps of
the state, all of them keep. -/
theorem follow_eq_nil (keeps : detector.State → Prop) {visits : List Visit}
    (hvisit : ∀ visit ∈ visits, ∀ state, keeps state →
      ∃ after, detector.visit { visit with cls, method } state = .ok [] after ∧ keeps after)
    {state : detector.State} (h : keeps state) :
    ∃ last, detector.follow cls method visits state = .ok [] last ∧ keeps last := by
  induction visits generalizing state with
  | nil => exact ⟨state, rfl, h⟩
  | cons visit rest ih =>
    obtain ⟨hfirst, hrest⟩ := List.forall_mem_cons.1 hvisit
    obtain ⟨after, hok, hkept⟩ := hfirst state h
    obtain ⟨last, hlater, hlast⟩ := ih hrest hkept
    refine ⟨last, ?_, hlast⟩
    rw [follow_cons, hok]
    simp only [hlater, List.nil_append]

theorem PassesOver.of_visits {state : detector.State} (keeps : detector.State → Prop)
    (hvisit : ∀ visit ∈ method.walk.visits, ∀ state, keeps state →
      ∃ after, detector.visit { visit with cls, method } state = .ok [] after ∧ keeps after)
    (henter : keeps (detector.enter method state))
    (hleave : ∀ last, keeps last → detector.leave method last = last) :
    detector.PassesOver cls method state := by
  obtain ⟨last, hfollow, hlast⟩ := follow_eq_nil keeps hvisit henter
  exact ⟨last, hfollow, hleave last hlast⟩

end Detector

section Rejected

variable {method : Method}

/-- Without a literal on the stack there is no comparison with one. -/
theorem LiteralComparison.passesOver (hrejects : detector.accepts method method.opcodes = false)
    (hstrings : method.StringsInLdc) (cls : Class) (state : detector.State) :
    detector.PassesOver cls method state := by
  have hlacks : ∀ op ∈ [Opcode.ldc, .ldcW], method.opcodes.contains op = false :=
    OpcodeSet.containsAny_eq_false_iff.1 hrejects
  have hliteral : ∀ inst ∈ method.code, inst.literal.string? = none := by
    intro inst hinst
    rw [inst.string?_literal]
    refine Option.not_isSome_iff_eq_none.1 fun hstring => ?_
    rcases hstrings inst hinst hstring with hopcode | hopcode
    · exact Method.opcode_ne_of_lacks (hlacks _ (by simp)) hinst hopcode
    · exact Method.opcode_ne_of_lacks (hlacks _ (by simp)) hinst hopcode
  have hslots : ∀ visit ∈ method.walk.visits, ∀ slot ∈ visit.slots, slot.string? = none :=
    fun _ => Method.forall_slots_of_visit ⟨fun _ => rfl, rfl⟩
      fun inst hinst => ⟨fun _ _ => hliteral inst hinst, fun _ => rfl⟩
  refine .of_visits (fun _ => True) (fun visit hvisit state _ => ?_) trivial fun _ _ => rfl
  have hnone : hasLiteralArgument { visit with cls, method } = false := by
    unfold hasLiteralArgument
    rw [Step.bind_peek?_eq_none (hslots visit hvisit)]
    rfl
  refine ⟨state, (visit_eq _ state).trans ?_, trivial⟩
  rw [hnone, Bool.and_false, if_neg Bool.false_ne_true]

theorem Boxing.visit_of_rule?_eq_none (step : Step) {progress : Progress}
    (h : progress.state.rule? step.instruction = none) :
    ∃ after, visit step progress = .ok [] after := by
  rw [visit_eq, h]
  split
  · exact ⟨_, rfl⟩
  · exact ⟨_, rfl⟩

theorem Boxing.passesOver (hrejects : detector.accepts method method.opcodes = false)
    (cls : Class) (state : detector.State) : detector.PassesOver cls method state := by
  have hlacks : ∀ op ∈ [Opcode.invokevirtual, .invokestatic, .invokespecial],
      method.opcodes.contains op = false :=
    OpcodeSet.containsAny_eq_false_iff.1 hrejects
  refine .of_visits (fun _ => True) (fun visit hvisit progress _ => ?_) trivial fun _ _ => rfl
  have hrule : progress.state.rule? visit.instruction = none := by
    refine State.rule?_eq_none (fun op hop p => ?_) _
    have hother := Method.opcode_beq_eq_false (hlacks op (by simpa [or_comm] using hop)) hvisit
    rw [hother, Bool.false_and]
  obtain ⟨after, hok⟩ := visit_of_rule?_eq_none { visit with cls, method } hrule
  exact ⟨after, hok, trivial⟩

theorem MemoryBloat.visit_of_sizeChange?_eq_none {step : Step} {state : State}
    (h : sizeChange? step = none) : visit step state = .ok [] state := by
  rw [visit_eq, h]

/-- Without a call of a method of an object no change of a size is noted, so the
fields stay as they are. -/
theorem MemoryBloat.passesOver (hrejects : detector.accepts method method.opcodes = false)
    (hconstructor : method.isConstructor = false)
    (hinitializer : method.isClassInitializer = false) (cls : Class) (state : detector.State) :
    detector.PassesOver cls method state := by
  have hopcodes : (!method.isConstructor && !method.isClassInitializer &&
      method.opcodes.containsAny [.invokevirtual, .invokeinterface]) = false := hrejects
  rw [hconstructor, hinitializer] at hopcodes
  have hlacks : ∀ op ∈ [Opcode.invokevirtual, .invokeinterface],
      method.opcodes.contains op = false :=
    OpcodeSet.containsAny_eq_false_iff.1 hopcodes
  refine .of_visits (· = detector.enter method state) (fun visit hvisit before hbefore => ?_) rfl
    fun last hlast => ?_
  · have hnone : sizeChange? { visit with cls, method } = none := by
      have hvirtual := Method.opcode_beq_eq_false (hlacks .invokevirtual (by simp)) hvisit
      have hinterface := Method.opcode_beq_eq_false (hlacks .invokeinterface (by simp)) hvisit
      exact if_neg (by simp only [Step.opcode, hvirtual, hinterface]; decide)
    exact ⟨before, visit_of_sizeChange?_eq_none hnone, hbefore⟩
  · rw [hlast]
    rfl

/-- A visit that shows no constructor call of a fresh object leaves nothing
pending. -/
theorem DiscardedObject.visit_of_remainsAt_eq_none {step : Step} (h : remainsAt step = .ok none) :
    visit step none = .ok [] none := by
  rw [visit_eq, h]
  rfl

theorem DiscardedObject.remains?_eq_none {step : Step}
    (h : ∀ slot ∈ step.slots, slot.allocation? = none) (params : Nat) :
    remains? step params = none := by
  unfold remains?
  rw [Step.bind_peek?_eq_none h]
  rfl

theorem DiscardedObject.remainsAt_of_slots {step : Step} (hcounted : step.toVisit.Counted)
    (h : ∀ slot ∈ step.slots, slot.allocation? = none) : remainsAt step = .ok none := by
  obtain ⟨remains, hok⟩ := remainsAt_of_counted hcounted
  rw [hok]
  unfold remainsAt at hok
  split at hok
  · exact hok.symm
  · split at hok
    · rw [remains?_eq_none h] at hok
      exact hok.symm
    · cases hok

theorem DiscardedObject.remainsAt_of_opcode {step : Step}
    (h : (step.instruction.opcode == .invokespecial) = false) : remainsAt step = .ok none := by
  have hnone : constructorCall? step = none := if_neg (by simp [Step.opcode, h])
  unfold remainsAt
  rw [hnone]

/-- Without an allocation no object is under construction, and without a special
call no constructor is called. -/
theorem DiscardedObject.passesOver (hrejects : detector.accepts method method.opcodes = false)
    (cls : Class) (state : detector.State) : detector.PassesOver cls method state := by
  have hremains : ∀ visit ∈ method.walk.visits,
      remainsAt { visit with cls, method } = .ok none := by
    intro visit hvisit
    rcases Bool.and_eq_false_iff.1 hrejects with hnew | hspecial
    · refine remainsAt_of_slots (Method.counted_of_visit hvisit) ?_
      refine Method.forall_slots_of_visit ⟨fun _ => rfl, rfl⟩ (fun inst hinst => ?_) hvisit
      refine ⟨fun _ _ => rfl, fun hallocate => ?_⟩
      exact absurd (Opcode.eq_new_of_allocate _ hallocate) (Method.opcode_ne_of_lacks hnew hinst)
    · exact remainsAt_of_opcode (Method.opcode_beq_eq_false hspecial hvisit)
  refine .of_visits (· = none) (fun visit hvisit pending hpending => ?_) rfl fun _ _ => rfl
  rw [hpending]
  exact ⟨none, visit_of_remainsAt_eq_none (hremains visit hvisit), rfl⟩

/-- The idiom ends with a call of a method of an object. -/
theorem SelfAssignment.visit_of_opcode (step : Step) {progress : Progress}
    (h : (step.instruction.opcode == .invokevirtual) = false) :
    ∃ after, visit step progress = .ok [] after := by
  have hnone : (progress.advance step.instruction).2 = none := by
    refine Option.eq_none_iff_forall_ne_some.2 fun subject hsubject => ?_
    obtain ⟨_, _, _, _, hsetter, _⟩ := Progress.got_of_advance hsubject
    unfold isSetterCall at hsetter
    rw [h, Bool.false_and] at hsetter
    cases hsetter
  rw [visit_eq, hnone]
  exact ⟨_, rfl⟩

theorem SelfAssignment.passesOver (hrejects : detector.accepts method method.opcodes = false)
    (cls : Class) (state : detector.State) : detector.PassesOver cls method state := by
  refine .of_visits (fun _ => True) (fun visit hvisit progress _ => ?_) trivial fun _ _ => rfl
  have hother := Method.opcode_beq_eq_false hrejects hvisit
  obtain ⟨after, hok⟩ := visit_of_opcode { visit with cls, method } hother
  exact ⟨after, hok, trivial⟩

end Rejected

/-! ## Later results -/

/-- The detector without its prescreen. -/
def Detector.unscreened (detector : Detector) : Detector :=
  { detector with accepts := fun _ _ => true }

section Later

variable {detector : Detector} {κ : Type} {part : detector.State → κ} {cls : Class}
  {method : Method} {state state' : detector.State}

theorem Detector.follow_unscreened (visits : List Visit) :
    detector.unscreened.follow cls method visits = detector.follow cls method visits := by
  induction visits with
  | nil => rfl
  | cons visit rest ih =>
    have hvisit : detector.unscreened.follow cls method (visit :: rest) =
        (do
          let found ← detector.visit { visit with cls, method }
          let later ← detector.unscreened.follow cls method rest
          return found ++ later : EStateM DetectorFault detector.State (List Finding)) := rfl
    rw [hvisit, ih]
    rfl

/-- A method that tells nothing keeps the part of the state that outlives a
method. -/
theorem Detector.PassesOver.part_after (h : detector.PassesOver cls method state)
    (hpart : detector.OnlyLeaveChanges part) :
    part (detector.unscreened.after cls state method) = part state := by
  obtain ⟨last, hfollow, hleave⟩ := h
  have hlast : part last = part state := by
    have hkept := hpart.part_follow cls method method.walk.visits state
    rw [hfollow] at hkept
    exact hkept
  have hafter : detector.unscreened.after cls state method =
      if method.walk.completes then detector.leave method last
      else detector.abandon method last :=
    Detector.after_of_ok rfl
      ((congrFun (Detector.follow_unscreened _) (detector.enter method state)).trans hfollow)
  rw [hafter]
  split
  · rw [hleave]
    exact hlast
  · exact (hpart.abandon method last).trans hlast

/-- A pass runs like itself. -/
def Coupling.same (detector : Detector) (cls : Class) : Coupling detector cls cls where
  between := Eq
  within := Eq
  enter _ _ _ h := congrArg _ h
  visit _ _ _ _ h := h ▸ .refl _
  leave _ _ _ h := congrArg _ h
  abandon _ _ _ h := congrArg _ h

/-- States with the same lasting part are as good as each other. -/
def Coupling.ofPart (hpart : detector.OnlyLeaveChanges part) (cls : Class) :
    Coupling detector cls cls where
  between state state' := part state = part state'
  within := Eq
  enter method _ _ h := hpart.decides_enter method h
  visit _ _ _ _ h := h ▸ .refl _
  leave _ _ _ h := congrArg _ (congrArg _ h)
  abandon _ _ _ h := congrArg _ (congrArg _ h)

theorem passesCoupled_refl (passes : List Pass) : PassesCoupled cls cls passes passes :=
  List.forall₂_same.2 fun pass _ => .mk (.same pass.detector cls) rfl

/-- What comes later is a matter of the lasting part of the state. -/
theorem analyzeMethods_of_part (hpart : detector.OnlyLeaveChanges part)
    (hsame : part state = part state') (before behind : List Pass) (methods : List Method) :
    (analyzeMethods cls (before ++ ⟨detector, state⟩ :: behind) methods).2 =
        (analyzeMethods cls (before ++ ⟨detector, state'⟩ :: behind) methods).2 ∧
      (analyzeMethods cls (before ++ ⟨detector, state⟩ :: behind) methods).1.flatMap Pass.finish =
        (analyzeMethods cls (before ++ ⟨detector, state'⟩ :: behind) methods).1.flatMap
          Pass.finish := by
  have hcoupled : PassesCoupled cls cls (before ++ ⟨detector, state⟩ :: behind)
      (before ++ ⟨detector, state'⟩ :: behind) :=
    List.rel_append (passesCoupled_refl before)
      (.cons (.mk (.ofPart hpart cls) hsame) (passesCoupled_refl behind))
  refine ⟨(analyzeMethods_coupled hcoupled rfl methods).2, ?_⟩
  rw [analyzeMethods_passes, analyzeMethods_passes]
  simp only [List.flatMap_map, List.flatMap_append, List.flatMap_cons, Pass.foldl_after,
    Pass.finish]
  rw [hpart.decides_finish (hpart.foldl_congr methods hsame)]

end Later

/-! ## The result -/

theorem passesOver_of_rejects {detector : Detector} (hdetector : detector ∈ catalog)
    {method : Method} (hrejects : detector.accepts method method.opcodes = false)
    (hstrings : detector = LiteralComparison.detector → method.StringsInLdc)
    (hinitializer : detector = MemoryBloat.detector →
      method.isConstructor = false ∧ method.isClassInitializer = false)
    (cls : Class) (state : detector.State) : detector.PassesOver cls method state := by
  simp only [catalog, List.mem_cons, List.not_mem_nil, or_false] at hdetector
  rcases hdetector with rfl | rfl | rfl | rfl | rfl
  · exact LiteralComparison.passesOver hrejects (hstrings rfl) cls state
  · exact Boxing.passesOver hrejects cls state
  · exact MemoryBloat.passesOver hrejects (hinitializer rfl).1 (hinitializer rfl).2 cls state
  · exact DiscardedObject.passesOver hrejects cls state
  · exact SelfAssignment.passesOver hrejects cls state

/-- If a detector took up a method that it rejects, it would find nothing at the
visits of the walk, and fail at none of them.  The part of its state that
outlives a method would stay as it is: for memory bloat these are the fields
with their growth (`MemoryBloat.onlyLeaveChanges`).  An analysis would go on
with the same results to the end of the class.

Literals are looked for at two opcodes, so no other instruction may carry a
string.  Memory bloat leaves the initializers out for another reason than their
opcodes. -/
theorem unscreened_of_rejects {detector : Detector} (hdetector : detector ∈ catalog)
    {method : Method} (hrejects : detector.accepts method method.opcodes = false)
    (hstrings : detector = LiteralComparison.detector → method.StringsInLdc)
    (hinitializer : detector = MemoryBloat.detector →
      method.isConstructor = false ∧ method.isClassInitializer = false)
    (cls : Class) (state : detector.State) :
    ∃ after : detector.State,
      (analyzeMethod cls [⟨detector.unscreened, state⟩] method).1 =
          [⟨detector.unscreened, after⟩] ∧
        (analyzeMethod cls [⟨detector.unscreened, state⟩] method).2.findings = [] ∧
        (∃ last, detector.follow cls method method.walk.visits (detector.enter method state) =
          .ok [] last) ∧
        (∀ {κ : Type} (part : detector.State → κ), detector.OnlyLeaveChanges part →
          part after = part state) ∧
        ∀ (before behind : List Pass) (methods : List Method),
          (analyzeMethods cls (before ++ ⟨detector, after⟩ :: behind) methods).2 =
              (analyzeMethods cls (before ++ ⟨detector, state⟩ :: behind) methods).2 ∧
            (analyzeMethods cls (before ++ ⟨detector, after⟩ :: behind) methods).1.flatMap
                Pass.finish =
              (analyzeMethods cls (before ++ ⟨detector, state⟩ :: behind) methods).1.flatMap
                Pass.finish := by
  have hover := passesOver_of_rejects hdetector hrejects hstrings hinitializer cls state
  obtain ⟨last, hfollow, _⟩ := id hover
  obtain ⟨part, hpart⟩ := onlyLeaveChanges_of_mem_catalog hdetector
  refine ⟨detector.unscreened.after cls state method, analyzeMethod_passes .., ?_,
    ⟨last, hfollow⟩, fun part hpart => hover.part_after hpart,
    analyzeMethods_of_part hpart (hover.part_after hpart)⟩
  rw [analyzeMethod_findings, List.flatMap_singleton]
  refine List.eq_nil_iff_forall_not_mem.2 fun finding hfinding => ?_
  obtain ⟨_, _, found, after, hfound, hmem⟩ := Detector.mem_foundIn.1 hfinding
  cases hfollow.symm.trans
    ((congrFun (Detector.follow_unscreened _) (detector.enter method state)).symm.trans hfound)
  cases hmem

/-- A method that lets a static method fill the list `log`. -/
def fillLog : Method where
  name := "fill"
  descriptor := "(Ljava/lang/Object;)V"
  maxStack := some 2
  code :=
    [ ⟨0, .getstatic, .field ⟨"Demo", "log", "Ljava/util/List;"⟩⟩
    , ⟨3, 0x2a, .localVar 0⟩
    , ⟨4, .invokestatic,
        .call ⟨.static, "Demo", "add", "(Ljava/util/List;Ljava/lang/Object;)V"⟩⟩
    , ⟨7, .voidReturn, .none⟩ ]
  lines := []
  handlers := []

/-- The detector of memory bloat rejects the method.  If it took the method up,
the list would stay as little under suspicion as before. -/
theorem fillLog_unscreened :
    MemoryBloat.detector ∈ catalog ∧
      MemoryBloat.detector.accepts fillLog fillLog.opcodes = false ∧ fillLog.StringsInLdc ∧
      fillLog.isConstructor = false ∧ fillLog.isClassInitializer = false ∧
      ∃ after : MemoryBloat.State,
        (analyzeMethod clearedInVain
            [⟨MemoryBloat.detector.unscreened,
              MemoryBloat.State.mk [⟨⟨"Demo", "log", "Ljava/util/List;"⟩, none⟩] []⟩]
            fillLog).1 = [⟨MemoryBloat.detector.unscreened, after⟩] ∧
          after.suspects = [⟨⟨"Demo", "log", "Ljava/util/List;"⟩, none⟩] := by
  have hmem : MemoryBloat.detector ∈ catalog := by simp [catalog]
  have hrejects : MemoryBloat.detector.accepts fillLog fillLog.opcodes = false := by
    decide +kernel
  have hstrings : fillLog.StringsInLdc := by decide
  obtain ⟨after, hafter, _, _, hkept, _⟩ :=
    unscreened_of_rejects hmem hrejects (fun _ => hstrings) (fun _ => ⟨rfl, rfl⟩) clearedInVain
      (MemoryBloat.State.mk [⟨⟨"Demo", "log", "Ljava/util/List;"⟩, none⟩] [])
  exact ⟨hmem, hrejects, hstrings, rfl, rfl, after, hafter,
    hkept MemoryBloat.State.suspects MemoryBloat.onlyLeaveChanges⟩

end BytecodeLint
