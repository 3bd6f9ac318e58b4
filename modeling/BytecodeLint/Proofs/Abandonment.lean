import BytecodeLint.Proofs.Infallible
import BytecodeLint.Proofs.MethodLocality
import BytecodeLint.Proofs.Passes

/-!
# A method with a fault is given up as a whole

When the walk over a method faults, findings may have been made in it, and
the detector of memory bloat may have noted calls that fill or empty a
field.  All of this is undone.  An analysis finds what it finds in the
class without the method, and all that it tells of the method is one
diagnostic, in its place.

There are five groups.

* `Method.FaultsAt` says at which instruction a walk faults, and why.
* What a faulted method adds by itself, `analyzeMethod_of_fault`.
* `Detector.OnlyLeaveChanges` names the part of a state that outlives a
  method.  Abandoning a method keeps it, and it decides what comes later.
* The detectors of the catalog do not look at the other methods of a class.
* `analyzeClass_of_fault` is the result.
-/

namespace BytecodeLint

/-! ## Where a walk faults -/

namespace Method

/-- The walk comes to `inst` and gets no further: the fault is raised when
it arrives there, or when it executes the instruction and hands the stack
on. -/
inductive FaultsAt (method : Method) (inst : Instruction) (fault : StackFault) : Prop
  | arriving {done fallsThrough stack failed} (trail : method.Trail done fallsThrough stack)
      (code : done.map (·.instruction) ++ [inst] <+: method.code)
      (fails : method.reach method.loopHeads fallsThrough inst stack = .error fault failed)
  | leaving {done fallsThrough stack visit reached failed}
      (trail : method.Trail done fallsThrough stack)
      (code : done.map (·.instruction) ++ [inst] <+: method.code)
      (arrives : method.Reached fallsThrough inst stack visit reached)
      (fails : inst.leave reached = .error fault failed)

variable {method : Method}

theorem FaultsAt.mem_code {inst : Instruction} {fault : StackFault}
    (h : method.FaultsAt inst fault) : inst ∈ method.code := by
  rcases h with ⟨_, code, _⟩ | ⟨_, code, _, _⟩
  · exact code.subset (List.mem_append_right _ (List.mem_singleton_self _))
  · exact code.subset (List.mem_append_right _ (List.mem_singleton_self _))

private theorem faultsAt_aux {fault : WalkFault} :
    ∀ (rest : List Instruction) (done : List Visit) (fallsThrough : Bool) (stack : OperandStack),
      method.Trail done fallsThrough stack →
      done.map (·.instruction) ++ rest = method.code →
      (method.walkFrom method.loopHeads rest fallsThrough stack).fault = some fault →
      ∃ inst, fault.offset = inst.offset ∧ method.FaultsAt inst fault.fault := by
  intro rest
  induction rest with
  | nil =>
    intro done fallsThrough stack _ _ hfault
    cases hfault
  | cons inst rest ih =>
    intro done fallsThrough stack htrail hcode hfault
    have hprefix : done.map (·.instruction) ++ [inst] <+: method.code :=
      ⟨rest, by rw [← hcode, List.append_assoc]; rfl⟩
    rw [walkFrom] at hfault
    cases hreach : method.reach method.loopHeads fallsThrough inst stack with
    | error raised failed =>
      simp only [hreach] at hfault
      cases hfault
      exact ⟨inst, rfl, .arriving htrail hprefix hreach⟩
    | ok visit reached =>
      have hreached := reach_ok hreach
      obtain rfl : visit.instruction = inst := hreached.instruction
      simp only [hreach] at hfault
      cases hleave : visit.instruction.leave reached with
      | error raised failed =>
        simp only [hleave] at hfault
        cases hfault
        exact ⟨visit.instruction, rfl, .leaving htrail hprefix hreached hleave⟩
      | ok value after =>
        simp only [hleave, Walk.cons] at hfault
        exact ih (done ++ [visit]) visit.instruction.fallsThrough after
          (.step htrail hprefix hreached hleave) (by rw [← hcode]; simp) hfault

/-- The fault of a walk is raised at an instruction of the method. -/
theorem faultsAt_of_walk {fault : WalkFault} (h : method.walk.fault = some fault) :
    ∃ inst, fault.offset = inst.offset ∧ method.FaultsAt inst fault.fault :=
  faultsAt_aux method.code [] true _ .start rfl h

theorem completes_of_fault {fault : WalkFault} (h : method.walk.fault = some fault) :
    method.walk.completes = false := by
  unfold Walk.completes
  rw [h]
  rfl

theorem hasBody_of_fault {fault : WalkFault} (h : method.walk.fault = some fault) :
    method.hasBody = true := by
  obtain ⟨inst, _, hfaults⟩ := faultsAt_of_walk h
  unfold hasBody
  rw [Bool.not_eq_true', List.isEmpty_eq_false_iff]
  exact List.ne_nil_of_mem hfaults.mem_code

end Method

/-! ## What a faulted method adds -/

section Methods

variable {cls : Class} {method : Method} {fault : WalkFault}

/-- Whatever was found before the fault is dropped. -/
theorem findings_of_abandoned (hcompletes : method.walk.completes = false) (passes : List Pass) :
    (analyzeMethod cls passes method).2.findings = [] := by
  unfold analyzeMethod
  by_cases hlive : (passes.map (·.attempt method)).any Attempt.isLive = true
  · rw [if_pos hlive]
    simp only [hcompletes]
    rw [List.flatMap_eq_nil_iff]
    intro concluded hconcluded
    obtain ⟨attempt, _, rfl⟩ := List.mem_map.1 hconcluded
    exact List.eq_nil_iff_forall_not_mem.2 fun finding hfinding =>
      Bool.false_ne_true (Attempt.mem_findings_conclude hfinding).1
  · rw [if_neg hlive]
    rfl

/-- The fault is told if any pass took the method up. -/
theorem analyzeMethod_of_fault {passes : List Pass}
    (hpasses : ∀ pass ∈ passes, pass.detector.Infallible)
    (hfault : method.walk.fault = some fault) :
    (analyzeMethod cls passes method).2 =
      { findings := []
        diagnostics :=
          if passes.any (fun pass => pass.detector.accepts method method.opcodes) then
            [fault.diagnostic cls method]
          else
            [] } := by
  have hfindings : (analyzeMethod cls passes method).2.findings = [] :=
    findings_of_abandoned (Method.completes_of_fault hfault) passes
  have hdiagnostics : (analyzeMethod cls passes method).2.diagnostics = _ :=
    analyzeMethod_diagnostics hpasses
  rw [hfault] at hdiagnostics
  cases hanalysis : (analyzeMethod cls passes method).2 with
  | mk findings diagnostics =>
    rw [hanalysis] at hfindings hdiagnostics
    subst hfindings
    subst hdiagnostics
    rfl

end Methods

/-! ## What outlives a method -/

/-- The part of a state that only leaving a method changes.  It is all on
which the begin of a method and the end of a class depend. -/
structure Detector.OnlyLeaveChanges (detector : Detector) {κ : Type}
    (part : detector.State → κ) : Prop where
  enter : ∀ method state, part (detector.enter method state) = part state
  visit : ∀ step state, part (stateOf (detector.visit step state)) = part state
  abandon : ∀ method state, part (detector.abandon method state) = part state
  decides_enter : ∀ method {state state'}, part state = part state' →
    detector.enter method state = detector.enter method state'
  decides_finish : ∀ {state state'}, part state = part state' →
    detector.finish state = detector.finish state'

namespace Detector.OnlyLeaveChanges

variable {detector : Detector} {κ : Type} {part : detector.State → κ} {cls : Class}
  {method : Method}

theorem part_follow (h : detector.OnlyLeaveChanges part) (cls : Class) (method : Method)
    (visits : List Visit) (state : detector.State) :
    part (stateOf (detector.follow cls method visits (detector.enter method state))) =
      part state := by
  refine Detector.stateOf_follow (fun now => part now = part state) ?_ _ (h.enter ..)
  exact fun step now hnow => (h.visit step now).trans hnow

/-- A method that is abandoned leaves no trace. -/
theorem after_abandoned (h : detector.OnlyLeaveChanges part)
    (hcompletes : method.walk.completes = false) (state : detector.State) :
    part (detector.after cls state method) = part state := by
  have hvisits := h.part_follow cls method method.walk.visits state
  unfold Detector.after
  rw [hcompletes]
  split
  · cases hfollow : detector.follow cls method method.walk.visits
        (detector.enter method state) with
    | error fault last =>
      rw [hfollow] at hvisits
      exact (h.abandon method last).trans hvisits
    | ok found last =>
      rw [hfollow] at hvisits
      exact (h.abandon method last).trans hvisits
  · rfl

theorem after_congr (h : detector.OnlyLeaveChanges part) (method : Method)
    {state state' : detector.State} (hsame : part state = part state') :
    part (detector.after cls state method) = part (detector.after cls state' method) := by
  unfold Detector.after
  rw [h.decides_enter method hsame]
  split
  · rfl
  · exact hsame

theorem foldl_congr (h : detector.OnlyLeaveChanges part) (methods : List Method)
    {state state' : detector.State} (hsame : part state = part state') :
    part (methods.foldl (detector.after cls) state) =
      part (methods.foldl (detector.after cls) state') := by
  induction methods generalizing state state' with
  | nil => exact hsame
  | cons method rest ih => exact ih (h.after_congr method hsame)

/-- The end of a class does not hear of an abandoned method. -/
theorem finish_abandoned (h : detector.OnlyLeaveChanges part)
    (hcompletes : method.walk.completes = false) (before after : List Method)
    (state : detector.State) :
    detector.finish ((before ++ method :: after).foldl (detector.after cls) state) =
      detector.finish ((before ++ after).foldl (detector.after cls) state) := by
  rw [List.foldl_append, List.foldl_append, List.foldl_cons]
  exact h.decides_finish (h.foldl_congr after (h.after_abandoned hcompletes _))

/-- A detector that begins every method anew, and reports nothing at the end
of a class. -/
theorem of_reset
    (enter : ∀ method state state', detector.enter method state = detector.enter method state')
    (finish : ∀ state, detector.finish state = []) :
    detector.OnlyLeaveChanges fun _ => ([] : List MemoryBloat.Suspect) where
  enter _ _ := rfl
  visit _ _ := rfl
  abandon _ _ := rfl
  decides_enter method state state' _ := enter method state state'
  decides_finish _ := by rw [finish, finish]

end Detector.OnlyLeaveChanges

theorem MemoryBloat.suspects_noted (state : State) (step : Step) (empties : Bool) (params : Nat) :
    (state.noted step empties params).suspects = state.suspects := by
  unfold State.noted
  split
  · split
    · rfl
    · rfl
  · rfl

theorem MemoryBloat.suspects_visit (step : Step) (state : State) :
    (stateOf (visit step state)).suspects = state.suspects := by
  rw [visit_eq]
  cases sizeChange? step with
  | none => rfl
  | some change =>
    cases hslots : callSlots change.2 with
    | error bad => simp only [hslots, stateOf]
    | ok slots => simp only [hslots, stateOf, suspects_noted]

/-- The fields under suspicion change only when a method has come to its
end. -/
theorem MemoryBloat.onlyLeaveChanges : detector.OnlyLeaveChanges State.suspects where
  enter _ _ := rfl
  visit := suspects_visit
  abandon _ _ := rfl
  decides_enter _ _ _ h := congrArg (State.mk · []) h
  decides_finish h := congrArg (List.filterMap report) h

theorem onlyLeaveChanges_of_mem_catalog {detector : Detector} (h : detector ∈ catalog) :
    ∃ part : detector.State → List MemoryBloat.Suspect, detector.OnlyLeaveChanges part := by
  simp only [catalog, List.mem_cons, List.not_mem_nil, or_false] at h
  rcases h with rfl | rfl | rfl | rfl | rfl
  · exact ⟨_, .of_reset (fun _ _ _ => rfl) fun _ => rfl⟩
  · exact ⟨_, .of_reset (fun _ _ _ => rfl) fun _ => rfl⟩
  · exact ⟨_, MemoryBloat.onlyLeaveChanges⟩
  · exact ⟨_, .of_reset (fun _ _ _ => rfl) fun _ => rfl⟩
  · exact ⟨_, .of_reset (fun _ _ _ => rfl) fun _ => rfl⟩

/-! ## The other methods of a class -/

/-- The detector looks at no method but the one that it is offered. -/
structure Detector.IgnoresOthers (detector : Detector) : Prop where
  start : ∀ (cls : Class) (methods : List Method),
    detector.start (cls.withMethods methods) = detector.start cls
  visit : ∀ (visit : Visit) (cls : Class) (methods : List Method) (method : Method) state,
    detector.visit { visit with cls := cls.withMethods methods, method } state =
      detector.visit { visit with cls, method } state

theorem ignoresOthers_of_mem_catalog {detector : Detector} (h : detector ∈ catalog) :
    detector.IgnoresOthers := by
  simp only [catalog, List.mem_cons, List.not_mem_nil, or_false] at h
  rcases h with rfl | rfl | rfl | rfl | rfl
  · exact ⟨fun _ _ => rfl, fun _ _ _ _ _ => rfl⟩
  · refine ⟨fun _ _ => rfl, fun v cls methods method state => ?_⟩
    exact (Boxing.visit_eq _ state).trans (Boxing.visit_eq { v with cls, method } state).symm
  · refine ⟨fun _ _ => rfl, fun v cls methods method state => ?_⟩
    exact (MemoryBloat.visit_eq _ state).trans
      (MemoryBloat.visit_eq { v with cls, method } state).symm
  · refine ⟨fun _ _ => rfl, fun v cls methods method state => ?_⟩
    exact (DiscardedObject.visit_eq _ state).trans
      (DiscardedObject.visit_eq { v with cls, method } state).symm
  · exact ⟨fun _ _ => rfl, fun _ _ _ _ _ => rfl⟩

namespace Detector.IgnoresOthers

variable {detector : Detector} {cls : Class}

theorem follow (h : detector.IgnoresOthers) (methods : List Method) (method : Method)
    (visits : List Visit) (state : detector.State) :
    detector.follow (cls.withMethods methods) method visits state =
      detector.follow cls method visits state := by
  induction visits generalizing state with
  | nil => rfl
  | cons visit rest ih =>
    simp only [Detector.follow_cons, h.visit, ih]

theorem after (h : detector.IgnoresOthers) (methods : List Method) (state : detector.State)
    (method : Method) :
    detector.after (cls.withMethods methods) state method = detector.after cls state method := by
  unfold Detector.after
  rw [h.follow]

end Detector.IgnoresOthers

theorem begun_withMethods_eq (cls : Class) (methods : List Method) :
    begun catalog (cls.withMethods methods) = begun catalog cls := by
  refine List.filterMap_congr fun detector hmem => ?_
  unfold Pass.start?
  rw [(ignoresOthers_of_mem_catalog hmem).start]

/-! ## The class without the method -/

theorem Pass.foldl_after (cls : Class) (methods : List Method) (pass : Pass) :
    methods.foldl (Pass.after cls) pass =
      ⟨pass.detector, methods.foldl (pass.detector.after cls) pass.state⟩ := by
  obtain ⟨detector, state⟩ := pass
  induction methods generalizing state with
  | nil => rfl
  | cons method rest ih => exact ih (detector.after cls state method)

/-- What the detectors report at the end of a class after the methods. -/
def endOfClass (cls : Class) (methods : List Method) : List Finding :=
  (begun catalog cls).flatMap fun pass =>
    pass.detector.finish (methods.foldl (pass.detector.after cls) pass.state)

theorem endOfClass_withMethods (cls : Class) (others methods : List Method) :
    endOfClass (cls.withMethods others) methods = endOfClass cls methods := by
  unfold endOfClass
  rw [begun_withMethods_eq]
  refine List.flatMap_congr fun pass hpass => ?_
  have hignores := ignoresOthers_of_mem_catalog (mem_of_mem_begun hpass)
  have hafter : pass.detector.after (cls.withMethods others) = pass.detector.after cls :=
    funext fun state => funext fun method => hignores.after others state method
  rw [hafter]

theorem endOfClass_abandoned (cls : Class) {method : Method}
    (hcompletes : method.walk.completes = false) (before after : List Method) :
    endOfClass cls (before ++ method :: after) = endOfClass cls (before ++ after) := by
  refine List.flatMap_congr fun pass hpass => ?_
  obtain ⟨part, hpart⟩ := onlyLeaveChanges_of_mem_catalog (mem_of_mem_begun hpass)
  exact hpart.finish_abandoned hcompletes before after pass.state

/-- What the catalog finds in a class: what it reports of the methods that
have a body, and then the findings of the end of the class. -/
theorem analyzeClass_catalog (cls : Class) :
    (analyzeClass catalog cls).findings =
        (cls.methods.filter Method.hasBody).flatMap
            (fun method => (reportedAlone catalog cls method).findings) ++
          endOfClass cls (cls.methods.filter Method.hasBody) ∧
      (analyzeClass catalog cls).diagnostics =
        (cls.methods.filter Method.hasBody).flatMap
          (fun method => (reportedAlone catalog cls method).diagnostics) := by
  have hlocal : ∀ detector ∈ catalog, detector.MethodLocal := fun _ => methodLocal_of_mem_catalog
  have hbegun : (begun catalog cls).map (·.detector) = (begun catalog cls).map (·.detector) := rfl
  obtain ⟨hfindings, hdiagnostics⟩ :=
    analyzeMethods_eq hlocal hbegun (cls.methods.filter Method.hasBody)
  refine ⟨?_, hdiagnostics⟩
  rw [findings_analyzeClass, hfindings, analyzeMethods_passes, List.flatMap_map]
  refine congrArg _ (List.flatMap_congr fun pass _ => ?_)
  rw [Pass.foldl_after]
  rfl

/-- The same for the class with other methods. -/
theorem analyzeClass_withMethods (cls : Class) (methods : List Method) :
    (analyzeClass catalog (cls.withMethods methods)).findings =
        (methods.filter Method.hasBody).flatMap
            (fun method => (reportedAlone catalog cls method).findings) ++
          endOfClass cls (methods.filter Method.hasBody) ∧
      (analyzeClass catalog (cls.withMethods methods)).diagnostics =
        (methods.filter Method.hasBody).flatMap
          (fun method => (reportedAlone catalog cls method).diagnostics) := by
  obtain ⟨hfindings, hdiagnostics⟩ := analyzeClass_catalog (cls.withMethods methods)
  rw [endOfClass_withMethods] at hfindings
  exact ⟨hfindings, hdiagnostics⟩

/-- Some detector of the catalog begins the class and does not reject the
method. -/
def Class.TakesUp (cls : Class) (method : Method) : Prop :=
  ∃ detector ∈ catalog, (detector.start cls).isSome = true ∧
    detector.accepts method method.opcodes = true

theorem Class.takesUp_iff (cls : Class) (method : Method) :
    cls.TakesUp method ↔
      (begun catalog cls).any (fun pass => pass.detector.accepts method method.opcodes) = true := by
  rw [any_accepts rfl, List.any_eq_true]
  simp only [Class.TakesUp, Bool.and_eq_true]

theorem reportedAlone_of_fault (cls : Class) {method : Method} {fault : WalkFault}
    (hfault : method.walk.fault = some fault) :
    (reportedAlone catalog cls method).findings = [] ∧
      (cls.TakesUp method →
        (reportedAlone catalog cls method).diagnostics = [fault.diagnostic cls method]) ∧
      (¬ cls.TakesUp method → (reportedAlone catalog cls method).diagnostics = []) := by
  have hpasses : ∀ pass ∈ begun catalog cls, pass.detector.Infallible :=
    fun pass hpass => infallible_of_mem_catalog (mem_of_mem_begun hpass)
  unfold reportedAlone
  rw [begun_withMethods_eq, analyzeMethod_of_fault hpasses hfault, cls.takesUp_iff]
  exact ⟨rfl, fun h => if_pos h, fun h => if_neg h⟩

/-- A method whose walk faults at `inst` counts as if it were not there, and
one diagnostic in its place tells of the fault.  If every detector rejects
the method, then it is not walked and nothing is told. -/
theorem analyzeClass_of_fault {cls : Class} {before after : List Method} {method : Method}
    {fault : WalkFault} (hmethods : cls.methods = before ++ method :: after)
    (hfault : method.walk.fault = some fault) :
    ∃ inst, method.FaultsAt inst fault.fault ∧ inst.offset = fault.offset ∧
      (analyzeClass catalog cls).findings =
        (analyzeClass catalog (cls.withMethods (before ++ after))).findings ∧
      (∀ state, (MemoryBloat.detector.after cls state method).suspects = state.suspects) ∧
      (analyzeClass catalog (cls.withMethods (before ++ after))).diagnostics =
        (analyzeClass catalog (cls.withMethods before)).diagnostics ++
          (analyzeClass catalog (cls.withMethods after)).diagnostics ∧
      (cls.TakesUp method →
        (analyzeClass catalog cls).diagnostics =
          (analyzeClass catalog (cls.withMethods before)).diagnostics ++
            { className := cls.name
              method := some method.signature
              detector := none
              offset := some inst.offset
              message := fault.fault.message } ::
            (analyzeClass catalog (cls.withMethods after)).diagnostics) ∧
      (¬ cls.TakesUp method →
        (analyzeClass catalog cls).diagnostics =
          (analyzeClass catalog (cls.withMethods (before ++ after))).diagnostics) := by
  obtain ⟨inst, hoffset, hfaults⟩ := Method.faultsAt_of_walk hfault
  obtain ⟨hfindings, htaken, hrejected⟩ := reportedAlone_of_fault cls hfault
  have hbodies : cls.methods.filter Method.hasBody =
      before.filter Method.hasBody ++ method :: after.filter Method.hasBody := by
    rw [hmethods, List.filter_append, List.filter_cons, if_pos (Method.hasBody_of_fault hfault)]
  have hwithout : (analyzeClass catalog (cls.withMethods (before ++ after))).diagnostics =
      (analyzeClass catalog (cls.withMethods before)).diagnostics ++
        (analyzeClass catalog (cls.withMethods after)).diagnostics := by
    rw [(analyzeClass_withMethods cls before).2, (analyzeClass_withMethods cls after).2,
      (analyzeClass_withMethods cls (before ++ after)).2, List.filter_append, List.flatMap_append]
  have hwith : (analyzeClass catalog cls).diagnostics =
      (analyzeClass catalog (cls.withMethods before)).diagnostics ++
        ((reportedAlone catalog cls method).diagnostics ++
          (analyzeClass catalog (cls.withMethods after)).diagnostics) := by
    rw [(analyzeClass_withMethods cls before).2, (analyzeClass_withMethods cls after).2,
      (analyzeClass_catalog cls).2, hbodies, List.flatMap_append, List.flatMap_cons]
  refine ⟨inst, hfaults, hoffset.symm, ?_, fun state => ?_, hwithout, fun h => ?_, fun h => ?_⟩
  · rw [(analyzeClass_catalog cls).1, (analyzeClass_withMethods cls (before ++ after)).1, hbodies,
      endOfClass_abandoned cls (Method.completes_of_fault hfault), List.filter_append,
      List.flatMap_append, List.flatMap_append, List.flatMap_cons, hfindings, List.nil_append]
  · exact MemoryBloat.onlyLeaveChanges.after_abandoned (Method.completes_of_fault hfault) state
  · rw [hwith, htaken h, ← hoffset]
    rfl
  · rw [hwith, hrejected h, hwithout]
    rfl

/-- A method that adds its argument to the static list `log`. -/
def addToLog : Method where
  name := "add"
  descriptor := "(Ljava/lang/Object;)V"
  maxStack := some 2
  code :=
    [ ⟨0, .getstatic, .field ⟨"Demo", "log", "Ljava/util/List;"⟩⟩
    , ⟨3, 0x2a, .none⟩
    , ⟨4, .invokeinterface, .call ⟨.interface, "java/util/List", "add", "(Ljava/lang/Object;)Z"⟩⟩
    , ⟨9, .pop, .none⟩
    , ⟨10, .voidReturn, .none⟩ ]
  lines := []
  handlers := []

/-- A method that empties the list `log` and then adds to it what is not on
the stack. -/
def clearThenUnderflow : Method where
  name := "clear"
  descriptor := "()V"
  maxStack := some 1
  code :=
    [ ⟨0, .getstatic, .field ⟨"Demo", "log", "Ljava/util/List;"⟩⟩
    , ⟨3, .invokeinterface, .call ⟨.interface, "java/util/List", "clear", "()V"⟩⟩
    , ⟨8, .getstatic, .field ⟨"Demo", "log", "Ljava/util/List;"⟩⟩
    , ⟨11, .invokeinterface,
        .call ⟨.interface, "java/util/List", "add", "(Ljava/lang/Object;)Z"⟩⟩
    , ⟨16, .pop, .none⟩
    , ⟨17, .voidReturn, .none⟩ ]
  lines := []
  handlers := []

def clearedInVain : Class where
  name := "Demo"
  majorVersion := 52
  fields := [⟨"log", "Ljava/util/List;", true⟩]
  methods := [addToLog, clearThenUnderflow, addToLog]
  uri := none

/-- The call that empties the list does not count, since its method faults
later on. -/
theorem clearedInVain_of_fault :
    clearedInVain.methods = [addToLog] ++ clearThenUnderflow :: [addToLog] ∧
      clearThenUnderflow.walk.fault = some ⟨11, .underflow 2 1⟩ ∧
      clearedInVain.TakesUp clearThenUnderflow ∧
      (analyzeClass catalog clearedInVain).findings =
        (analyzeClass catalog (clearedInVain.withMethods [addToLog, addToLog])).findings ∧
      (analyzeClass catalog clearedInVain).findings =
        [MemoryBloat.onlyGrows.report ⟨"Demo", "add", "(Ljava/lang/Object;)V", 4, none, none⟩
          (some (.field "Demo" "log" "Ljava/util/List;"))] ∧
      (analyzeClass catalog clearedInVain).diagnostics =
        [⟨"Demo", some "clear()V", none, some 11,
          "stack underflow: needed 2 slots with depth 1"⟩] := by
  have hmethods : clearedInVain.methods = [addToLog] ++ clearThenUnderflow :: [addToLog] := rfl
  have hfault : clearThenUnderflow.walk.fault = some ⟨11, .underflow 2 1⟩ := by decide +kernel
  have htaken : clearedInVain.TakesUp clearThenUnderflow :=
    ⟨MemoryBloat.detector, by simp [catalog], by decide +kernel, by decide +kernel⟩
  obtain ⟨inst, _, hoffset, hfindings, _, _, hdiagnostics, _⟩ :=
    analyzeClass_of_fault hmethods hfault
  refine ⟨hmethods, hfault, htaken, hfindings, by decide +kernel, ?_⟩
  have hone : (analyzeClass catalog (clearedInVain.withMethods [addToLog])).diagnostics = [] := by
    decide +kernel
  rw [hdiagnostics htaken, hone, hoffset]
  decide +kernel

end BytecodeLint
