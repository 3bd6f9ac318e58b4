import BytecodeLint.Proofs.Attempts
import Mathlib.Data.List.Basic

/-!
# What becomes of a pass

An analysis offers every visit to all attempts together.  None of them sees
the others, so each goes its own way.  This module follows one pass by
itself: what a method makes of its state is `Detector.after`, and the
passes of a class are mapped by it, method after method.

There are three groups.

* `Detector.follow` offers visits to a detector, one after another, up to
  the first that fails.
* `Attempt.through` says the same of an attempt, and `follow_attempts` of
  all attempts.
* Methods.  `Detector.after` is the state after a method, `Detector.foundIn`
  is what is found in it, and `analyzeMethods_passes` gives the passes at the
  end of a class.
-/

namespace BytecodeLint

/-! ## One detector -/

/-- The state that a program leaves, whether it fails or not. -/
def stateOf {σ α : Type} : EStateM.Result DetectorFault σ α → σ
  | .ok _ state => state
  | .error _ state => state

/-- The outcomes of a detector can be compared where its states can. -/
instance decidableEqResult {ε σ α : Type} [DecidableEq ε] [DecidableEq σ] [DecidableEq α] :
    DecidableEq (EStateM.Result ε σ α)
  | .ok value state, .ok other after =>
    decidable_of_iff (value = other ∧ state = after) (by simp)
  | .error fault state, .error other after =>
    decidable_of_iff (fault = other ∧ state = after) (by simp)
  | .ok .., .error .. => isFalse nofun
  | .error .., .ok .. => isFalse nofun

namespace Detector

/-- Offers visits to the detector, one after another, up to the first that
fails. -/
def follow (detector : Detector) (cls : Class) (method : Method) :
    List Visit → EStateM DetectorFault detector.State (List Finding)
  | [] => return []
  | visit :: rest => do
    let found ← detector.visit { visit with cls, method }
    let later ← follow detector cls method rest
    return found ++ later

variable {detector : Detector} {cls : Class} {method : Method}

theorem follow_nil (state : detector.State) :
    detector.follow cls method [] state = .ok [] state := rfl

theorem follow_cons (visit : Visit) (rest : List Visit) (state : detector.State) :
    detector.follow cls method (visit :: rest) state =
      match detector.visit { visit with cls, method } state with
      | .error fault state => .error fault state
      | .ok found state => match detector.follow cls method rest state with
        | .ok later state => .ok (found ++ later) state
        | .error fault state => .error fault state := by
  show EStateM.bind _ _ state = _
  unfold EStateM.bind
  cases hvisit : detector.visit { visit with cls, method } state with
  | error fault after => simp only
  | ok found after =>
    simp only
    show EStateM.bind _ _ after = _
    unfold EStateM.bind
    cases hrest : detector.follow cls method rest after with
    | error fault last => simp only
    | ok later last =>
      simp only
      rfl

/-- Visits that do not fail succeed at the first one and then at the rest. -/
theorem follow_cons_ok {visit : Visit} {rest : List Visit} {state last : detector.State}
    {found : List Finding}
    (h : detector.follow cls method (visit :: rest) state = .ok found last) :
    ∃ first after later, detector.visit { visit with cls, method } state = .ok first after ∧
      detector.follow cls method rest after = .ok later last ∧ found = first ++ later := by
  rw [follow_cons] at h
  cases hvisit : detector.visit { visit with cls, method } state with
  | error fault after =>
    rw [hvisit] at h
    cases h
  | ok first after =>
    simp only [hvisit] at h
    cases hrest : detector.follow cls method rest after with
    | error fault last =>
      rw [hrest] at h
      cases h
    | ok later last =>
      rw [hrest] at h
      cases h
      exact ⟨first, after, later, rfl, hrest, rfl⟩

theorem follow_append_ok {front rest : List Visit} {state last : detector.State}
    {found : List Finding} (h : detector.follow cls method (front ++ rest) state = .ok found last) :
    ∃ earlier middle later, detector.follow cls method front state = .ok earlier middle ∧
      detector.follow cls method rest middle = .ok later last ∧ found = earlier ++ later := by
  induction front generalizing state found with
  | nil => exact ⟨[], state, found, rfl, h, rfl⟩
  | cons visit front ih =>
    obtain ⟨first, after, behind, hvisit, hbehind, rfl⟩ := follow_cons_ok h
    obtain ⟨earlier, middle, later, hfront, hrest, rfl⟩ := ih hbehind
    refine ⟨first ++ earlier, middle, later, ?_, hrest, (List.append_assoc ..).symm⟩
    rw [follow_cons, hvisit]
    simp only [hfront]

/-- Every finding was made at one visit, in the state that the visits before
it left. -/
theorem mem_follow {visits : List Visit} {state last : detector.State} {found : List Finding}
    {finding : Finding} (h : detector.follow cls method visits state = .ok found last)
    (hfinding : finding ∈ found) :
    ∃ front visit later earlier before after first, visits = front ++ visit :: later ∧
      detector.follow cls method front state = .ok earlier before ∧
      detector.visit { visit with cls, method } before = .ok first after ∧ finding ∈ first := by
  induction visits generalizing state found with
  | nil =>
    cases h
    cases hfinding
  | cons visit rest ih =>
    obtain ⟨first, after, later, hvisit, hrest, rfl⟩ := follow_cons_ok h
    rcases List.mem_append.1 hfinding with hfirst | hlater
    · exact ⟨[], visit, rest, [], state, after, first, rfl, rfl, hvisit, hfirst⟩
    · obtain ⟨front, reporting, behind, earlier, before, final, own, rfl, hfront, hreport, hown⟩ :=
        ih hrest hlater
      refine ⟨visit :: front, reporting, behind, first ++ earlier, before, final, own, rfl, ?_,
        hreport, hown⟩
      rw [follow_cons, hvisit]
      simp only [hfront]

/-- What every visit keeps, all visits keep. -/
theorem stateOf_follow (keeps : detector.State → Prop)
    (hvisit : ∀ step state, keeps state → keeps (stateOf (detector.visit step state)))
    (visits : List Visit) {state : detector.State} (h : keeps state) :
    keeps (stateOf (detector.follow cls method visits state)) := by
  induction visits generalizing state with
  | nil => exact h
  | cons visit rest ih =>
    have hkept := hvisit { visit with cls, method } state h
    rw [follow_cons]
    cases hresult : detector.visit { visit with cls, method } state with
    | error fault after =>
      rw [hresult] at hkept
      exact hkept
    | ok found after =>
      rw [hresult] at hkept
      have hlater : keeps (stateOf (detector.follow cls method rest after)) := ih hkept
      simp only
      cases hrest : detector.follow cls method rest after with
      | error fault last =>
        rw [hrest] at hlater
        exact hlater
      | ok later last =>
        rw [hrest] at hlater
        exact hlater

end Detector

/-! ## One attempt -/

namespace Attempt

variable {cls : Class} {method : Method}

/-- Offers visits to the attempt, one after another. -/
def through (cls : Class) (method : Method) (visits : List Visit) (attempt : Attempt) : Attempt :=
  visits.foldl (fun attempt visit => (attempt.visit { visit with cls, method }).1) attempt

theorem through_of_out {attempt : Attempt} (h : attempt.isLive = false) (visits : List Visit) :
    attempt.through cls method visits = attempt := by
  induction visits with
  | nil => rfl
  | cons visit rest ih =>
    show ((attempt.visit { visit with cls, method }).1).through cls method rest = attempt
    rw [visit_of_out h]
    exact ih

/-- A live attempt does what its detector does.  If a visit fails, then the
detector abandons the method. -/
theorem through_of_live (detector : Detector) (state : detector.State) (findings : List Finding)
    (visits : List Visit) :
    (Attempt.mk ⟨detector, state⟩ .live findings).through cls method visits =
      match detector.follow cls method visits state with
      | .ok found state => ⟨⟨detector, state⟩, .live, findings ++ found⟩
      | .error _ state => ⟨⟨detector, detector.abandon method state⟩, .failed, []⟩ := by
  induction visits generalizing state findings with
  | nil => simp [through, Detector.follow_nil]
  | cons visit rest ih =>
    show (((Attempt.mk ⟨detector, state⟩ .live findings).visit
      { visit with cls, method }).1).through cls method rest = _
    rw [Detector.follow_cons]
    cases hvisit : detector.visit { visit with cls, method } state with
    | error fault after => rw [visit_of_error rfl hvisit, through_of_out rfl]
    | ok found after =>
      rw [visit_of_ok rfl hvisit]
      show (Attempt.mk ⟨detector, after⟩ .live (findings ++ found)).through cls method rest = _
      rw [ih]
      simp only
      cases detector.follow cls method rest after with
      | error fault last => rfl
      | ok later last => simp only [List.append_assoc]

/-! ## All attempts -/

theorem follow_attempts (visits : List Visit) (attempts : List Attempt) :
    (follow cls method visits attempts).1 = attempts.map (through cls method visits) := by
  induction visits generalizing attempts with
  | nil => exact (List.map_id attempts).symm
  | cons visit rest ih =>
    show (follow cls method rest (visitAll { visit with cls, method } attempts).1).1 = _
    rw [ih]
    simp [visitAll, through]

end Attempt

/-! ## Methods and classes -/

/-- The state after a method that may have been rejected, walked to the end,
abandoned by the walk, or abandoned by the detector. -/
def Detector.after (detector : Detector) (cls : Class) (state : detector.State)
    (method : Method) : detector.State :=
  if detector.accepts method method.opcodes then
    match detector.follow cls method method.walk.visits (detector.enter method state) with
    | .ok _ state =>
      if method.walk.completes then detector.leave method state else detector.abandon method state
    | .error _ state => detector.abandon method state
  else
    state

section After

variable {detector : Detector} {cls : Class} {state : detector.State} {method : Method}

theorem Detector.after_of_rejects (h : detector.accepts method method.opcodes = false) :
    detector.after cls state method = state := by
  unfold after
  rw [h, if_neg Bool.false_ne_true]

theorem Detector.after_of_ok {found : List Finding} {last : detector.State}
    (haccepts : detector.accepts method method.opcodes = true)
    (hfollow : detector.follow cls method method.walk.visits (detector.enter method state) =
      .ok found last) :
    detector.after cls state method =
      if method.walk.completes then detector.leave method last
      else detector.abandon method last := by
  unfold after
  rw [haccepts, if_pos rfl, hfollow]

end After

def Pass.after (cls : Class) (pass : Pass) (method : Method) : Pass :=
  { pass with state := pass.detector.after cls pass.state method }

theorem Pass.conclude_through (cls : Class) (pass : Pass) (method : Method) :
    (((pass.attempt method).through cls method method.walk.visits).conclude method
      method.walk.completes).1 = pass.after cls method := by
  obtain ⟨detector, state⟩ := pass
  unfold Pass.after Detector.after
  cases haccepts : detector.accepts method method.opcodes with
  | false =>
    rw [attempt_of_rejects haccepts, Attempt.through_of_out rfl, Attempt.conclude_of_out rfl,
      if_neg Bool.false_ne_true]
  | true =>
    rw [attempt_of_accepts haccepts, Attempt.through_of_live, if_pos rfl]
    cases detector.follow cls method method.walk.visits (detector.enter method state) with
    | error fault last => rfl
    | ok found last =>
      cases method.walk.completes with
      | true => rfl
      | false => rfl

/-- A method takes each pass its own way. -/
theorem analyzeMethod_passes (cls : Class) (passes : List Pass) (method : Method) :
    (analyzeMethod cls passes method).1 = passes.map (Pass.after cls · method) := by
  unfold analyzeMethod
  by_cases hany : (passes.map (·.attempt method)).any Attempt.isLive = true
  · rw [if_pos hany]
    simp only [Attempt.follow_attempts, List.map_map]
    exact List.map_congr_left fun pass _ => pass.conclude_through cls method
  · rw [if_neg hany]
    refine (List.map_id passes).symm.trans (List.map_congr_left fun pass hpass => ?_)
    have hrejects : pass.detector.accepts method method.opcodes = false := by
      refine Bool.eq_false_iff.2 fun haccepts => hany ?_
      refine List.any_eq_true.2 ⟨pass.attempt method, List.mem_map_of_mem hpass, ?_⟩
      rw [Pass.attempt_of_accepts haccepts]
      rfl
    unfold Pass.after
    rw [Detector.after_of_rejects hrejects]
    rfl

/-- What the detector finds in a method that it comes to in the given state.
It finds nothing in a method that it rejects or fails in, or that the walk
abandons. -/
def Detector.foundIn (detector : Detector) (cls : Class) (state : detector.State)
    (method : Method) : List Finding :=
  if detector.accepts method method.opcodes && method.walk.completes then
    match detector.follow cls method method.walk.visits (detector.enter method state) with
    | .ok found _ => found
    | .error _ _ => []
  else
    []

theorem Detector.mem_foundIn {detector : Detector} {cls : Class} {state : detector.State}
    {method : Method} {finding : Finding} :
    finding ∈ detector.foundIn cls state method ↔
      detector.accepts method method.opcodes = true ∧ method.walk.completes = true ∧
        ∃ found last, detector.follow cls method method.walk.visits
          (detector.enter method state) = .ok found last ∧ finding ∈ found := by
  unfold foundIn
  cases detector.accepts method method.opcodes with
  | false => simp
  | true =>
    cases method.walk.completes with
    | false => simp
    | true =>
      cases detector.follow cls method method.walk.visits (detector.enter method state) with
      | error fault last => simp
      | ok found last => simp

theorem Pass.findings_through (cls : Class) (pass : Pass) (method : Method) :
    (((pass.attempt method).through cls method method.walk.visits).conclude method
      method.walk.completes).2 = pass.detector.foundIn cls pass.state method := by
  obtain ⟨detector, state⟩ := pass
  unfold Detector.foundIn
  cases haccepts : detector.accepts method method.opcodes with
  | false =>
    rw [attempt_of_rejects haccepts, Attempt.through_of_out rfl, Attempt.conclude_of_out rfl,
      Bool.false_and, if_neg Bool.false_ne_true]
  | true =>
    rw [attempt_of_accepts haccepts, Attempt.through_of_live, Bool.true_and]
    cases method.walk.completes with
    | false =>
      cases detector.follow cls method method.walk.visits (detector.enter method state) <;> rfl
    | true =>
      cases detector.follow cls method method.walk.visits (detector.enter method state) <;> rfl

/-- The findings in a method are those of its passes, in their order. -/
theorem analyzeMethod_findings (cls : Class) (passes : List Pass) (method : Method) :
    (analyzeMethod cls passes method).2.findings =
      passes.flatMap fun pass => pass.detector.foundIn cls pass.state method := by
  unfold analyzeMethod
  by_cases hany : (passes.map (·.attempt method)).any Attempt.isLive = true
  · rw [if_pos hany]
    simp only [Attempt.follow_attempts, List.map_map, List.flatMap_map, Function.comp_apply]
    exact List.flatMap_congr fun pass _ => pass.findings_through cls method
  · rw [if_neg hany]
    refine (List.flatMap_eq_nil_iff.2 fun pass hpass => ?_).symm
    refine List.eq_nil_iff_forall_not_mem.2 fun finding hfinding => hany ?_
    refine List.any_eq_true.2 ⟨pass.attempt method, List.mem_map_of_mem hpass, ?_⟩
    rw [Pass.attempt_of_accepts (Detector.mem_foundIn.1 hfinding).1]
    rfl

/-- Each pass at the end of a class has gone through the methods by itself. -/
theorem analyzeMethods_passes (cls : Class) (passes : List Pass) (methods : List Method) :
    (analyzeMethods cls passes methods).1 =
      passes.map fun pass => methods.foldl (Pass.after cls) pass := by
  induction methods generalizing passes with
  | nil => exact (List.map_id passes).symm
  | cons method rest ih =>
    show (analyzeMethods cls (analyzeMethod cls passes method).1 rest).1 = _
    rw [ih, analyzeMethod_passes, List.map_map]
    rfl

theorem analyzeMethods_cons_findings (cls : Class) (passes : List Pass) (method : Method)
    (rest : List Method) :
    (analyzeMethods cls passes (method :: rest)).2.findings =
      (analyzeMethod cls passes method).2.findings ++
        (analyzeMethods cls (analyzeMethod cls passes method).1 rest).2.findings := rfl

/-- Every finding in the methods was made in one of them by the detector of
one of the passes. -/
theorem foundIn_of_mem_findings {cls : Class} {passes : List Pass} {methods : List Method}
    {finding : Finding} (h : finding ∈ (analyzeMethods cls passes methods).2.findings) :
    ∃ pass ∈ passes, ∃ method ∈ methods, ∃ state,
      finding ∈ pass.detector.foundIn cls state method := by
  induction methods generalizing passes with
  | nil => cases h
  | cons method rest ih =>
    rw [analyzeMethods_cons_findings] at h
    rcases List.mem_append.1 h with hfirst | hlater
    · rw [analyzeMethod_findings] at hfirst
      obtain ⟨pass, hpass, hfound⟩ := List.mem_flatMap.1 hfirst
      exact ⟨pass, hpass, method, List.mem_cons_self .., pass.state, hfound⟩
    · obtain ⟨after, hafter, other, hother, state, hfound⟩ := ih hlater
      rw [analyzeMethod_passes] at hafter
      obtain ⟨pass, hpass, rfl⟩ := List.mem_map.1 hafter
      exact ⟨pass, hpass, other, List.mem_cons_of_mem _ hother, state, hfound⟩

end BytecodeLint
