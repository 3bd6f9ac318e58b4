import BytecodeLint.Analysis

/-!
# What becomes of an attempt

A visit changes a live attempt by the result of its detector, and leaves
any other attempt alone.  The end of a method turns the attempt into a pass
again.  This module gives both as equations, one for each status and
result, and draws from them what an attempt never changes: its detector.
-/

namespace BytecodeLint

namespace Attempt

variable {step : Step} {attempt : Attempt}

/-! ## Visits -/

theorem visit_of_out (h : attempt.isLive = false) : attempt.visit step = (attempt, none) := by
  unfold visit
  rw [h, if_neg Bool.false_ne_true]

theorem visit_of_ok {found : List Finding} {after : attempt.pass.detector.State}
    (hlive : attempt.isLive = true)
    (h : attempt.pass.detector.visit step attempt.pass.state = .ok found after) :
    attempt.visit step =
      ({ attempt with
          pass := ⟨attempt.pass.detector, after⟩
          findings := attempt.findings ++ found }, none) := by
  unfold visit
  rw [if_pos hlive]
  simp only [h]

theorem visit_of_error {fault : DetectorFault} {after : attempt.pass.detector.State}
    (hlive : attempt.isLive = true)
    (h : attempt.pass.detector.visit step attempt.pass.state = .error fault after) :
    attempt.visit step =
      ({ pass := ⟨attempt.pass.detector, attempt.pass.detector.abandon step.method after⟩
         status := .failed
         findings := [] },
        some
          { className := step.cls.name
            method := some step.method.signature
            detector := some attempt.pass.detector.id
            offset := some step.offset
            message := fault.message }) := by
  unfold visit
  rw [if_pos hlive]
  simp only [h]

theorem visit_detector : (attempt.visit step).1.pass.detector = attempt.pass.detector := by
  by_cases hlive : attempt.isLive = true
  · cases hvisit : attempt.pass.detector.visit step attempt.pass.state with
    | ok found after => rw [visit_of_ok hlive hvisit]
    | error fault after => rw [visit_of_error hlive hvisit]
  · rw [visit_of_out (Bool.eq_false_iff.2 hlive)]

theorem mem_findings_visit {finding : Finding} (h : finding ∈ (attempt.visit step).1.findings) :
    finding ∈ attempt.findings ∨ ∃ state found after,
      attempt.pass.detector.visit step state = .ok found after ∧ finding ∈ found := by
  by_cases hlive : attempt.isLive = true
  · cases hvisit : attempt.pass.detector.visit step attempt.pass.state with
    | ok found after =>
      rw [visit_of_ok hlive hvisit] at h
      exact (List.mem_append.1 h).imp_right fun hfound => ⟨_, found, after, hvisit, hfound⟩
    | error fault after =>
      rw [visit_of_error hlive hvisit] at h
      cases h
  · rw [visit_of_out (Bool.eq_false_iff.2 hlive)] at h
    exact Or.inl h

/-- A diagnostic of a visit names the detector that failed. -/
theorem detector_of_visit_diagnostic {diagnostic : Diagnostic}
    (h : (attempt.visit step).2 = some diagnostic) :
    diagnostic.detector = some attempt.pass.detector.id := by
  by_cases hlive : attempt.isLive = true
  · cases hvisit : attempt.pass.detector.visit step attempt.pass.state with
    | ok found after =>
      rw [visit_of_ok hlive hvisit] at h
      cases h
    | error fault after =>
      rw [visit_of_error hlive hvisit] at h
      cases h
      rfl
  · rw [visit_of_out (Bool.eq_false_iff.2 hlive)] at h
    cases h

/-! ## The end of a method -/

theorem conclude_of_out (h : attempt.isLive = false) (method : Method) (completes : Bool) :
    attempt.conclude method completes = (attempt.pass, []) := by
  unfold conclude
  rw [h, if_neg Bool.false_ne_true]

theorem conclude_of_completed (h : attempt.isLive = true) (method : Method) :
    attempt.conclude method true =
      (⟨attempt.pass.detector, attempt.pass.detector.leave method attempt.pass.state⟩,
        attempt.findings) := by
  unfold conclude
  rw [if_pos h, if_pos rfl]

theorem conclude_of_abandoned (h : attempt.isLive = true) (method : Method) :
    attempt.conclude method false =
      (⟨attempt.pass.detector, attempt.pass.detector.abandon method attempt.pass.state⟩, []) := by
  unfold conclude
  rw [if_pos h, if_neg Bool.false_ne_true]

theorem conclude_detector (method : Method) (completes : Bool) :
    (attempt.conclude method completes).1.detector = attempt.pass.detector := by
  by_cases hlive : attempt.isLive = true
  · cases completes with
    | true => rw [conclude_of_completed hlive]
    | false => rw [conclude_of_abandoned hlive]
  · rw [conclude_of_out (Bool.eq_false_iff.2 hlive)]

theorem mem_findings_conclude {method : Method} {completes : Bool} {finding : Finding}
    (h : finding ∈ (attempt.conclude method completes).2) :
    completes = true ∧ finding ∈ attempt.findings := by
  by_cases hlive : attempt.isLive = true
  · cases completes with
    | true =>
      rw [conclude_of_completed hlive] at h
      exact ⟨rfl, h⟩
    | false =>
      rw [conclude_of_abandoned hlive] at h
      cases h
  · rw [conclude_of_out (Bool.eq_false_iff.2 hlive)] at h
    cases h

end Attempt

/-! ## The begin of a method -/

theorem Pass.attempt_of_accepts {pass : Pass} {method : Method}
    (h : pass.detector.accepts method method.opcodes = true) :
    pass.attempt method =
      { pass := ⟨pass.detector, pass.detector.enter method pass.state⟩
        status := .live
        findings := [] } := by
  unfold attempt
  rw [if_pos h]

theorem Pass.attempt_of_rejects {pass : Pass} {method : Method}
    (h : pass.detector.accepts method method.opcodes = false) :
    pass.attempt method = { pass, status := .idle, findings := [] } := by
  unfold attempt
  rw [h, if_neg Bool.false_ne_true]

theorem Pass.attempt_detector (pass : Pass) (method : Method) :
    (pass.attempt method).pass.detector = pass.detector := by
  cases haccepts : pass.detector.accepts method method.opcodes with
  | true => rw [attempt_of_accepts haccepts]
  | false => rw [attempt_of_rejects haccepts]

theorem Pass.attempt_findings (pass : Pass) (method : Method) :
    (pass.attempt method).findings = [] := by
  cases haccepts : pass.detector.accepts method method.opcodes with
  | true => rw [attempt_of_accepts haccepts]
  | false => rw [attempt_of_rejects haccepts]

/-! ## Detectors at work

The passes of a class stay with their detectors, in the same order. -/

theorem Attempt.visitAll_detectors (step : Step) (attempts : List Attempt) :
    (visitAll step attempts).1.map (·.pass.detector) = attempts.map (·.pass.detector) := by
  simp [visitAll, Function.comp_def, visit_detector]

theorem Attempt.follow_detectors (cls : Class) (method : Method) (visits : List Visit)
    (attempts : List Attempt) :
    (follow cls method visits attempts).1.map (·.pass.detector) =
      attempts.map (·.pass.detector) := by
  induction visits generalizing attempts with
  | nil => rfl
  | cons visit rest ih =>
    have hrest := ih (visitAll { visit with cls, method } attempts).1
    rw [visitAll_detectors] at hrest
    exact hrest

theorem analyzeMethod_detectors (cls : Class) (passes : List Pass) (method : Method) :
    (analyzeMethod cls passes method).1.map (·.detector) = passes.map (·.detector) := by
  have hfollow := Attempt.follow_detectors cls method method.walk.visits
    (passes.map (·.attempt method))
  unfold analyzeMethod
  by_cases hany : (passes.map (·.attempt method)).any Attempt.isLive = true
  · rw [if_pos hany]
    simp only [List.map_map, Function.comp_def, Attempt.conclude_detector, Pass.attempt_detector]
      at hfollow ⊢
    exact hfollow
  · rw [if_neg hany]

theorem analyzeMethods_detectors (cls : Class) (passes : List Pass) (methods : List Method) :
    (analyzeMethods cls passes methods).1.map (·.detector) = passes.map (·.detector) := by
  induction methods generalizing passes with
  | nil => rfl
  | cons method rest ih =>
    have hrest := ih (analyzeMethod cls passes method).1
    rw [analyzeMethod_detectors] at hrest
    exact hrest

end BytecodeLint
