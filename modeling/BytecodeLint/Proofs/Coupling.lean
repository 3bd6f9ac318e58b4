import BytecodeLint.Proofs.Reports
import Mathlib.Data.List.Forall2

/-!
# Two runs side by side

To compare two analyses that differ in the states of their passes, this
module runs both over the same methods.  A `Coupling` of a detector says
which states are as good as each other, between methods and within one.  If
all passes of the two runs are coupled at first, then the two runs report
the same and their passes are coupled at the end.

There are three groups.

* `Coupling`, and the passes and attempts that it relates.
* One attempt: a visit and the end of a method.
* All attempts: `analyzeMethod_coupled` and `analyzeMethods_coupled`.
-/

namespace BytecodeLint

/-! ## Couplings -/

/-- The two results of a visit are the same but for the states, and these
are related. -/
inductive SameOutcome {σ : Type} (within : σ → σ → Prop) :
    EStateM.Result DetectorFault σ (List Finding) →
    EStateM.Result DetectorFault σ (List Finding) → Prop
  | ok (found : List Finding) {state other} (related : within state other) :
      SameOutcome within (.ok found state) (.ok found other)
  | error (fault : DetectorFault) {state other} (related : within state other) :
      SameOutcome within (.error fault state) (.error fault other)

/-- Relations between the states of a detector at work on `cls` and on
`other`, which hold on from method to method and from visit to visit. -/
structure Coupling (detector : Detector) (cls other : Class) where
  between : detector.State → detector.State → Prop
  within : detector.State → detector.State → Prop
  enter : ∀ method {state state'}, between state state' →
    within (detector.enter method state) (detector.enter method state')
  visit : ∀ (visit : Visit) method {state state'}, within state state' →
    SameOutcome within (detector.visit { visit with cls, method } state)
      (detector.visit { visit with cls := other, method } state')
  leave : ∀ method {state state'}, within state state' →
    between (detector.leave method state) (detector.leave method state')
  abandon : ∀ method {state state'}, within state state' →
    between (detector.abandon method state) (detector.abandon method state')

section Relations

variable (cls other : Class)

/-- The two passes are at work with one detector, and their states are
related between methods. -/
inductive Pass.Coupled : Pass → Pass → Prop
  | mk {detector state state'} (coupling : Coupling detector cls other)
      (related : coupling.between state state') : Pass.Coupled ⟨detector, state⟩ ⟨detector, state'⟩

/-- The two attempts are both live with the same findings, or both out of
the method. -/
inductive Attempt.Coupled : Attempt → Attempt → Prop
  | live {detector state state'} (findings : List Finding) (coupling : Coupling detector cls other)
      (related : coupling.within state state') :
      Attempt.Coupled ⟨⟨detector, state⟩, .live, findings⟩ ⟨⟨detector, state'⟩, .live, findings⟩
  | out {pass pass' status findings} (rejected : (Attempt.mk pass status findings).isLive = false)
      (passes : Pass.Coupled cls other pass pass') :
      Attempt.Coupled ⟨pass, status, findings⟩ ⟨pass', status, findings⟩

end Relations

/-! ## One attempt -/

section One

variable {cls other : Class}

theorem Pass.Coupled.attempt {pass pass' : Pass} (h : pass.Coupled cls other pass')
    (method : Method) :
    (pass.attempt method).Coupled cls other (pass'.attempt method) := by
  obtain ⟨coupling, related⟩ := h
  unfold Pass.attempt
  split
  · exact .live [] coupling (coupling.enter method related)
  · exact .out rfl (.mk coupling related)

namespace Attempt.Coupled

variable {attempt attempt' : Attempt}

theorem isLive_eq (h : attempt.Coupled cls other attempt') : attempt.isLive = attempt'.isLive := by
  cases h with
  | live => rfl
  | out => rfl

theorem visit (h : attempt.Coupled cls other attempt') (hname : cls.name = other.name)
    (method : Method) (visit : Visit) :
    (attempt.visit { visit with cls, method }).1.Coupled cls other
        (attempt'.visit { visit with cls := other, method }).1 ∧
      (attempt.visit { visit with cls, method }).2 =
        (attempt'.visit { visit with cls := other, method }).2 := by
  cases h with
  | @live detector state state' findings coupling related =>
    have houtcome := coupling.visit visit method related
    generalize hleft : detector.visit { visit with cls, method } state = left at houtcome
    generalize hright : detector.visit { visit with cls := other, method } state' = right
      at houtcome
    cases houtcome with
    | ok found related =>
      rw [visit_of_ok rfl hleft, visit_of_ok rfl hright]
      exact ⟨.live _ coupling related, rfl⟩
    | error fault related =>
      rw [visit_of_error rfl hleft, visit_of_error rfl hright]
      refine ⟨.out rfl (.mk coupling (coupling.abandon method related)), ?_⟩
      simp only [hname]
      rfl
  | @out pass pass' status findings rejected passes =>
    have rejected' : (Attempt.mk pass' status findings).isLive = false := rejected
    rw [visit_of_out rejected, visit_of_out rejected']
    exact ⟨.out rejected passes, rfl⟩

theorem conclude (h : attempt.Coupled cls other attempt') (method : Method) (completes : Bool) :
    (attempt.conclude method completes).1.Coupled cls other
        (attempt'.conclude method completes).1 ∧
      (attempt.conclude method completes).2 = (attempt'.conclude method completes).2 := by
  cases h with
  | live findings coupling related =>
    cases completes with
    | true => exact ⟨.mk coupling (coupling.leave method related), rfl⟩
    | false => exact ⟨.mk coupling (coupling.abandon method related), rfl⟩
  | @out pass pass' status findings rejected passes =>
    have rejected' : (Attempt.mk pass' status findings).isLive = false := rejected
    rw [conclude_of_out rejected, conclude_of_out rejected']
    exact ⟨passes, rfl⟩

end Attempt.Coupled

end One

/-! ## All attempts -/

section All

variable {cls other : Class}

/-- The passes of the two runs are coupled one by one. -/
abbrev PassesCoupled (cls other : Class) : List Pass → List Pass → Prop :=
  List.Forall₂ (Pass.Coupled cls other)

/-- The attempts of the two runs are coupled one by one. -/
abbrev AttemptsCoupled (cls other : Class) : List Attempt → List Attempt → Prop :=
  List.Forall₂ (Attempt.Coupled cls other)

theorem attempts_coupled {passes passes' : List Pass} (h : PassesCoupled cls other passes passes')
    (method : Method) :
    AttemptsCoupled cls other (passes.map (·.attempt method)) (passes'.map (·.attempt method)) := by
  rw [AttemptsCoupled, List.forall₂_map_left_iff, List.forall₂_map_right_iff]
  exact h.imp fun _ _ hpass => hpass.attempt method

theorem any_isLive_eq {attempts attempts' : List Attempt}
    (h : AttemptsCoupled cls other attempts attempts') :
    attempts.any Attempt.isLive = attempts'.any Attempt.isLive := by
  induction h with
  | nil => rfl
  | cons hhead _ ih => rw [List.any_cons, List.any_cons, hhead.isLive_eq, ih]

theorem visitAll_coupled {attempts attempts' : List Attempt}
    (h : AttemptsCoupled cls other attempts attempts') (hname : cls.name = other.name)
    (method : Method) (visit : Visit) :
    AttemptsCoupled cls other (Attempt.visitAll { visit with cls, method } attempts).1
        (Attempt.visitAll { visit with cls := other, method } attempts').1 ∧
      (Attempt.visitAll { visit with cls, method } attempts).2 =
        (Attempt.visitAll { visit with cls := other, method } attempts').2 := by
  induction h with
  | nil => exact ⟨.nil, rfl⟩
  | @cons attempt attempt' rest rest' hhead _ ih =>
    obtain ⟨hvisited, hdiagnostic⟩ := hhead.visit hname method visit
    refine ⟨.cons hvisited ih.1, ?_⟩
    have hlater := ih.2
    simp only [Attempt.visitAll, List.map_cons, List.filterMap_cons, hdiagnostic] at hlater ⊢
    rw [hlater]

theorem follow_coupled {attempts attempts' : List Attempt}
    (h : AttemptsCoupled cls other attempts attempts') (hname : cls.name = other.name)
    (method : Method) (visits : List Visit) :
    AttemptsCoupled cls other (Attempt.follow cls method visits attempts).1
        (Attempt.follow other method visits attempts').1 ∧
      (Attempt.follow cls method visits attempts).2 =
        (Attempt.follow other method visits attempts').2 := by
  induction visits generalizing attempts attempts' with
  | nil => exact ⟨h, rfl⟩
  | cons visit rest ih =>
    obtain ⟨hvisited, hdiagnostics⟩ := visitAll_coupled h hname method visit
    obtain ⟨hrest, hlater⟩ := ih hvisited
    refine ⟨hrest, ?_⟩
    simp only [Attempt.follow, hdiagnostics, hlater]

theorem conclude_coupled {attempts attempts' : List Attempt}
    (h : AttemptsCoupled cls other attempts attempts') (method : Method) (completes : Bool) :
    PassesCoupled cls other ((attempts.map (Attempt.conclude method completes)).map (·.1))
        ((attempts'.map (Attempt.conclude method completes)).map (·.1)) ∧
      (attempts.map (Attempt.conclude method completes)).flatMap (·.2) =
        (attempts'.map (Attempt.conclude method completes)).flatMap (·.2) := by
  induction h with
  | nil => exact ⟨.nil, rfl⟩
  | cons hhead _ ih =>
    obtain ⟨hpass, hfindings⟩ := hhead.conclude method completes
    refine ⟨.cons hpass ih.1, ?_⟩
    rw [List.map_cons, List.map_cons, List.flatMap_cons, List.flatMap_cons, hfindings, ih.2]

/-- Coupled runs report the same of a method. -/
theorem analyzeMethod_coupled {passes passes' : List Pass}
    (h : PassesCoupled cls other passes passes') (hname : cls.name = other.name)
    (method : Method) :
    PassesCoupled cls other (analyzeMethod cls passes method).1
        (analyzeMethod other passes' method).1 ∧
      (analyzeMethod cls passes method).2 = (analyzeMethod other passes' method).2 := by
  have hattempts := attempts_coupled h method
  have hfollow := follow_coupled hattempts hname method method.walk.visits
  have hconclude := conclude_coupled hfollow.1 method method.walk.completes
  unfold analyzeMethod
  by_cases hany : (passes.map (·.attempt method)).any Attempt.isLive = true
  · rw [if_pos hany, if_pos ((any_isLive_eq hattempts).symm.trans hany)]
    refine ⟨hconclude.1, ?_⟩
    simp only [hfollow.2, hconclude.2, WalkFault.diagnostic, hname]
  · rw [if_neg hany, if_neg ((any_isLive_eq hattempts) ▸ hany)]
    exact ⟨h, rfl⟩

/-- Coupled runs report the same of any methods. -/
theorem analyzeMethods_coupled {passes passes' : List Pass}
    (h : PassesCoupled cls other passes passes') (hname : cls.name = other.name)
    (methods : List Method) :
    PassesCoupled cls other (analyzeMethods cls passes methods).1
        (analyzeMethods other passes' methods).1 ∧
      (analyzeMethods cls passes methods).2 = (analyzeMethods other passes' methods).2 := by
  induction methods generalizing passes passes' with
  | nil => exact ⟨h, rfl⟩
  | cons method rest ih =>
    obtain ⟨hpasses, hfirst⟩ := analyzeMethod_coupled h hname method
    obtain ⟨hend, hlater⟩ := ih hpasses
    refine ⟨hend, ?_⟩
    simp only [analyzeMethods, hfirst, hlater]

end All

end BytecodeLint
