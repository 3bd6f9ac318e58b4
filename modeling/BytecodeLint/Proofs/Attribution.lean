import BytecodeLint.Proofs.Attempts

/-!
# Who found what

An analysis runs many detectors together and puts what they find into one
list.  To say what a detector contributes, this module runs the same
analysis with a label on every pass, and every finding and every diagnostic
of a detector carries the label of its pass.

There are three groups.

* The analysis with labels, `analyzeClassBy`.  It follows the definitions
  of `BytecodeLint.Analysis` one by one.
* Without the labels it is the analysis itself: `total_analyzeClassBy`.
* With some of the labels only it is the analysis by the detectors that
  have them: `only_analyzeClassBy`.
-/

namespace BytecodeLint

universe u v

variable {ι : Type}

/-! ## The analysis with labels -/

/-- What an analysis found and gave up.  The diagnostic of a walk that did
not come to its end has no label. -/
structure Attributed (ι : Type) where
  findings : List (ι × Finding)
  diagnostics : List (Option ι × Diagnostic)

namespace Attributed

def empty : Attributed ι :=
  { findings := [], diagnostics := [] }

def append (left right : Attributed ι) : Attributed ι :=
  { findings := left.findings ++ right.findings
    diagnostics := left.diagnostics ++ right.diagnostics }

instance : Append (Attributed ι) :=
  ⟨append⟩

/-- Drops the labels. -/
def total (all : Attributed ι) : Analysis :=
  { findings := all.findings.map (·.2), diagnostics := all.diagnostics.map (·.2) }

/-- The findings and diagnostics with a label that is to be kept. -/
def only (keep : ι → Bool) (all : Attributed ι) : Attributed ι :=
  { findings := all.findings.filter fun entry => keep entry.1
    diagnostics := all.diagnostics.filter fun entry => entry.1.any keep }

theorem total_append (left right : Attributed ι) :
    (left ++ right).total = left.total ++ right.total := by
  show (left.append right).total = left.total.append right.total
  simp [append, total, Analysis.append]

theorem only_append (keep : ι → Bool) (left right : Attributed ι) :
    (left ++ right).only keep = left.only keep ++ right.only keep := by
  show (left.append right).only keep = (left.only keep).append (right.only keep)
  simp [append, only]

end Attributed

namespace Attempt

/-- Offers a visit to all attempts. -/
def visitAllBy (step : Step) (attempts : List (ι × Attempt)) :
    List (ι × Attempt) × List (Option ι × Diagnostic) :=
  (attempts.map fun entry => (entry.1, (entry.2.visit step).1),
    attempts.filterMap fun entry => (entry.2.visit step).2.map (some entry.1, ·))

/-- Offers visits one after another. -/
def followBy (cls : Class) (method : Method) :
    List Visit → List (ι × Attempt) → List (ι × Attempt) × List (Option ι × Diagnostic)
  | [], attempts => (attempts, [])
  | visit :: rest, attempts =>
    let (attempts, diagnostics) := visitAllBy { visit with cls, method } attempts
    let (attempts, later) := followBy cls method rest attempts
    (attempts, diagnostics ++ later)

end Attempt

/-- Begins a method with all passes. -/
def attemptsBy (passes : List (ι × Pass)) (method : Method) : List (ι × Attempt) :=
  passes.map fun entry => (entry.1, entry.2.attempt method)

/-- Walks the method with all passes and ends it. -/
def concludedBy (cls : Class) (passes : List (ι × Pass)) (method : Method) :
    List (ι × Pass × List Finding) :=
  (Attempt.followBy cls method method.walk.visits (attemptsBy passes method)).1.map
    fun entry => (entry.1, entry.2.conclude method method.walk.completes)

/-- Analyses a method, unless all passes reject it. -/
def analyzeMethodBy (cls : Class) (passes : List (ι × Pass)) (method : Method) :
    List (ι × Pass) × Attributed ι :=
  if (attemptsBy passes method).any (·.2.isLive) then
    let concluded := concludedBy cls passes method
    (concluded.map fun entry => (entry.1, entry.2.1),
      { findings := concluded.flatMap fun entry => entry.2.2.map (entry.1, ·)
        diagnostics :=
          (Attempt.followBy cls method method.walk.visits (attemptsBy passes method)).2 ++
            (method.walk.fault.map fun fault => (none, fault.diagnostic cls method)).toList })
  else
    (passes, .empty)

/-- Analyses methods one after another. -/
def analyzeMethodsBy (cls : Class) (passes : List (ι × Pass)) :
    List Method → List (ι × Pass) × Attributed ι
  | [] => (passes, .empty)
  | method :: rest =>
    let (passes, first) := analyzeMethodBy cls passes method
    let (passes, later) := analyzeMethodsBy cls passes rest
    (passes, first ++ later)

/-- Begins a class with all detectors. -/
def startBy (detectors : List (ι × Detector)) (cls : Class) : List (ι × Pass) :=
  detectors.filterMap fun entry => (Pass.start? cls entry.2).map (entry.1, ·)

/-- Analyses the methods that have a body, and then ends the class. -/
def analyzeClassBy (detectors : List (ι × Detector)) (cls : Class) : Attributed ι :=
  let (passes, analysis) :=
    analyzeMethodsBy cls (startBy detectors cls) (cls.methods.filter Method.hasBody)
  { analysis with
    findings := analysis.findings ++
      passes.flatMap fun entry => entry.2.finish.map (entry.1, ·) }

/-! ## Without the labels -/

section Total

variable (cls : Class)

private theorem map_snd_flatMap {α : Type u} {β : Type} (entries : List (ι × α))
    (items : α → List β) :
    (entries.flatMap fun entry => (items entry.2).map (entry.1, ·)).map (·.2) =
      (entries.map (·.2)).flatMap items := by
  induction entries with
  | nil => rfl
  | cons entry rest ih => simp [ih, Function.comp_def]

theorem Attempt.total_visitAllBy (step : Step) (attempts : List (ι × Attempt)) :
    (visitAllBy step attempts).1.map (·.2) = (visitAll step (attempts.map (·.2))).1 ∧
      (visitAllBy step attempts).2.map (·.2) = (visitAll step (attempts.map (·.2))).2 := by
  constructor
  · simp [visitAllBy, visitAll]
  · simp [visitAllBy, visitAll, List.filterMap_map, List.map_filterMap, Function.comp_def]

theorem Attempt.total_followBy (method : Method) (visits : List Visit)
    (attempts : List (ι × Attempt)) :
    (followBy cls method visits attempts).1.map (·.2) =
        (follow cls method visits (attempts.map (·.2))).1 ∧
      (followBy cls method visits attempts).2.map (·.2) =
        (follow cls method visits (attempts.map (·.2))).2 := by
  induction visits generalizing attempts with
  | nil => exact ⟨rfl, rfl⟩
  | cons visit rest ih =>
    obtain ⟨hattempts, hdiagnostics⟩ :=
      total_visitAllBy { visit with cls, method } attempts
    obtain ⟨hrest, hlater⟩ := ih (visitAllBy { visit with cls, method } attempts).1
    rw [hattempts] at hrest hlater
    refine ⟨hrest, ?_⟩
    simp only [followBy, follow, List.map_append, hdiagnostics, hlater]

theorem total_analyzeMethodBy (passes : List (ι × Pass)) (method : Method) :
    (analyzeMethodBy cls passes method).1.map (·.2) =
        (analyzeMethod cls (passes.map (·.2)) method).1 ∧
      (analyzeMethodBy cls passes method).2.total =
        (analyzeMethod cls (passes.map (·.2)) method).2 := by
  have hattempts : (attemptsBy passes method).map (·.2) =
      (passes.map (·.2)).map (·.attempt method) := by
    simp [attemptsBy]
  have hlive : (attemptsBy passes method).any (·.2.isLive) =
      ((passes.map (·.2)).map (·.attempt method)).any Attempt.isLive := by
    rw [← hattempts, List.any_map]
    rfl
  obtain ⟨hfollow, hdiagnostics⟩ :=
    Attempt.total_followBy cls method method.walk.visits (attemptsBy passes method)
  rw [hattempts] at hfollow hdiagnostics
  unfold analyzeMethodBy analyzeMethod
  by_cases hany : ((passes.map (·.2)).map (·.attempt method)).any Attempt.isLive = true
  · rw [if_pos (hlive.trans hany), if_pos hany]
    have hconcluded : (concludedBy cls passes method).map (·.2) =
        (Attempt.follow cls method method.walk.visits
          ((passes.map (·.2)).map (·.attempt method))).1.map
            (Attempt.conclude method method.walk.completes) := by
      rw [← hfollow]
      simp [concludedBy]
    refine ⟨?_, ?_⟩
    · have hkept := congrArg (List.map (·.1)) hconcluded
      rw [List.map_map] at hkept ⊢
      exact hkept
    · simp only [Attributed.total, map_snd_flatMap, List.map_append, hdiagnostics, hconcluded]
      cases method.walk.fault <;> rfl
  · rw [if_neg (hlive ▸ hany), if_neg hany]
    exact ⟨rfl, rfl⟩

theorem total_analyzeMethodsBy (passes : List (ι × Pass)) (methods : List Method) :
    (analyzeMethodsBy cls passes methods).1.map (·.2) =
        (analyzeMethods cls (passes.map (·.2)) methods).1 ∧
      (analyzeMethodsBy cls passes methods).2.total =
        (analyzeMethods cls (passes.map (·.2)) methods).2 := by
  induction methods generalizing passes with
  | nil => exact ⟨rfl, rfl⟩
  | cons method rest ih =>
    obtain ⟨hpasses, hfirst⟩ := total_analyzeMethodBy cls passes method
    obtain ⟨hrest, hlater⟩ := ih (analyzeMethodBy cls passes method).1
    rw [hpasses] at hrest hlater
    refine ⟨hrest, ?_⟩
    have hsplit : (analyzeMethodsBy cls passes (method :: rest)).2 =
        (analyzeMethodBy cls passes method).2 ++
          (analyzeMethodsBy cls (analyzeMethodBy cls passes method).1 rest).2 := rfl
    rw [hsplit, Attributed.total_append, hfirst, hlater]
    rfl

/-- Without the labels, the analysis is what it was. -/
theorem total_analyzeClassBy (detectors : List (ι × Detector)) :
    (analyzeClassBy detectors cls).total = analyzeClass (detectors.map (·.2)) cls := by
  have hstart : (startBy detectors cls).map (·.2) =
      (detectors.map (·.2)).filterMap (Pass.start? cls) := by
    simp [startBy, List.map_filterMap, List.filterMap_map, Function.comp_def]
  obtain ⟨hpasses, htotal⟩ :=
    total_analyzeMethodsBy cls (startBy detectors cls) (cls.methods.filter Method.hasBody)
  rw [hstart] at hpasses htotal
  unfold analyzeClassBy analyzeClass
  simp only [← hpasses, ← htotal, Attributed.total, List.map_append, map_snd_flatMap]

end Total

/-! ## With some of the labels -/

section Only

variable (keep : ι → Bool)

private theorem filter_flatMap_fst {α : Type u} {β : Type} (entries : List (ι × α))
    (items : α → List β) :
    (entries.flatMap fun entry => (items entry.2).map (entry.1, ·)).filter (keep ·.1) =
      (entries.filter (keep ·.1)).flatMap fun entry => (items entry.2).map (entry.1, ·) := by
  induction entries with
  | nil => rfl
  | cons entry rest ih =>
    rw [List.flatMap_cons, List.filter_append, ih, List.filter_cons]
    by_cases hkeep : keep entry.1 = true
    · rw [if_pos hkeep, List.flatMap_cons, List.filter_eq_self.2]
      intro item hitem
      obtain ⟨_, _, rfl⟩ := List.mem_map.1 hitem
      exact hkeep
    · rw [if_neg hkeep, List.filter_eq_nil_iff.2, List.nil_append]
      intro item hitem
      obtain ⟨_, _, rfl⟩ := List.mem_map.1 hitem
      exact hkeep

private theorem filter_map_fst {α β : Type u} (entries : List (ι × α)) (change : α → β) :
    (entries.map fun entry => (entry.1, change entry.2)).filter (keep ·.1) =
      (entries.filter (keep ·.1)).map fun entry => (entry.1, change entry.2) := by
  rw [List.filter_map]
  rfl

private theorem filter_filterMap_fst {α : Type u} {β : Type v} {κ : Type} (tag : ι → κ)
    (kept : κ → Bool)
    (htag : ∀ label, kept (tag label) = keep label) (entries : List (ι × α))
    (item : α → Option β) :
    (entries.filterMap fun entry => (item entry.2).map (tag entry.1, ·)).filter (kept ·.1) =
      (entries.filter (keep ·.1)).filterMap fun entry => (item entry.2).map (tag entry.1, ·) := by
  induction entries with
  | nil => rfl
  | cons entry rest ih =>
    have hentry := htag entry.1
    rw [List.filter_cons, List.filterMap_cons]
    by_cases hkeep : keep entry.1 = true
    · rw [if_pos hkeep, List.filterMap_cons]
      cases item entry.2 with
      | none => exact ih
      | some found => simp [hentry, hkeep, ih]
    · rw [if_neg hkeep]
      cases item entry.2 with
      | none => exact ih
      | some found => simp [hentry, hkeep, ih]

theorem Attempt.only_visitAllBy (step : Step) (attempts : List (ι × Attempt)) :
    (visitAllBy step attempts).1.filter (keep ·.1) =
        (visitAllBy step (attempts.filter (keep ·.1))).1 ∧
      (visitAllBy step attempts).2.filter (·.1.any keep) =
        (visitAllBy step (attempts.filter (keep ·.1))).2 := by
  constructor
  · exact filter_map_fst keep attempts fun attempt => (attempt.visit step).1
  · exact filter_filterMap_fst keep some (Option.any keep) (fun _ => rfl) attempts
      fun attempt => (attempt.visit step).2

theorem Attempt.only_followBy (cls : Class) (method : Method) (visits : List Visit)
    (attempts : List (ι × Attempt)) :
    (followBy cls method visits attempts).1.filter (keep ·.1) =
        (followBy cls method visits (attempts.filter (keep ·.1))).1 ∧
      (followBy cls method visits attempts).2.filter (·.1.any keep) =
        (followBy cls method visits (attempts.filter (keep ·.1))).2 := by
  induction visits generalizing attempts with
  | nil => exact ⟨rfl, rfl⟩
  | cons visit rest ih =>
    obtain ⟨hattempts, hdiagnostics⟩ :=
      only_visitAllBy keep { visit with cls, method } attempts
    obtain ⟨hrest, hlater⟩ := ih (visitAllBy { visit with cls, method } attempts).1
    rw [hattempts] at hrest hlater
    refine ⟨hrest, ?_⟩
    simp only [followBy, List.filter_append, hdiagnostics, hlater]

theorem only_attemptsBy (passes : List (ι × Pass)) (method : Method) :
    (attemptsBy passes method).filter (keep ·.1) =
      attemptsBy (passes.filter (keep ·.1)) method :=
  filter_map_fst keep passes fun pass => pass.attempt method

theorem only_concludedBy (cls : Class) (passes : List (ι × Pass)) (method : Method) :
    (concludedBy cls passes method).filter (keep ·.1) =
      concludedBy cls (passes.filter (keep ·.1)) method := by
  unfold concludedBy
  rw [filter_map_fst, (Attempt.only_followBy keep ..).1, only_attemptsBy]

/-! The analysis of a method asks whether any pass takes part, and one that
does not take part must not hear of it.  So these lemmas answer for a method
that all passes reject as if it was walked. -/

/-- A pass that rejects the method is left as it is. -/
private theorem conclude_attempt_of_rejected {pass : Pass} {method : Method} (completes : Bool)
    (h : (pass.attempt method).isLive = false) :
    (pass.attempt method).conclude method completes = (pass, []) := by
  rw [Attempt.conclude_of_out h]
  cases haccepts : pass.detector.accepts method method.opcodes with
  | true =>
    rw [Pass.attempt_of_accepts haccepts] at h
    cases h
  | false => rw [Pass.attempt_of_rejects haccepts]

private theorem followBy_of_rejected (cls : Class) (method : Method) (visits : List Visit)
    {attempts : List (ι × Attempt)} (h : ∀ entry ∈ attempts, entry.2.isLive = false) :
    Attempt.followBy cls method visits attempts = (attempts, []) := by
  induction visits with
  | nil => rfl
  | cons visit rest ih =>
    have hvisit : Attempt.visitAllBy { visit with cls, method } attempts = (attempts, []) := by
      unfold Attempt.visitAllBy
      refine Prod.ext ?_ ?_
      · show attempts.map _ = attempts
        have hsame : ∀ entry ∈ attempts,
            (entry.1, (entry.2.visit { visit with cls, method }).1) = id entry := by
          intro entry hentry
          rw [Attempt.visit_of_out (h entry hentry)]
          rfl
        rw [List.map_congr_left hsame, List.map_id]
      · show attempts.filterMap _ = []
        rw [List.filterMap_eq_nil_iff]
        intro entry hentry
        rw [Attempt.visit_of_out (h entry hentry)]
        rfl
    simp only [Attempt.followBy, hvisit, ih, List.append_nil]

theorem analyzeMethodBy_eq (cls : Class) (passes : List (ι × Pass)) (method : Method) :
    (analyzeMethodBy cls passes method).1 =
        (concludedBy cls passes method).map (fun entry => (entry.1, entry.2.1)) ∧
      (analyzeMethodBy cls passes method).2.findings =
        (concludedBy cls passes method).flatMap (fun entry => entry.2.2.map (entry.1, ·)) ∧
      (analyzeMethodBy cls passes method).2.diagnostics.filter (·.1.any keep) =
        (Attempt.followBy cls method method.walk.visits (attemptsBy passes method)).2.filter
          (·.1.any keep) := by
  unfold analyzeMethodBy
  by_cases hany : (attemptsBy passes method).any (·.2.isLive) = true
  · rw [if_pos hany]
    refine ⟨rfl, rfl, ?_⟩
    rw [List.filter_append]
    cases method.walk.fault with
    | none => exact List.append_nil _
    | some fault => exact List.append_nil _
  · have hrejected : ∀ entry ∈ attemptsBy passes method, entry.2.isLive = false := by
      simpa using hany
    have hfollow := followBy_of_rejected cls method method.walk.visits hrejected
    have hconcluded : concludedBy cls passes method =
        passes.map fun entry => (entry.1, entry.2, []) := by
      unfold concludedBy
      rw [hfollow]
      unfold attemptsBy at hrejected ⊢
      rw [List.map_map]
      refine List.map_congr_left fun entry hentry => ?_
      have hidle := hrejected _ (List.mem_map_of_mem hentry)
      simp only [Function.comp_apply, conclude_attempt_of_rejected _ hidle]
    rw [if_neg hany, hfollow, hconcluded]
    refine ⟨?_, ?_, rfl⟩
    · simp [Function.comp_def]
    · simp [Attributed.empty]

theorem only_analyzeMethodBy (cls : Class) (passes : List (ι × Pass)) (method : Method) :
    (analyzeMethodBy cls passes method).1.filter (keep ·.1) =
        (analyzeMethodBy cls (passes.filter (keep ·.1)) method).1 ∧
      (analyzeMethodBy cls passes method).2.only keep =
        (analyzeMethodBy cls (passes.filter (keep ·.1)) method).2.only keep := by
  obtain ⟨hpasses, hfindings, hdiagnostics⟩ := analyzeMethodBy_eq keep cls passes method
  obtain ⟨hpasses', hfindings', hdiagnostics'⟩ :=
    analyzeMethodBy_eq keep cls (passes.filter (keep ·.1)) method
  have hconcluded := only_concludedBy keep cls passes method
  have hfollow := (Attempt.only_followBy keep cls method method.walk.visits
    (attemptsBy passes method)).2
  have hfollow' := (Attempt.only_followBy keep cls method method.walk.visits
    (attemptsBy (passes.filter (keep ·.1)) method)).2
  have htwice : (passes.filter (keep ·.1)).filter (keep ·.1) = passes.filter (keep ·.1) := by
    simp
  refine ⟨?_, ?_⟩
  · rw [hpasses, hpasses', filter_map_fst keep _ Prod.fst, hconcluded]
  · unfold Attributed.only
    rw [hfindings, hfindings', filter_flatMap_fst keep _ Prod.snd,
      filter_flatMap_fst keep _ Prod.snd, hconcluded, only_concludedBy, htwice]
    rw [hdiagnostics, hdiagnostics', hfollow, hfollow', only_attemptsBy, only_attemptsBy, htwice]

theorem only_analyzeMethodsBy (cls : Class) (passes : List (ι × Pass)) (methods : List Method) :
    (analyzeMethodsBy cls passes methods).1.filter (keep ·.1) =
        (analyzeMethodsBy cls (passes.filter (keep ·.1)) methods).1 ∧
      (analyzeMethodsBy cls passes methods).2.only keep =
        (analyzeMethodsBy cls (passes.filter (keep ·.1)) methods).2.only keep := by
  induction methods generalizing passes with
  | nil => exact ⟨rfl, rfl⟩
  | cons method rest ih =>
    obtain ⟨hpasses, hfirst⟩ := only_analyzeMethodBy keep cls passes method
    obtain ⟨hrest, hlater⟩ := ih (analyzeMethodBy cls passes method).1
    rw [hpasses] at hrest hlater
    have hsplit : ∀ passes : List (ι × Pass), (analyzeMethodsBy cls passes (method :: rest)).2 =
        (analyzeMethodBy cls passes method).2 ++
          (analyzeMethodsBy cls (analyzeMethodBy cls passes method).1 rest).2 := fun _ => rfl
    refine ⟨hrest, ?_⟩
    rw [hsplit, hsplit, Attributed.only_append, Attributed.only_append, hfirst, hlater]

/-- What the kept labels contribute is what their detectors contribute
without the others. -/
theorem only_analyzeClassBy (detectors : List (ι × Detector)) (cls : Class) :
    (analyzeClassBy detectors cls).only keep =
      (analyzeClassBy (detectors.filter (keep ·.1)) cls).only keep := by
  have hstart : (startBy detectors cls).filter (keep ·.1) =
      startBy (detectors.filter (keep ·.1)) cls := by
    exact filter_filterMap_fst keep id keep (fun _ => rfl) detectors (Pass.start? cls)
  obtain ⟨hpasses, hanalysis⟩ :=
    only_analyzeMethodsBy keep cls (startBy detectors cls) (cls.methods.filter Method.hasBody)
  rw [hstart] at hpasses hanalysis
  obtain ⟨hfindings, hdiagnostics⟩ := Attributed.mk.inj hanalysis
  unfold analyzeClassBy Attributed.only
  simp only [List.filter_append, filter_flatMap_fst keep _ Pass.finish, hfindings, hdiagnostics,
    ← hpasses, List.filter_filter, Bool.and_self]

end Only

end BytecodeLint
