import BytecodeLint.Proofs.Abandonment
import BytecodeLint.Proofs.Reports
import BytecodeLint.Proofs.Visits

/-!
# Fields that only grow

The detector of memory bloat collects the calls that change the size of a
field while it follows a method, and settles them when the method has come to
its end.  A call that empties a field strikes it off the suspects, and later
calls that fill it find it no more.  So the order in which the calls come is
of no account, but for the place that is reported.

There are four groups.

* The changes that a visit makes, and those that a method leaves.
* `Change.settle`, one change after another.
* The suspects at the end of a class.
* What an analysis reports by the rule: `findings_onlyGrows`.
-/

namespace BytecodeLint

/-- The field as the subject of a finding. -/
def FieldRef.subject (ref : FieldRef) : Subject :=
  .field ref.owner ref.name ref.descriptor

namespace MemoryBloat

/-! ## Changes -/

/-- The static field that a step fills or empties, and whether it empties the
field. -/
def resize? (step : Step) : Option (Bool × FieldRef) :=
  (sizeChange? step).bind fun change =>
    match callSlots change.2 with
    | .ok slots => (receiverField? step slots.params).map (change.1, ·)
    | .error _ => none

/-- The change that a step makes, of whatever field. -/
def change? (step : Step) : Option Change :=
  (resize? step).map fun resize =>
    if resize.1 then .empty resize.2
    else .fill resize.2 (step.cls.locate step.method step.offset)

def Change.field : Change → FieldRef
  | fill field _ => field
  | empty field => field

variable {cls : Class} {method : Method} {step : Step} {state : State}

/-- A visit notes the change that it makes, if the field is under
suspicion. -/
theorem visit_eq_ok (h : step.toVisit.Counted) :
    visit step state =
      .ok [] { state with
        changes := state.changes ++
          (change? step).toList.filter fun change => state.suspects? change.field } := by
  rw [visit_eq]
  unfold change? resize?
  cases hchange : sizeChange? step with
  | none => simp
  | some change =>
    obtain ⟨empties, descriptor⟩ := change
    obtain ⟨heffect, site, hcall, rfl⟩ := sizeChange?_eq_some hchange
    obtain ⟨slots, hslots, _⟩ := Instruction.callSlots_of_stackEffect heffect hcall h
    simp only [hslots, Option.bind_some, State.noted]
    cases receiverField? step slots.params with
    | none => simp
    | some field =>
      cases empties with
      | true => by_cases hsuspect : state.suspects? field = true <;> simp [hsuspect, Change.field]
      | false => by_cases hsuspect : state.suspects? field = true <;> simp [hsuspect, Change.field]

/-- The changes that the visits make, of whatever fields. -/
def changesAt (cls : Class) (method : Method) (visits : List Visit) : List Change :=
  visits.filterMap fun visit => change? { visit with cls, method }

theorem changesAt_cons (visit : Visit) (rest : List Visit) :
    changesAt cls method (visit :: rest) =
      (change? { visit with cls, method }).toList ++ changesAt cls method rest := by
  unfold changesAt
  rw [List.filterMap_cons]
  cases change? { visit with cls, method } <;> rfl

theorem follow_eq_ok {visits : List Visit} (h : ∀ visit ∈ visits, visit.Counted) :
    detector.follow cls method visits state =
      .ok [] { state with
        changes := state.changes ++
          (changesAt cls method visits).filter fun change => state.suspects? change.field } := by
  induction visits generalizing state with
  | nil =>
    refine (@Detector.follow_nil detector cls method state).trans ?_
    simp [changesAt]
  | cons visit rest ih =>
    refine (@Detector.follow_cons detector cls method visit rest state).trans ?_
    have hvisit : detector.visit { visit with cls, method } state = _ :=
      visit_eq_ok (h visit (List.mem_cons_self ..))
    rw [hvisit]
    simp only
    rw [ih fun later hlater => h later (List.mem_cons_of_mem _ hlater)]
    rw [changesAt_cons, List.filter_append, ← List.append_assoc]
    rfl

/-- The changes that a method leaves.  A constructor or a class initializer
leaves none, and neither does a method that is abandoned. -/
def changesIn (cls : Class) (method : Method) : List Change :=
  if !method.isConstructor && !method.isClassInitializer && method.walk.completes then
    changesAt cls method method.walk.visits
  else
    []

/-! ## Settling changes -/

variable {suspects : List Suspect} {change : Change} {changes : List Change} {field : FieldRef}

theorem field_of_mem_settle {suspect : Suspect} (h : suspect ∈ change.settle suspects) :
    ∃ old ∈ suspects, old.field = suspect.field := by
  cases change with
  | empty field => exact ⟨suspect, (List.mem_filter.1 h).1, rfl⟩
  | fill field location =>
    obtain ⟨old, hold, rfl⟩ := List.mem_map.1 h
    refine ⟨old, hold, ?_⟩
    split <;> rfl

/-- A change of a field that is not under suspicion does nothing. -/
theorem settle_eq_self (h : ∀ suspect ∈ suspects, suspect.field ≠ change.field) :
    change.settle suspects = suspects := by
  cases change with
  | empty field =>
    refine List.filter_eq_self.2 fun suspect hsuspect => ?_
    rw [bne_iff_ne]
    exact h suspect hsuspect
  | fill field location =>
    refine (List.map_congr_left fun suspect hsuspect => ?_).trans (List.map_id suspects)
    exact if_neg (h suspect hsuspect)

/-- So it does not matter that a visit does not note such a change. -/
theorem foldl_settle_filter (known : FieldRef → Bool)
    (h : ∀ suspect ∈ suspects, known suspect.field = true) :
    (changes.filter fun change => known change.field).foldl Change.settle suspects =
      changes.foldl Change.settle suspects := by
  induction changes generalizing suspects with
  | nil => rfl
  | cons change rest ih =>
    have hsettled : ∀ suspect ∈ change.settle suspects, known suspect.field = true := by
      intro suspect hsuspect
      obtain ⟨old, hold, hsame⟩ := field_of_mem_settle hsuspect
      rw [← hsame]
      exact h old hold
    rw [List.filter_cons, List.foldl_cons]
    cases hknown : known change.field with
    | true =>
      rw [if_pos rfl, List.foldl_cons]
      exact ih hsettled
    | false =>
      have hself : change.settle suspects = suspects := by
        refine settle_eq_self fun suspect hsuspect hsame => ?_
        rw [← hsame, h suspect hsuspect] at hknown
        cases hknown
      rw [if_neg Bool.false_ne_true, hself]
      exact ih h

/-- The place of a change, if it fills the field. -/
def Change.fillOf? (field : FieldRef) : Change → Option Location
  | fill filled location => if filled = field then some location else none
  | empty _ => none

/-- What becomes of a suspect: it is struck off if any change empties its
field, whenever that is, and else it keeps the place of the first change that
fills the field. -/
def Suspect.settled? (changes : List Change) (suspect : Suspect) : Option Suspect :=
  if .empty suspect.field ∈ changes then
    none
  else
    some { suspect with
      growth := suspect.growth.or (changes.findSome? (Change.fillOf? suspect.field)) }

/-- The step lemma: a change first, and then the others. -/
theorem filterMap_settle (change : Change) (rest : List Change) (suspects : List Suspect) :
    (change.settle suspects).filterMap (Suspect.settled? rest) =
      suspects.filterMap (Suspect.settled? (change :: rest)) := by
  cases change with
  | empty field =>
    show (suspects.filter fun suspect => suspect.field != field).filterMap _ = _
    rw [List.filterMap_filter]
    refine List.filterMap_congr fun suspect _ => ?_
    unfold Suspect.settled?
    by_cases hfield : suspect.field = field
    · simp [hfield]
    · simp [hfield, Change.fillOf?, List.findSome?_cons]
  | fill field location =>
    show (suspects.map _).filterMap _ = _
    rw [List.filterMap_map]
    refine List.filterMap_congr fun suspect _ => ?_
    unfold Suspect.settled?
    by_cases hfield : suspect.field = field
    · subst hfield
      simp [Change.fillOf?]
    · simp [hfield, Change.fillOf?, Ne.symm hfield]

/-- The run lemma: what becomes of the suspects after any number of changes. -/
theorem foldl_settle (changes : List Change) (suspects : List Suspect) :
    changes.foldl Change.settle suspects = suspects.filterMap (Suspect.settled? changes) := by
  induction changes generalizing suspects with
  | nil =>
    refine (List.filterMap_some.symm.trans (List.filterMap_congr fun suspect _ => ?_))
    simp [Suspect.settled?]
  | cons change rest ih => rw [List.foldl_cons, ih, filterMap_settle]

/-! ## The suspects at the end of a class -/

/-- A call that changes the size of its receiver has one of two opcodes. -/
theorem opcode_of_change? (h : change? step = some change) :
    step.opcode = .invokevirtual ∨ step.opcode = .invokeinterface := by
  obtain ⟨resize, hresize, _⟩ := Option.map_eq_some_iff.1 h
  obtain ⟨found, hfound, _⟩ := Option.bind_eq_some_iff.1 hresize
  unfold sizeChange? at hfound
  split at hfound
  · rename_i hopcode
    simpa using hopcode
  · cases hfound

/-- A method that is rejected for its opcodes leaves no changes. -/
theorem changesIn_of_rejected (h : detector.accepts method method.opcodes = false) :
    changesIn cls method = [] := by
  unfold changesIn
  split
  · rename_i hwatched
    refine List.filterMap_eq_nil_iff.2 fun visit hvisit => ?_
    refine Option.eq_none_iff_forall_ne_some.2 fun change hchange => ?_
    have haccepts : (!method.isConstructor && !method.isClassInitializer &&
      method.opcodes.containsAny [.invokevirtual, .invokeinterface]) = false := h
    rw [(Bool.and_eq_true_iff.1 hwatched).1, Bool.true_and] at haccepts
    have hlacks := OpcodeSet.containsAny_eq_false_iff.1 haccepts
    have hcode := Method.mem_code_of_visit hvisit
    rcases opcode_of_change? hchange with hopcode | hopcode
    · exact Method.opcode_ne_of_lacks (hlacks _ (by simp)) hcode hopcode
    · exact Method.opcode_ne_of_lacks (hlacks _ (by simp)) hcode hopcode
  · rfl

/-- A method settles the changes that it leaves. -/
theorem suspects_after (state : State) :
    State.suspects (detector.after cls state method) =
      (changesIn cls method).foldl Change.settle state.suspects := by
  cases haccepts : detector.accepts method method.opcodes with
  | false =>
    rw [changesIn_of_rejected haccepts]
    exact congrArg State.suspects (Detector.after_of_rejects haccepts)
  | true =>
    have hafter : detector.after cls state method = _ :=
      Detector.after_of_ok haccepts (follow_eq_ok fun _ => Method.counted_of_visit)
    have hwatched : (!method.isConstructor && !method.isClassInitializer) = true := by
      have hall : (!method.isConstructor && !method.isClassInitializer &&
        method.opcodes.containsAny [.invokevirtual, .invokeinterface]) = true := haccepts
      exact (Bool.and_eq_true_iff.1 hall).1
    refine (congrArg State.suspects hafter).trans ?_
    unfold changesIn
    rw [hwatched, Bool.true_and]
    cases method.walk.completes with
    | false => rfl
    | true =>
      refine foldl_settle_filter _ fun suspect hsuspect => ?_
      exact List.any_eq_true.2 ⟨suspect, hsuspect, beq_self_eq_true _⟩

theorem suspects_foldl_after (cls : Class) (methods : List Method) (state : State) :
    State.suspects (methods.foldl (detector.after cls) state) =
      (methods.flatMap (changesIn cls)).foldl Change.settle state.suspects := by
  induction methods generalizing state with
  | nil => rfl
  | cons method rest ih =>
    rw [List.flatMap_cons, List.foldl_append, ← suspects_after]
    exact ih (detector.after cls state method)

/-- The changes that the methods of the class leave. -/
def changesOf (cls : Class) : List Change :=
  cls.methods.flatMap (changesIn cls)

/-- The finding about a field, if it is filled and never emptied. -/
def growth? (cls : Class) (ref : FieldRef) : Option Finding :=
  if .empty ref ∈ changesOf cls then
    none
  else
    ((changesOf cls).findSome? (Change.fillOf? ref)).map fun location =>
      onlyGrows.report location (some ref.subject)

/-- A method without a body leaves no changes. -/
theorem changesOf_eq (cls : Class) :
    changesOf cls = (cls.methods.filter Method.hasBody).flatMap (changesIn cls) := by
  unfold changesOf
  induction cls.methods with
  | nil => rfl
  | cons method rest ih =>
    rw [List.flatMap_cons, List.filter_cons, ih]
    cases hbody : method.hasBody with
    | true => rfl
    | false =>
      have hnone : changesIn cls method = [] := by
        unfold changesIn
        rw [Method.walk_of_noBody hbody]
        exact ite_self _
      rw [hnone]
      rfl

/-- What the detector reports at the end of a class. -/
theorem finish_eq (cls : Class) (fields : List FieldRef) :
    detector.finish ((cls.methods.filter Method.hasBody).foldl (detector.after cls)
      (State.mk (fields.map (⟨·, none⟩)) [])) = fields.filterMap (growth? cls) := by
  have hsuspects := suspects_foldl_after cls (cls.methods.filter Method.hasBody)
    (State.mk (fields.map (⟨·, none⟩)) [])
  rw [← changesOf_eq, foldl_settle] at hsuspects
  -- Every field begins without a growth, so its first growth is the one that is noted.
  refine (congrArg (List.filterMap report) hsuspects).trans ?_
  rw [List.filterMap_map, List.filterMap_filterMap]
  refine List.filterMap_congr fun ref _ => ?_
  unfold growth?
  simp only [Function.comp_apply, Suspect.settled?]
  split
  · rfl
  · rfl

end MemoryBloat

/-! ## What is reported by the rule -/

section Reports

variable {detectors : List Detector} {cls : Class} {method : Method} {passes : List Pass}

/-- What is found in a method was found at a visit of one of the detectors. -/
theorem reportsIn_of_mem_findings {finding : Finding}
    (h : finding ∈ (analyzeMethod cls passes method).2.findings) :
    ∃ pass ∈ passes, method.walk.completes = true ∧
      pass.detector.ReportsIn cls method finding := by
  rw [analyzeMethod_findings] at h
  obtain ⟨pass, hpass, hfound⟩ := List.mem_flatMap.1 h
  obtain ⟨_, hcompletes, found, _, hfollow, hmem⟩ := Detector.mem_foundIn.1 hfound
  obtain ⟨front, visit, later, _, before, after, first, hvisits, _, hvisit, hfirst⟩ :=
    Detector.mem_follow hfollow hmem
  exact ⟨pass, hpass, hcompletes, visit, by simp [hvisits], before, first, after, hvisit, hfirst⟩

/-- Nothing is found in a method by the rule about memory bloat. -/
theorem ruleId_ne_of_reportsIn {detector : Detector} (hcatalog : detector ∈ catalog)
    (hmethod : method ∈ cls.methods) (hcompletes : method.walk.completes = true)
    {finding : Finding} (h : detector.ReportsIn cls method finding) :
    finding.ruleId ≠ MemoryBloat.onlyGrows.id := by
  intro hrule
  -- No two detectors share a rule, so it is the detector of memory bloat.
  obtain ⟨rule, hmem, hid⟩ := keepsToRules_of_mem_catalog hcatalog cls finding
    (Or.inl ⟨method, hmethod, hcompletes, h⟩)
  have hbloat : detector.id = MemoryBloat.detector.id :=
    id_eq_of_rule_id_eq detector hcatalog MemoryBloat.detector (by simp [catalog]) rule hmem
      MemoryBloat.onlyGrows (List.mem_singleton_self _) (hid.symm.trans hrule)
  simp only [catalog, List.mem_cons, List.not_mem_nil, or_false] at hcatalog
  rcases hcatalog with rfl | rfl | rfl | rfl | rfl
  · exact absurd hbloat (by decide)
  · exact absurd hbloat (by decide)
  · obtain ⟨visit, _, state, found, after, hvisit, hfinding⟩ := h
    rw [MemoryBloat.found_eq_nil hvisit] at hfinding
    cases hfinding
  · exact absurd hbloat (by decide)
  · exact absurd hbloat (by decide)

theorem filter_findings_analyzeMethods {methods : List Method}
    (hmethods : ∀ method ∈ methods, method ∈ cls.methods)
    (hpasses : ∀ pass ∈ passes, pass.detector ∈ catalog) :
    (analyzeMethods cls passes methods).2.findings.filter
      (·.ruleId == MemoryBloat.onlyGrows.id) = [] := by
  induction methods generalizing passes with
  | nil => rfl
  | cons method rest ih =>
    have hlater : ∀ pass ∈ (analyzeMethod cls passes method).1, pass.detector ∈ catalog := by
      intro pass hpass
      rw [analyzeMethod_passes] at hpass
      obtain ⟨old, hold, rfl⟩ := List.mem_map.1 hpass
      exact hpasses old hold
    show ((analyzeMethod cls passes method).2.findings ++
      (analyzeMethods cls (analyzeMethod cls passes method).1 rest).2.findings).filter _ = []
    rw [List.filter_append, ih (fun later hmem => hmethods later (List.mem_cons_of_mem _ hmem))
      hlater, List.append_nil]
    refine List.filter_eq_nil_iff.2 fun finding hfinding => ?_
    obtain ⟨pass, hpass, hcompletes, hreports⟩ := reportsIn_of_mem_findings hfinding
    rw [beq_iff_eq]
    exact ruleId_ne_of_reportsIn (hpasses pass hpass) (hmethods method (List.mem_cons_self ..))
      hcompletes hreports

/-- What a detector reports at the end of the class. -/
def Detector.endOf (cls : Class) (detector : Detector) : List Finding :=
  match detector.start cls with
  | some state =>
    detector.finish ((cls.methods.filter Method.hasBody).foldl (detector.after cls) state)
  | none => []

theorem flatMap_finish (detectors : List Detector) (cls : Class) :
    (analyzeMethods cls (begun detectors cls) (cls.methods.filter Method.hasBody)).1.flatMap
      Pass.finish = detectors.flatMap (Detector.endOf cls) := by
  rw [analyzeMethods_passes, List.flatMap_map]
  unfold begun
  induction detectors with
  | nil => rfl
  | cons detector rest ih =>
    rw [List.filterMap_cons, List.flatMap_cons]
    unfold Pass.start? Detector.endOf at ih ⊢
    cases detector.start cls with
    | none => exact ih
    | some state =>
      rw [← ih]
      simp only [Option.map_some, List.flatMap_cons, Pass.foldl_after]
      rfl

/-- A selection that gives something for one item only. -/
private theorem flatMap_of_sublist {α β : Type*} {give : α → List β} {front back list : List α}
    {item : α} (hsublist : list.Sublist (front ++ item :: back)) (hitem : item ∈ list)
    (hothers : ∀ other ∈ front ++ back, give other = []) : list.flatMap give = give item := by
  have hnone : ∀ {part : List α}, (∀ other ∈ part, other ∈ front ++ back) →
      part.flatMap give = [] := fun hpart =>
    List.flatMap_eq_nil_iff.2 fun other hmem => hothers other (hpart other hmem)
  obtain ⟨first, second, rfl, hfirst, hsecond⟩ := List.sublist_append_iff.1 hsublist
  have hfront : ∀ other ∈ first, other ∈ front ++ back := fun other hmem =>
    List.mem_append_left _ (hfirst.subset hmem)
  rw [List.flatMap_append, hnone hfront, List.nil_append]
  rcases List.sublist_cons_iff.1 hsecond with hback | ⟨rest, rfl, hback⟩
  · have hbehind : ∀ other ∈ second, other ∈ front ++ back := fun other hmem =>
      List.mem_append_right _ (hback.subset hmem)
    rw [hnone hbehind]
    rcases List.mem_append.1 hitem with hmem | hmem
    · exact (hothers item (hfront item hmem)).symm
    · exact (hothers item (hbehind item hmem)).symm
  · have hbehind : ∀ other ∈ rest, other ∈ front ++ back := fun other hmem =>
      List.mem_append_right _ (hback.subset hmem)
    rw [List.flatMap_cons, hnone hbehind, List.append_nil]

/-- Of a selection in the order of the catalog, only the detector of memory
bloat reports at the end of a class. -/
theorem flatMap_endOf (hdetectors : detectors.Sublist catalog)
    (hbloat : MemoryBloat.detector ∈ detectors) (cls : Class) :
    detectors.flatMap (Detector.endOf cls) = MemoryBloat.detector.endOf cls := by
  have hcatalog : catalog = [LiteralComparison.detector, Boxing.detector] ++
      MemoryBloat.detector :: [DiscardedObject.detector, SelfAssignment.detector] := rfl
  rw [hcatalog] at hdetectors
  -- The others report nothing there, whatever their state.
  refine flatMap_of_sublist hdetectors hbloat fun other hother => ?_
  simp only [List.mem_append, List.mem_cons, List.not_mem_nil, or_false] at hother
  rcases hother with (rfl | rfl) | (rfl | rfl)
  · rfl
  · rfl
  · rfl
  · rfl

theorem MemoryBloat.endOf_eq (cls : Class) :
    detector.endOf cls = (collectionFields cls).filterMap (growth? cls) := by
  have hstart : detector.start cls = start cls := rfl
  unfold Detector.endOf
  rw [hstart]
  unfold start
  cases hfields : collectionFields cls with
  | nil => rfl
  | cons first rest => exact finish_eq cls (first :: rest)

/-- What an analysis reports of a class by the rule about memory bloat. -/
theorem findings_onlyGrows (hdetectors : detectors.Sublist catalog)
    (hbloat : MemoryBloat.detector ∈ detectors) (cls : Class) :
    (analyzeClass detectors cls).findings.filter (·.ruleId == MemoryBloat.onlyGrows.id) =
      (MemoryBloat.collectionFields cls).filterMap (MemoryBloat.growth? cls) := by
  have hpasses : ∀ pass ∈ begun detectors cls, pass.detector ∈ catalog := fun pass hpass =>
    hdetectors.subset (mem_of_mem_begun hpass)
  rw [findings_analyzeClass, List.filter_append,
    filter_findings_analyzeMethods (fun method hmethod => (List.mem_filter.1 hmethod).1) hpasses,
    List.nil_append, flatMap_finish, flatMap_endOf hdetectors hbloat, MemoryBloat.endOf_eq]
  refine List.filter_eq_self.2 fun finding hfinding => ?_
  obtain ⟨ref, _, hgrowth⟩ := List.mem_filterMap.1 hfinding
  unfold MemoryBloat.growth? at hgrowth
  split at hgrowth
  · cases hgrowth
  · obtain ⟨location, _, rfl⟩ := Option.map_eq_some_iff.1 hgrowth
    exact beq_self_eq_true _

end Reports

end BytecodeLint
