import BytecodeLint.Proofs.Growth

/-!
# Which collections are reported

A static field of a type that can grow is reported if some method of the class
fills it and none empties it, and then at the first call that fills it.  Only
the calls that are there count, not their order.

There are four groups.

* `Class.CallsOn` says which calls there are in a class, and
  `Class.FirstCallOn` which one comes first.
* `growth?_eq_some_iff` says in these terms what is found of a field.
* The fields of a class that can grow.
* What an analysis reports of a field, `reports_growth_iff`.
-/

namespace BytecodeLint

/-! ## The calls in a class -/

/-- The reference to a field of the class. -/
def Class.refTo (cls : Class) (field : Field) : FieldRef :=
  ⟨cls.name, field.name, field.descriptor⟩

/-- At the visit a method with one of the names is called, and the receiver
below its arguments was read from the static field. -/
def Visit.CallsOn (visit : Visit) (names : List String) (ref : FieldRef) : Prop :=
  (visit.instruction.opcode = .invokevirtual ∨ visit.instruction.opcode = .invokeinterface) ∧
    ∃ site slots receiver, visit.instruction.call? = some site ∧ site.name ∈ names ∧
      callSlots site.descriptor = .ok slots ∧ visit.slots[slots.params]? = some receiver ∧
      receiver.provenance.staticField? = some ref

/-- The calls in the method count: it is no initializer, and its walk comes to
the end. -/
def Method.Settles (method : Method) : Prop :=
  method.isConstructor = false ∧ method.isClassInitializer = false ∧
    method.walk.completes = true

def Method.CallsOn (method : Method) (names : List String) (ref : FieldRef) : Prop :=
  method.Settles ∧ ∃ visit ∈ method.walk.visits, visit.CallsOn names ref

def Class.CallsOn (cls : Class) (names : List String) (ref : FieldRef) : Prop :=
  ∃ method ∈ cls.methods, method.CallsOn names ref

/-- The call is the first in the order of the methods, and then of the
instructions. -/
def Class.FirstCallOn (cls : Class) (names : List String) (ref : FieldRef) (method : Method)
    (visit : Visit) : Prop :=
  ∃ before after front back, cls.methods = before ++ method :: after ∧
    method.walk.visits = front ++ visit :: back ∧ method.Settles ∧ visit.CallsOn names ref ∧
    (∀ earlier ∈ before, ¬ earlier.CallsOn names ref) ∧
    ∀ earlier ∈ front, ¬ earlier.CallsOn names ref

section Search

variable {α β γ : Type*}

private theorem findSome?_filterMap (f : α → Option β) (g : β → Option γ) (list : List α) :
    (list.filterMap f).findSome? g = list.findSome? fun item => (f item).bind g := by
  induction list with
  | nil => rfl
  | cons item rest ih =>
    rw [List.filterMap_cons, List.findSome?_cons]
    cases f item with
    | none => exact ih
    | some found => rw [Option.bind_some, List.findSome?_cons, ih]

private theorem findSome?_flatMap (f : α → List β) (g : β → Option γ) (list : List α) :
    (list.flatMap f).findSome? g = list.findSome? fun item => (f item).findSome? g := by
  induction list with
  | nil => rfl
  | cons item rest ih =>
    rw [List.flatMap_cons, List.findSome?_append, ih, List.findSome?_cons]
    cases (f item).findSome? g <;> rfl

end Search

/-! ## What is found of a field -/

namespace MemoryBloat

variable {cls : Class} {method : Method} {visit : Visit} {step : Step} {ref : FieldRef}
  {location : Location}

/-- No name fills and empties. -/
theorem not_filling_of_emptying : ∀ name ∈ emptyingMethods, name ∉ fillingMethods := by
  decide

theorem sizeChange?_eq_some_iff {empties : Bool} {descriptor : String} :
    sizeChange? step = some (empties, descriptor) ↔
      (step.opcode = .invokevirtual ∨ step.opcode = .invokeinterface) ∧
        ∃ site, step.instruction.call? = some site ∧
          site.name ∈ (if empties then emptyingMethods else fillingMethods) ∧
          site.descriptor = descriptor := by
  unfold sizeChange?
  by_cases hopcode : step.opcode = .invokevirtual ∨ step.opcode = .invokeinterface
  · rw [if_pos (by simpa using hopcode), Option.bind_eq_some_iff]
    refine ⟨fun ⟨site, hcall, h⟩ => ⟨hopcode, site, hcall, ?_⟩,
      fun ⟨_, site, hcall, hname, h⟩ => ⟨site, hcall, ?_⟩⟩
    · split at h
      · rename_i hname
        cases h
        exact ⟨List.contains_iff_mem.1 hname, rfl⟩
      · split at h
        · rename_i hname
          cases h
          exact ⟨List.contains_iff_mem.1 hname, rfl⟩
        · cases h
    · subst h
      cases empties with
      | true => exact if_pos (List.contains_iff_mem.2 hname)
      | false =>
        have hnot : ¬ emptyingMethods.contains site.name = true := fun hempties =>
          not_filling_of_emptying _ (List.contains_iff_mem.1 hempties) hname
        rw [if_neg hnot]
        exact if_pos (List.contains_iff_mem.2 hname)
  · rw [if_neg (by simpa using hopcode)]
    constructor
    · intro h
      cases h
    · exact fun h => absurd h.1 hopcode

theorem resize?_eq_some_iff {empties : Bool} :
    resize? step = some (empties, ref) ↔
      step.toVisit.CallsOn (if empties then emptyingMethods else fillingMethods) ref := by
  unfold resize? Visit.CallsOn
  rw [Option.bind_eq_some_iff]
  constructor
  · rintro ⟨⟨found, descriptor⟩, hchange, hreceiver⟩
    obtain ⟨hopcode, site, hcall, hname, rfl⟩ := sizeChange?_eq_some_iff.1 hchange
    simp only at hreceiver
    split at hreceiver
    · rename_i slots hslots
      obtain ⟨field, hfield, heq⟩ := Option.map_eq_some_iff.1 hreceiver
      cases heq
      obtain ⟨receiver, hpeek, hprovenance⟩ := Option.bind_eq_some_iff.1 hfield
      exact ⟨hopcode, site, slots, receiver, hcall, hname, hslots, hpeek, hprovenance⟩
    · cases hreceiver
  · rintro ⟨hopcode, site, slots, receiver, hcall, hname, hslots, hpeek, hprovenance⟩
    refine ⟨(empties, site.descriptor),
      sizeChange?_eq_some_iff.2 ⟨hopcode, site, hcall, hname, rfl⟩, ?_⟩
    have hreceiver : receiverField? step slots.params = some ref :=
      Option.bind_eq_some_iff.2 ⟨receiver, hpeek, hprovenance⟩
    simp only [hslots, hreceiver, Option.map_some]

theorem change?_eq_empty_iff :
    change? step = some (.empty ref) ↔ step.toVisit.CallsOn emptyingMethods ref := by
  refine (Option.map_eq_some_iff.trans ?_).trans (@resize?_eq_some_iff step ref true)
  constructor
  · rintro ⟨⟨empties, field⟩, hresize, h⟩
    cases empties with
    | true =>
      cases h
      exact hresize
    | false => cases h
  · exact fun hresize => ⟨(true, ref), hresize, rfl⟩

/-- The place at which a step fills the field. -/
theorem fillOf?_change?_eq_some_iff :
    (change? step).bind (Change.fillOf? ref) = some location ↔
      step.toVisit.CallsOn fillingMethods ref ∧
        step.cls.locate step.method step.offset = location := by
  unfold change?
  rw [Option.bind_map, Option.bind_eq_some_iff]
  constructor
  · rintro ⟨⟨empties, field⟩, hresize, h⟩
    cases empties with
    | true => cases h
    | false =>
      have hfill : (if field = ref then some (step.cls.locate step.method step.offset) else none) =
        some location := h
      obtain ⟨rfl, hlocation⟩ := Option.ite_none_right_eq_some.1 hfill
      exact ⟨resize?_eq_some_iff.1 hresize, Option.some_inj.1 hlocation⟩
  · rintro ⟨hcalls, rfl⟩
    exact ⟨(false, ref), resize?_eq_some_iff.2 hcalls, if_pos rfl⟩

/-- A step fills the field if it gives a place. -/
theorem fillOf?_change?_eq_none_iff :
    (change? step).bind (Change.fillOf? ref) = none ↔
      ¬ step.toVisit.CallsOn fillingMethods ref := by
  rw [Option.eq_none_iff_forall_ne_some]
  constructor
  · exact fun h hcalls => h _ (fillOf?_change?_eq_some_iff.2 ⟨hcalls, rfl⟩)
  · exact fun h location hfill => h (fillOf?_change?_eq_some_iff.1 hfill).1

theorem settles_iff :
    (!method.isConstructor && !method.isClassInitializer && method.walk.completes) = true ↔
      method.Settles := by
  simp [Method.Settles, and_assoc]

theorem changesIn_of_settles (h : method.Settles) :
    changesIn cls method = changesAt cls method method.walk.visits :=
  if_pos (settles_iff.2 h)

theorem changesIn_of_not_settles (h : ¬ method.Settles) : changesIn cls method = [] :=
  if_neg (settles_iff.not.2 h)

theorem empty_mem_changesIn :
    .empty ref ∈ changesIn cls method ↔ method.CallsOn emptyingMethods ref := by
  unfold Method.CallsOn
  by_cases hsettles : method.Settles
  · rw [changesIn_of_settles hsettles, changesAt, List.mem_filterMap]
    simp only [change?_eq_empty_iff, hsettles, true_and]
  · rw [changesIn_of_not_settles hsettles]
    simp [hsettles]

theorem empty_mem_changesOf :
    .empty ref ∈ changesOf cls ↔ cls.CallsOn emptyingMethods ref := by
  unfold changesOf Class.CallsOn
  simp only [List.mem_flatMap, empty_mem_changesIn]

/-- The place of the first call in a method that fills the field. -/
theorem findSome?_changesIn_eq_some_iff :
    (changesIn cls method).findSome? (Change.fillOf? ref) = some location ↔
      method.Settles ∧ ∃ front visit back, method.walk.visits = front ++ visit :: back ∧
        (visit.CallsOn fillingMethods ref ∧
          cls.locate method visit.instruction.offset = location) ∧
        ∀ earlier ∈ front, ¬ earlier.CallsOn fillingMethods ref := by
  by_cases hsettles : method.Settles
  · rw [changesIn_of_settles hsettles, changesAt, findSome?_filterMap, List.findSome?_eq_some_iff]
    simp only [fillOf?_change?_eq_some_iff, fillOf?_change?_eq_none_iff, hsettles, true_and]
    rfl
  · rw [changesIn_of_not_settles hsettles]
    simp [hsettles]

theorem findSome?_changesIn_eq_none_iff :
    (changesIn cls method).findSome? (Change.fillOf? ref) = none ↔
      ¬ method.CallsOn fillingMethods ref := by
  unfold Method.CallsOn
  by_cases hsettles : method.Settles
  · rw [changesIn_of_settles hsettles, changesAt, findSome?_filterMap, List.findSome?_eq_none_iff]
    simp only [fillOf?_change?_eq_none_iff, hsettles, true_and, not_exists, not_and]
  · rw [changesIn_of_not_settles hsettles]
    simp [hsettles]

/-- The place of the first call in a class that fills the field. -/
theorem findSome?_changesOf_eq_some_iff :
    (changesOf cls).findSome? (Change.fillOf? ref) = some location ↔
      ∃ method visit, cls.FirstCallOn fillingMethods ref method visit ∧
        cls.locate method visit.instruction.offset = location := by
  unfold changesOf Class.FirstCallOn
  rw [findSome?_flatMap, List.findSome?_eq_some_iff]
  simp only [findSome?_changesIn_eq_some_iff, findSome?_changesIn_eq_none_iff]
  constructor
  · rintro ⟨before, method, after, hmethods,
      ⟨hsettles, front, visit, back, hvisits, ⟨hcalls, hlocation⟩, hfront⟩, hbefore⟩
    exact ⟨method, visit, ⟨before, after, front, back, hmethods, hvisits, hsettles, hcalls,
      hbefore, hfront⟩, hlocation⟩
  · rintro ⟨method, visit, ⟨before, after, front, back, hmethods, hvisits, hsettles, hcalls,
      hbefore, hfront⟩, hlocation⟩
    exact ⟨before, method, after, hmethods,
      ⟨hsettles, front, visit, back, hvisits, ⟨hcalls, hlocation⟩, hfront⟩, hbefore⟩

theorem findSome?_changesOf_eq_none_iff :
    (changesOf cls).findSome? (Change.fillOf? ref) = none ↔
      ¬ cls.CallsOn fillingMethods ref := by
  unfold changesOf Class.CallsOn
  rw [findSome?_flatMap, List.findSome?_eq_none_iff]
  simp only [findSome?_changesIn_eq_none_iff, not_exists, not_and]

theorem growth?_eq_some_iff {finding : Finding} :
    growth? cls ref = some finding ↔
      ¬ cls.CallsOn emptyingMethods ref ∧
        ∃ method visit, cls.FirstCallOn fillingMethods ref method visit ∧
          finding = onlyGrows.report (cls.locate method visit.instruction.offset)
            (some ref.subject) := by
  unfold growth?
  simp only [empty_mem_changesOf, Option.ite_none_left_eq_some, Option.map_eq_some_iff,
    findSome?_changesOf_eq_some_iff]
  refine and_congr_right fun _ => ⟨?_, ?_⟩
  · rintro ⟨location, ⟨method, visit, hfirst, rfl⟩, rfl⟩
    exact ⟨method, visit, hfirst, rfl⟩
  · rintro ⟨method, visit, hfirst, rfl⟩
    exact ⟨_, ⟨method, visit, hfirst, rfl⟩, rfl⟩

theorem growth?_eq_none_iff :
    growth? cls ref = none ↔
      ¬ (cls.CallsOn fillingMethods ref ∧ ¬ cls.CallsOn emptyingMethods ref) := by
  unfold growth?
  by_cases hempties : .empty ref ∈ changesOf cls
  · rw [if_pos hempties, ← empty_mem_changesOf]
    simp [hempties]
  · rw [if_neg hempties, Option.map_eq_none_iff, findSome?_changesOf_eq_none_iff,
      ← empty_mem_changesOf]
    simp [hempties]

theorem subject_of_growth? {finding : Finding} (h : growth? cls ref = some finding) :
    finding.subject = some ref.subject := by
  obtain ⟨_, _, _, _, rfl⟩ := growth?_eq_some_iff.1 h
  rfl

/-! ## The fields of a class that can grow -/

theorem mem_collectionFields :
    ref ∈ collectionFields cls ↔
      ∃ field ∈ cls.fields, field.isStatic = true ∧ field.descriptor ∈ collectionTypes ∧
        cls.refTo field = ref := by
  unfold collectionFields
  simp only [List.mem_mergeSort, List.mem_eraseDups, List.mem_map, List.mem_filter,
    Bool.and_eq_true, List.contains_iff_mem]
  constructor
  · rintro ⟨field, ⟨hfield, hstatic, htype⟩, rfl⟩
    exact ⟨field, hfield, hstatic, htype, rfl⟩
  · rintro ⟨field, hfield, hstatic, htype, rfl⟩
    exact ⟨field, ⟨hfield, hstatic, htype⟩, rfl⟩

private theorem nodup_eraseDups {α : Type*} [BEq α] [LawfulBEq α] :
    ∀ list : List α, list.eraseDups.Nodup
  | [] => List.nodup_nil
  | item :: rest => by
    rw [List.eraseDups_cons, List.nodup_cons]
    refine ⟨fun hmem => ?_, nodup_eraseDups (rest.filter fun other => !other == item)⟩
    simp at hmem
termination_by list => list.length
decreasing_by exact Nat.lt_succ_of_le (List.length_filter_le ..)

theorem nodup_collectionFields (cls : Class) : (collectionFields cls).Nodup :=
  (List.mergeSort_perm ..).nodup_iff.2 (nodup_eraseDups _)

end MemoryBloat

/-! ## What an analysis reports of a field -/

section Fields

open MemoryBloat

variable {detectors : List Detector}

/-- What an analysis reports of a field by the rule about memory bloat. -/
def reportsOn (detectors : List Detector) (cls : Class) (ref : FieldRef) : List Finding :=
  (analyzeClass detectors cls).findings.filter fun finding =>
    finding.ruleId == onlyGrows.id && finding.subject == some ref.subject

/-- The fields that an analysis reports by the rule. -/
def reportedFields (detectors : List Detector) (cls : Class) : List (Option Subject) :=
  ((analyzeClass detectors cls).findings.filter (·.ruleId == onlyGrows.id)).map (·.subject)

/-- Other fields have other subjects. -/
theorem filter_filterMap_growth? (cls : Class) {ref : FieldRef} {fields : List FieldRef}
    (hfields : ref ∉ fields) :
    (fields.filterMap (growth? cls)).filter (·.subject == some ref.subject) = [] := by
  refine List.filter_eq_nil_iff.2 fun finding hfinding hsubject => ?_
  obtain ⟨other, hother, hgrowth⟩ := List.mem_filterMap.1 hfinding
  rw [beq_iff_eq, subject_of_growth? hgrowth] at hsubject
  obtain ⟨howner, hname, hdescriptor⟩ := Subject.field.inj (Option.some_inj.1 hsubject)
  have hsame : other = ref := by
    cases other
    cases ref
    cases howner
    cases hname
    cases hdescriptor
    rfl
  exact hfields (hsame ▸ hother)

/-- A field is reported as it was found, since no other field has the same
subject. -/
theorem reportsOn_eq (hdetectors : detectors.Sublist catalog)
    (hbloat : MemoryBloat.detector ∈ detectors) {cls : Class} {ref : FieldRef}
    (href : ref ∈ collectionFields cls) :
    reportsOn detectors cls ref = (growth? cls ref).toList := by
  have hfilter : reportsOn detectors cls ref =
      ((analyzeClass detectors cls).findings.filter (·.ruleId == onlyGrows.id)).filter
        (·.subject == some ref.subject) := by
    rw [List.filter_filter]
    exact List.filter_congr fun finding _ => Bool.and_comm ..
  -- The field stands once among the fields that can grow.
  obtain ⟨front, back, hfields⟩ := List.append_of_mem href
  have hnodup := nodup_collectionFields cls
  rw [hfields, List.nodup_middle] at hnodup
  obtain ⟨hfront, hback⟩ := not_or.1 (List.mem_append.not.1 hnodup.notMem)
  rw [hfilter, findings_onlyGrows hdetectors hbloat, hfields, List.filterMap_append,
    List.filter_append, filter_filterMap_growth? cls hfront, List.nil_append, List.filterMap_cons]
  cases hgrowth : growth? cls ref with
  | none => exact filter_filterMap_growth? cls hback
  | some finding =>
    have hsubject : (finding.subject == some ref.subject) = true :=
      beq_iff_eq.2 (subject_of_growth? hgrowth)
    simp only [List.filter_cons, hsubject, if_pos, filter_filterMap_growth? cls hback]
    rfl

/-- Whether a field is reported depends only on whether it is filled, and
whether it is emptied. -/
theorem reportedFields_congr (hdetectors : detectors.Sublist catalog)
    (hbloat : MemoryBloat.detector ∈ detectors) {cls other : Class} (hname : other.name = cls.name)
    (hfields : other.fields = cls.fields)
    (hfills : ∀ ref, other.CallsOn fillingMethods ref ↔ cls.CallsOn fillingMethods ref)
    (hempties : ∀ ref, other.CallsOn emptyingMethods ref ↔ cls.CallsOn emptyingMethods ref) :
    reportedFields detectors other = reportedFields detectors cls := by
  have hcollections : collectionFields other = collectionFields cls := by
    unfold collectionFields
    rw [hname, hfields]
  unfold reportedFields
  rw [findings_onlyGrows hdetectors hbloat, findings_onlyGrows hdetectors hbloat, hcollections,
    List.map_filterMap, List.map_filterMap]
  refine List.filterMap_congr fun ref _ => ?_
  -- The places of the findings may differ, but not whether there is a finding.
  have hnone : growth? other ref = none ↔ growth? cls ref = none := by
    rw [growth?_eq_none_iff, growth?_eq_none_iff, hfills, hempties]
  cases hgrowth : growth? cls ref with
  | none => rw [hnone.2 hgrowth]
  | some finding =>
    obtain ⟨otherFinding, hother⟩ := Option.ne_none_iff_exists'.1
      (hnone.not.2 (Option.ne_none_iff_exists'.2 ⟨finding, hgrowth⟩))
    rw [hother, Option.map_some, Option.map_some, subject_of_growth? hgrowth,
      subject_of_growth? hother]

/-- The detector of memory bloat decides on each field by the whole class.

* A static field of a type that can grow is reported exactly if some method
  fills it and none empties it.  It is then reported once, at the first call
  that fills it.
* Classes in which the same fields are filled, and the same fields emptied, have
  the same fields reported, wherever and in whatever order the calls stand.
* So it is for the methods of a class in any order. -/
theorem reports_growth_iff (hdetectors : detectors.Sublist catalog)
    (hbloat : MemoryBloat.detector ∈ detectors) (cls : Class) :
    (∀ field ∈ cls.fields, field.isStatic = true → field.descriptor ∈ collectionTypes →
      (reportsOn detectors cls (cls.refTo field) ≠ [] ↔
        cls.CallsOn fillingMethods (cls.refTo field) ∧
          ¬ cls.CallsOn emptyingMethods (cls.refTo field)) ∧
      ∀ finding ∈ reportsOn detectors cls (cls.refTo field),
        reportsOn detectors cls (cls.refTo field) = [finding] ∧
        ∃ method visit, cls.FirstCallOn fillingMethods (cls.refTo field) method visit ∧
          finding = onlyGrows.report (cls.locate method visit.instruction.offset)
            (some (cls.refTo field).subject)) ∧
    (∀ other : Class, other.name = cls.name → other.fields = cls.fields →
      (∀ ref, other.CallsOn fillingMethods ref ↔ cls.CallsOn fillingMethods ref) →
      (∀ ref, other.CallsOn emptyingMethods ref ↔ cls.CallsOn emptyingMethods ref) →
        reportedFields detectors other = reportedFields detectors cls) ∧
    ∀ methods : List Method, methods.Perm cls.methods →
      reportedFields detectors (cls.withMethods methods) = reportedFields detectors cls := by
  refine ⟨fun field hfield hstatic htype => ?_,
    fun other hname hfields => reportedFields_congr hdetectors hbloat hname hfields,
    fun methods hperm => ?_⟩
  · have hreports := reportsOn_eq hdetectors hbloat
      (mem_collectionFields.2 ⟨field, hfield, hstatic, htype, rfl⟩)
    rw [hreports]
    refine ⟨?_, fun finding hfinding => ?_⟩
    · rw [← not_iff_not, ← growth?_eq_none_iff, not_not]
      exact Option.toList_eq_nil_iff
    · have hgrowth := Option.mem_toList.1 hfinding
      exact ⟨by rw [hgrowth]; rfl, (growth?_eq_some_iff.1 hgrowth).2⟩
  · have hcalls : ∀ names ref,
        (cls.withMethods methods).CallsOn names ref ↔ cls.CallsOn names ref := fun names ref =>
      exists_congr fun method => and_congr_left fun _ => hperm.mem_iff
    exact reportedFields_congr hdetectors hbloat rfl rfl (hcalls _) (hcalls _)

/-- The list is filled, and the one method that would empty it is abandoned.
The first of the calls that fill it is reported, and the field is reported for
the methods in the reverse order as well. -/
theorem clearedInVain_reports_growth :
    catalog.Sublist catalog ∧ MemoryBloat.detector ∈ catalog ∧
      clearedInVain.CallsOn fillingMethods ⟨"Demo", "log", "Ljava/util/List;"⟩ ∧
      ¬ clearedInVain.CallsOn emptyingMethods ⟨"Demo", "log", "Ljava/util/List;"⟩ ∧
      reportsOn catalog clearedInVain ⟨"Demo", "log", "Ljava/util/List;"⟩ =
        [onlyGrows.report ⟨"Demo", "add", "(Ljava/lang/Object;)V", 4, none, none⟩
          (some (.field "Demo" "log" "Ljava/util/List;"))] ∧
      clearedInVain.methods.reverse.Perm clearedInVain.methods ∧
      reportedFields catalog (clearedInVain.withMethods clearedInVain.methods.reverse) =
        [some (.field "Demo" "log" "Ljava/util/List;")] := by
  have hbloat : MemoryBloat.detector ∈ catalog := by simp [catalog]
  have hreports : reportsOn catalog clearedInVain ⟨"Demo", "log", "Ljava/util/List;"⟩ =
      [onlyGrows.report ⟨"Demo", "add", "(Ljava/lang/Object;)V", 4, none, none⟩
        (some (.field "Demo" "log" "Ljava/util/List;"))] := by decide +kernel
  have hfields : reportedFields catalog clearedInVain =
      [some (.field "Demo" "log" "Ljava/util/List;")] := by decide +kernel
  obtain ⟨hgrowth, _, horder⟩ := reports_growth_iff (List.Sublist.refl catalog) hbloat clearedInVain
  obtain ⟨hiff, _⟩ := hgrowth ⟨"log", "Ljava/util/List;", true⟩ (List.mem_singleton_self _) rfl
    (by decide)
  have hreported : reportsOn catalog clearedInVain ⟨"Demo", "log", "Ljava/util/List;"⟩ ≠ [] := by
    rw [hreports]
    exact List.cons_ne_nil _ _
  obtain ⟨hfills, hempties⟩ := hiff.1 hreported
  exact ⟨List.Sublist.refl _, hbloat, hfills, hempties, hreports, List.reverse_perm _,
    (horder _ (List.reverse_perm _)).trans hfields⟩

end Fields

end BytecodeLint
