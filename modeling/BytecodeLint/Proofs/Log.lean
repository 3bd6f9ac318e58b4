import BytecodeLint.Report
import BytecodeLint.Proofs.Uniqueness
import Mathlib.Data.List.Flatten

/-!
# Logs are whole

A log lists rules and results, and every result names a rule.  Three parts of
the library have to agree for that: the detectors, which make findings by rules,
the metadata of the selected detectors, and the report, which sorts the rules
and looks them up by id.  Here the log is read back, and what it says is compared
with the findings.

There are four groups.

* Reading values: `Json.at?` follows a path.
* Reading logs: `Sarif.readLog?` finds the rules and the results.
* Rules that are found by their ids.
* `log_whole` is the result.
-/

namespace BytecodeLint

/-! ## Reading values -/

namespace Json

/-- A step from a value to one of its parts. -/
inductive Step
  | member (name : String)
  | item (index : Nat)
  deriving DecidableEq, Repr

/-- The part of the value at the end of the path. -/
def at? : List Step → Json → Option Json
  | [], value => some value
  | .member name :: path, object members => (members.lookup name).bind (at? path)
  | .item index :: path, array items => items[index]?.bind (at? path)
  | _ :: _, _ => none

def textAt? (path : List Step) (value : Json) : Option String :=
  match value.at? path with
  | some (string text) => some text
  | _ => none

def itemsAt? (path : List Step) (value : Json) : Option (List Json) :=
  match value.at? path with
  | some (array items) => some items
  | _ => none

end Json

/-! ## Reading logs -/

namespace Sarif

open Json.Step

/-- What a log says about a rule. -/
structure RuleEntry where
  id : String
  level : String
  description : String
  deriving DecidableEq, Repr

/-- What a log says about a result. -/
structure ResultEntry where
  ruleId : String
  level : String
  text : String
  /-- The method, with its class and its descriptor. -/
  name : String
  deriving DecidableEq, Repr

structure LogEntries where
  rules : List RuleEntry
  results : List ResultEntry
  deriving DecidableEq, Repr

def readRule? (value : Json) : Option RuleEntry := do
  return {
    id := ← value.textAt? [member "id"]
    level := ← value.textAt? [member "defaultConfiguration", member "level"]
    description := ← value.textAt? [member "shortDescription", member "text"] }

def readResult? (value : Json) : Option ResultEntry := do
  return {
    ruleId := ← value.textAt? [member "ruleId"]
    level := ← value.textAt? [member "level"]
    text := ← value.textAt? [member "message", member "text"]
    name := ← value.textAt?
      [member "locations", item 0, member "logicalLocations", item 0, member "name"] }

def rulePath : List Json.Step :=
  [member "runs", item 0, member "tool", member "driver", member "rules"]

def resultPath : List Json.Step :=
  [member "runs", item 0, member "results"]

def readLog? (log : Json) : Option LogEntries := do
  let rules ← log.itemsAt? rulePath
  let results ← log.itemsAt? resultPath
  return { rules := ← rules.mapM readRule?, results := ← results.mapM readResult? }

/-- The entry of a rule. -/
def entryOf (rule : Rule) : RuleEntry :=
  { id := rule.id, level := level rule.priority, description := rule.description }

theorem readRule?_reportingDescriptor (rule : Rule) :
    readRule? (reportingDescriptor rule) = some (entryOf rule) := rfl

/-- The method that a location names. -/
def methodName (location : Location) : String :=
  location.className ++ "." ++ location.methodName ++ location.methodDescriptor

/-- The entry of a finding's result. -/
def resultEntryOf (rules : List Rule) (finding : Finding) : ResultEntry :=
  { ruleId := finding.ruleId
    level := level finding.priority
    text := resultText rules finding
    name := methodName finding.location }

theorem readResult?_result (rules : List Rule) (finding : Finding) :
    readResult? (result rules finding) = some (resultEntryOf rules finding) := rfl

private theorem mapM_map_of_read {α β : Type} {write : α → Json} {read : Json → Option β}
    {entry : α → β} (h : ∀ item, read (write item) = some (entry item)) (list : List α) :
    (list.map write).mapM read = some (list.map entry) := by
  have hread : read ∘ write = fun item => pure (entry item) := funext h
  rw [List.mapM_map, hread, List.mapM_pure]
  rfl

/-- A log says what was written into it. -/
theorem readLog?_sarifLog (rules : List Rule) (findings : List Finding)
    (diagnostics : List Diagnostic) (info : RunInfo) :
    readLog? (sarifLog rules findings diagnostics info) = some
      { rules := (sortRules rules).map entryOf
        results := findings.map (resultEntryOf rules) } := by
  have hrules : (sarifLog rules findings diagnostics info).itemsAt? rulePath =
      some ((sortRules rules).map reportingDescriptor) := rfl
  have hresults : (sarifLog rules findings diagnostics info).itemsAt? resultPath =
      some (findings.map (result rules)) := rfl
  unfold readLog?
  rw [hrules, hresults]
  simp only [Option.bind_eq_bind, Option.bind_some,
    mapM_map_of_read readRule?_reportingDescriptor, mapM_map_of_read (readResult?_result rules)]
  rfl

/-! ## Rules that are found by their ids -/

/-- Rules with different ids are found by them. -/
theorem filter_id_eq_singleton {rules : List Rule} (hids : (rules.map (·.id)).Nodup) {rule : Rule}
    (hrule : rule ∈ rules) : rules.filter (·.id == rule.id) = [rule] := by
  obtain ⟨front, back, rfl⟩ := List.append_of_mem hrule
  rw [List.map_append, List.map_cons, List.nodup_middle, List.nodup_cons] at hids
  have hothers : ∀ other ∈ front ++ back, ¬ (other.id == rule.id) = true := by
    intro other hother hid
    refine hids.1 ?_
    rw [← List.map_append, ← eq_of_beq hid]
    exact List.mem_map_of_mem hother
  rw [List.filter_append, List.filter_cons, if_pos (beq_self_eq_true rule.id),
    List.filter_eq_nil_iff.2 fun other hother => hothers other (List.mem_append_left _ hother),
    List.filter_eq_nil_iff.2 fun other hother => hothers other (List.mem_append_right _ hother)]
  rfl

theorem ruleOf?_of_mem {rules : List Rule} (hids : (rules.map (·.id)).Nodup) {rule : Rule}
    (hrule : rule ∈ rules) : ruleOf? rules rule.id = some rule := by
  rw [ruleOf?, filter_id_eq_singleton hids hrule]
  rfl

theorem sortRules_perm (rules : List Rule) : (sortRules rules).Perm rules :=
  List.mergeSort_perm ..

private theorem isLE_compare_iff {left right : String} :
    (compare left right).isLE ↔ left < right ∨ left = right := by
  show (compareOfLessAndEq left right).isLE ↔ _
  unfold compareOfLessAndEq
  split
  · rename_i hlt
    simp [hlt]
  · rename_i hnot
    split
    · rename_i heq
      simp [heq]
    · rename_i hne
      simp [hnot, hne]

/-- Rules with different ids are sorted strictly. -/
theorem pairwise_sortRules {rules : List Rule} (hids : (rules.map (·.id)).Nodup) :
    (sortRules rules).Pairwise (·.id < ·.id) := by
  have hsorted : (sortRules rules).Pairwise fun left right => (compare left.id right.id).isLE :=
    List.pairwise_mergeSort (fun _ _ _ => Std.TransCmp.isLE_trans) (fun _ _ => isLE_total _ _) rules
  have hdiffer : (sortRules rules).Pairwise (·.id ≠ ·.id) :=
    List.pairwise_map.1 (((sortRules_perm rules).map _).nodup_iff.2 hids)
  refine (hsorted.and hdiffer).imp fun {left right} ⟨hle, hne⟩ => ?_
  exact (isLE_compare_iff.1 hle).resolve_right hne

end Sarif

/-! ## The result -/

section Result

variable {detectors : List Detector}

/-- No two rules of the catalog have one id. -/
theorem nodup_rules_of_selected {ids : List String} (h : selectDetectors ids = .ok detectors) :
    ((detectors.flatMap (·.rules)).map (·.id)).Nodup := by
  have hcatalog : ((catalog.flatMap (·.rules)).map (·.id)).Nodup := by decide
  exact hcatalog.sublist (((sublist_of_selected h).flatMap _).map _)

/-- Every finding is made by a rule of the selected detectors. -/
theorem exists_rule_of_mem_findings {ids : List String}
    (hselected : selectDetectors ids = .ok detectors) {classes : List Class} {finding : Finding}
    (h : finding ∈ (analyze detectors classes).findings) :
    ∃ rule ∈ detectors.flatMap (·.rules),
      finding.ruleId = rule.id ∧ finding.priority = rule.priority := by
  obtain ⟨cls, _, hfinding⟩ := mem_findings_analyze.1 h
  obtain ⟨detector, hdetector, _, _, _, _, rule, hrule, _, _, _, _, rfl⟩ :=
    exists_marksCall (sublist_of_selected hselected) hfinding
  exact ⟨rule, List.mem_flatMap.2 ⟨detector, hdetector, hrule⟩, rfl, rfl⟩

open Sarif

/-- The subject of a finding in parentheses. -/
def Finding.subjectText (finding : Finding) : String :=
  match finding.subject with
  | some subject => " (" ++ subject.text ++ ")"
  | none => ""

/-- The result is about the finding, and what it says agrees with the one rule
that it names. -/
structure Sarif.LogEntries.Tells (log : LogEntries) (result : ResultEntry) (finding : Finding) :
    Prop where
  ruleId : result.ruleId = finding.ruleId
  name : result.name = methodName finding.location
  rule : ∃ rule, log.rules.filter (·.id == result.ruleId) = [rule] ∧
    result.level = rule.level ∧ result.text = rule.description ++ finding.subjectText

theorem Sarif.resultText_of_rule {rules : List Rule} (hids : (rules.map (·.id)).Nodup) {rule : Rule}
    (hrule : rule ∈ rules) {finding : Finding} (hfinding : finding.ruleId = rule.id) :
    resultText rules finding = rule.description ++ finding.subjectText := by
  unfold resultText Finding.subjectText
  rw [hfinding, ruleOf?_of_mem hids hrule]
  cases finding.subject with
  | none => exact (String.append_empty ..).symm
  | some subject => simp [String.append_assoc]

theorem tells_of_rule {rules : List Rule} (hids : (rules.map (·.id)).Nodup) {rule : Rule}
    (hrule : rule ∈ rules) {finding : Finding} (hid : finding.ruleId = rule.id)
    (hpriority : finding.priority = rule.priority) (results : List ResultEntry) :
    (LogEntries.mk ((sortRules rules).map entryOf) results).Tells (resultEntryOf rules finding)
      finding := by
  refine ⟨rfl, rfl, entryOf rule, ?_, congrArg level hpriority,
    Sarif.resultText_of_rule hids hrule hid⟩
  have hsorted : ((sortRules rules).map (·.id)).Nodup :=
    ((sortRules_perm rules).map _).nodup_iff.2 hids
  have hone := filter_id_eq_singleton hsorted ((sortRules_perm rules).mem_iff.2 hrule)
  show ((sortRules rules).map entryOf).filter (·.id == finding.ruleId) = [entryOf rule]
  rw [List.filter_map, hid]
  exact congrArg (List.map entryOf) hone

/-- The log of an analysis is whole, whatever is selected and analysed.

* Its rules are sorted strictly by their ids.
* Its results tell the findings, one by one.
* Every result names exactly one rule of the log.  It has the level of that
  rule, and its text is the description of the rule, with the subject in
  parentheses if the finding has one. -/
theorem log_whole {ids : List String} (hselected : selectDetectors ids = .ok detectors)
    (classes : List Class) (info : RunInfo) :
    ∃ log, readLog? (reportValue .sarif (detectors.flatMap (·.rules)) (analyze detectors classes)
        info) = some log ∧
      log.rules.Pairwise (·.id < ·.id) ∧
      List.Forall₂ log.Tells log.results (analyze detectors classes).findings := by
  have hids := nodup_rules_of_selected hselected
  refine ⟨_, readLog?_sarifLog .., List.pairwise_map.2 (pairwise_sortRules hids), ?_⟩
  refine List.forall₂_map_left_iff.2 (List.forall₂_same.2 fun finding hfinding => ?_)
  obtain ⟨rule, hrule, hid, hpriority⟩ := exists_rule_of_mem_findings hselected hfinding
  exact tells_of_rule hids hrule hid hpriority _

/-- The log about the class `keepsLog`, for two selected detectors. -/
def keptLog : LogEntries where
  rules :=
    [ { id := "PMB_POSSIBLE_MEMORY_BLOAT"
        level := "warning"
        description :=
          "Static collection or buffer only grows; nothing in the class ever shrinks it" }
    , { id := "SEC_SIDE_EFFECT_CONSTRUCTOR"
        level := "warning"
        description := "Object is constructed and immediately discarded; " ++
          "the constructor is only used for its side effects" } ]
  results :=
    [ { ruleId := "PMB_POSSIBLE_MEMORY_BLOAT"
        level := "warning"
        text := "Static collection or buffer only grows; nothing in the class ever shrinks it" ++
          " (field Demo.log)"
        name := "Demo.add(Ljava/lang/Object;)V" }
    , { ruleId := "SEC_SIDE_EFFECT_CONSTRUCTOR"
        level := "warning"
        text := "Object is constructed and immediately discarded; " ++
          "the constructor is only used for its side effects"
        name := "Demo.run()V" } ]

theorem findings_keepsLog :
    (analyze [MemoryBloat.detector, DiscardedObject.detector] [keepsLog]).findings =
      [ MemoryBloat.onlyGrows.report
          ⟨"Demo", "add", "(Ljava/lang/Object;)V", 4, some 3, some "file:///work/Demo.class"⟩
          (some (.field "Demo" "log" "Ljava/util/List;"))
      , DiscardedObject.discarded.report
          ⟨"Demo", "run", "()V", 4, some 7, some "file:///work/Demo.class"⟩ none ] := by
  have hfound :
      (analyzeClass [MemoryBloat.detector, DiscardedObject.detector] keepsLog).findings =
        [ DiscardedObject.discarded.report
            ⟨"Demo", "run", "()V", 4, some 7, some "file:///work/Demo.class"⟩ none
        , MemoryBloat.onlyGrows.report
            ⟨"Demo", "add", "(Ljava/lang/Object;)V", 4, some 3, some "file:///work/Demo.class"⟩
            (some (.field "Demo" "log" "Ljava/util/List;")) ] := by
    decide +kernel
  rw [findings_analyze, List.flatMap_singleton, hfound]
  exact KeysDiffer.sortFindings_eq (by decide +kernel) (by decide +kernel) (List.Perm.swap ..)

/-- The log lists both rules, and both results in the order of the findings. -/
theorem keepsLog_log_whole :
    selectDetectors ["SEC", "PMB"] = .ok [MemoryBloat.detector, DiscardedObject.detector] ∧
      ∀ info, readLog? (reportValue .sarif [MemoryBloat.onlyGrows, DiscardedObject.discarded]
          (analyze [MemoryBloat.detector, DiscardedObject.detector] [keepsLog]) info) =
            some keptLog ∧
        keptLog.rules.Pairwise (·.id < ·.id) ∧
        List.Forall₂ keptLog.Tells keptLog.results
          (analyze [MemoryBloat.detector, DiscardedObject.detector] [keepsLog]).findings := by
  have hselected :
      selectDetectors ["SEC", "PMB"] = .ok [MemoryBloat.detector, DiscardedObject.detector] := rfl
  refine ⟨hselected, fun info => ?_⟩
  have hsorted : sortRules [MemoryBloat.onlyGrows, DiscardedObject.discarded] =
      [MemoryBloat.onlyGrows, DiscardedObject.discarded] := 
    List.mergeSort_of_pairwise (by decide)
  have hread : readLog? (reportValue .sarif [MemoryBloat.onlyGrows, DiscardedObject.discarded]
      (analyze [MemoryBloat.detector, DiscardedObject.detector] [keepsLog]) info) =
        some keptLog := by
    show readLog? (sarifLog _ _ _ _) = _
    rw [readLog?_sarifLog, hsorted, findings_keepsLog]
    decide
  obtain ⟨log, hlog, hrules, hresults⟩ := log_whole hselected [keepsLog] info
  obtain rfl : log = keptLog := Option.some_inj.1 (hlog.symm.trans hread)
  exact ⟨hread, hrules, hresults⟩

end Result

end BytecodeLint
