import BytecodeLint.Proofs.JsonText
import BytecodeLint.Proofs.Log

/-!
# Findings are read back

The plain report leaves out what is not known of a finding, and the kind of a
subject stands beside its parts.  Nothing is lost by this: a reader that looks up
the members by their names gets every finding back from the text, so reports of
different findings differ.

There are two groups.

* Reading values: what a member that is left out means.
* `report_lossless` is the result.
-/

namespace BytecodeLint

/-! ## Reading values -/

open Json.Step

def Json.numberAt? (path : List Json.Step) (value : Json) : Option Nat :=
  match value.at? path with
  | some (.number count) => some count
  | _ => none

/-- The member may be left out.  If it is there, it must be read. -/
def Json.optionalAt? {α : Type} (read : Json → Option α) (name : String) (value : Json) :
    Option (Option α) :=
  match value.at? [member name] with
  | some part => (read part).map some
  | none => some none

def Priority.ofName? : String → Option Priority
  | "normal" => some normal
  | "low" => some low
  | _ => none

def Subject.ofJson? (value : Json) : Option Subject := do
  match ← value.textAt? [member "kind"] with
  | "field" =>
    return .field (← value.textAt? [member "owner"]) (← value.textAt? [member "name"])
      (← value.textAt? [member "descriptor"])
  | "local" => return .localVar (← value.numberAt? [member "index"])
  | _ => none

def Location.ofJson? (value : Json) : Option Location := do
  return {
    className := ← value.textAt? [member "class_name"]
    methodName := ← value.textAt? [member "method_name"]
    methodDescriptor := ← value.textAt? [member "method_descriptor"]
    offset := ← value.numberAt? [member "offset"]
    line := ← value.optionalAt? (Json.numberAt? []) "line"
    uri := ← value.optionalAt? (Json.textAt? []) "artifact_uri" }

def Finding.ofJson? (value : Json) : Option Finding := do
  return {
    ruleId := ← value.textAt? [member "rule_id"]
    priority := ← Priority.ofName? (← value.textAt? [member "priority"])
    location := ← Location.ofJson? (← value.at? [member "location"])
    subject := ← value.optionalAt? Subject.ofJson? "subject" }

theorem Subject.ofJson?_toJson (subject : Subject) : ofJson? subject.toJson = some subject := by
  cases subject <;> rfl

theorem Location.ofJson?_toJson (location : Location) :
    ofJson? location.toJson = some location := by
  obtain ⟨className, methodName, methodDescriptor, offset, line, uri⟩ := location
  cases line <;> cases uri <;> rfl

theorem Finding.ofJson?_toJson (finding : Finding) : ofJson? finding.toJson = some finding := by
  obtain ⟨ruleId, priority, location, subject⟩ := finding
  have hparts : ofJson? (toJson ⟨ruleId, priority, location, subject⟩) =
      (Location.ofJson? location.toJson).bind fun location =>
        (subject.elim (some none) fun subject => (Subject.ofJson? subject.toJson).map some).bind
          fun subject => some ⟨ruleId, priority, location, subject⟩ := by
    cases priority <;> cases subject <;> rfl
  rw [hparts, Location.ofJson?_toJson]
  cases subject with
  | none => rfl
  | some subject =>
    simp only [Option.elim, Option.bind_some, Subject.ofJson?_toJson, Option.map_some]

/-! ## The result -/

/-- The plain report of an analysis is one array, and its items are read back as
the findings, one by one.  So two reports have one text only if the findings are
the same, whatever else differs. -/
theorem report_lossless (rules : List Rule) (analysis : Analysis) (info : Sarif.RunInfo) :
    (∃ items, Json.parse? (report .json rules analysis info) = some (.array items) ∧
        items.map Finding.ofJson? = analysis.findings.map some) ∧
      ∀ rules' analysis' info',
        report .json rules analysis info = report .json rules' analysis' info' ↔
          analysis.findings = analysis'.findings := by
  have hparse : ∀ rules analysis info, Json.parse? (report .json rules analysis info) =
      some (.array (analysis.findings.map Finding.toJson)) := fun _ _ _ => Json.parse?_pretty _
  have hread : ∀ findings : List Finding,
      (findings.map Finding.toJson).map Finding.ofJson? = findings.map some := by
    intro findings
    rw [List.map_map]
    exact List.map_congr_left fun finding _ => finding.ofJson?_toJson
  refine ⟨⟨_, hparse .., hread _⟩, fun rules' analysis' info' => ⟨fun h => ?_, fun h => ?_⟩⟩
  · have hsame := hparse rules analysis info
    rw [h, hparse] at hsame
    have hitems := congrArg (List.map Finding.ofJson?) (Json.array.inj (Option.some_inj.1 hsame))
    rw [hread, hread] at hitems
    exact (List.map_injective_iff.2 (fun _ _ => Option.some_inj.1) hitems).symm
  · unfold report reportValue
    rw [h]

end BytecodeLint
