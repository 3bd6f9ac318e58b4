import BytecodeLint.Finding
import BytecodeLint.Json

/-!
# Findings as JSON

The plain report: an array with one object for each finding.  What is not
known about a finding is left out of its object.
-/

namespace BytecodeLint

def Priority.name : Priority → String
  | normal => "normal"
  | low => "low"

def Subject.toJson : Subject → Json
  | field owner name descriptor =>
    .object
      [ ("kind", .string "field")
      , ("owner", .string owner)
      , ("name", .string name)
      , ("descriptor", .string descriptor) ]
  | localVar index => .object [("kind", .string "local"), ("index", .number index)]

def Location.toJson (location : Location) : Json :=
  .object <|
    [ ("class_name", .string location.className)
    , ("method_name", .string location.methodName)
    , ("method_descriptor", .string location.methodDescriptor)
    , ("offset", .number location.offset) ] ++
    Json.member? "line" (location.line.map .number) ++
    Json.member? "artifact_uri" (location.uri.map .string)

def Finding.toJson (finding : Finding) : Json :=
  .object <|
    [ ("rule_id", .string finding.ruleId)
    , ("priority", .string finding.priority.name)
    , ("location", finding.location.toJson) ] ++
    Json.member? "subject" (finding.subject.map Subject.toJson)

/-- The plain report. -/
def findingsToJson (findings : List Finding) : Json :=
  .array (findings.map Finding.toJson)

end BytecodeLint
