import BytecodeLint.Detector
import BytecodeLint.Json
import BytecodeLint.Text

/-!
# SARIF logs

The report as a log of the static analysis results interchange format.
The log describes the run, the rules and the results.  The members of
every object stand in alphabetical order.

There are four groups.

* The run: `RunRecord`, `RunInfo` and the notifications for diagnostics.
* The rules.
* The results.  A class in an archive is shown at the archive, and lines
  inside an archive cannot be addressed.
* `sarifLog`.
-/

namespace BytecodeLint.Sarif

/-! ## The run -/

def toolName : String :=
  "inspequte-idioms"

/-- How a run was started, and how long its two parts took. -/
structure RunRecord where
  /-- The command line, word by word. -/
  arguments : List String
  scanMilliseconds : Nat
  analysisMilliseconds : Nat
  deriving DecidableEq, Repr

/-- What is told about a run besides its results. -/
structure RunInfo extends RunRecord where
  classCount : Nat
  skippedEntries : Nat
  deriving DecidableEq, Repr

/-- The part of the analysis that a diagnostic is about. -/
def scope (diagnostic : Diagnostic) : String :=
  diagnostic.className ++
    (diagnostic.method.map ("." ++ ·)).getD "" ++
    (diagnostic.offset.map (" at offset " ++ toString ·)).getD ""

def notificationText (diagnostic : Diagnostic) : String :=
  match diagnostic.detector with
  | some id => id ++ " disabled in " ++ scope diagnostic ++ ": " ++ diagnostic.message
  | none => "analysis abandoned in " ++ scope diagnostic ++ ": " ++ diagnostic.message

def message (text : String) : Json :=
  .object [("text", .string text)]

def notice (diagnostic : Diagnostic) : Json :=
  .object [("level", .string "warning"), ("message", message (notificationText diagnostic))]

def invocation (info : RunInfo) (diagnostics : List Diagnostic) : Json :=
  let property (name : String) (value : Nat) := (toolName ++ "." ++ name, Json.number value)
  .object <|
    [ ("arguments", .strings info.arguments)
    , ("commandLine", .string (" ".intercalate info.arguments))
    , ("executionSuccessful", .bool true)
    , ("properties", .object
        [ property "analysis_ms" info.analysisMilliseconds
        , property "class_count" info.classCount
        , property "scan_ms" info.scanMilliseconds
        , property "skipped_entries" info.skippedEntries ]) ] ++
    if diagnostics = [] then []
    else [("toolExecutionNotifications", .array (diagnostics.map notice))]

/-! ## Rules -/

def level : Priority → String
  | .normal => "warning"
  | .low => "note"

def reportingDescriptor (rule : Rule) : Json :=
  .object
    [ ("defaultConfiguration", .object [("level", .string (level rule.priority))])
    , ("id", .string rule.id)
    , ("name", .string rule.name)
    , ("shortDescription", message rule.description) ]

/-- Rules by ascending id. -/
def sortRules (rules : List Rule) : List Rule :=
  rules.mergeSort fun left right => (compare left.id right.id).isLE

def driver (rules : List Rule) : Json :=
  .object
    [ ("name", .string toolName)
    , ("rules", .array ((sortRules rules).map reportingDescriptor))
    , ("version", .string "0.1.0") ]

/-! ## Results -/

/-- The rule with the given id.  The last one counts. -/
def ruleOf? (rules : List Rule) (id : String) : Option Rule :=
  (rules.filter (·.id == id)).getLast?

/-- The text of a result: the description of the rule, and the subject in
parentheses. -/
def resultText (rules : List Rule) (finding : Finding) : String :=
  let description := ((ruleOf? rules finding.ruleId).map (·.description)).getD finding.ruleId
  match finding.subject with
  | some subject => description ++ " (" ++ subject.text ++ ")"
  | none => description

/-- The text up to the mark `!/`. -/
def beforeEntryMark : List Char → List Char
  | [] => []
  | '!' :: '/' :: _ => []
  | c :: rest => c :: beforeEntryMark rest

/-- The archive that holds the class at the given place. -/
def container? (uri : String) : Option String :=
  (Text.stripStart? uri "jar:").map fun rest => String.ofList (beforeEntryMark rest.toList)

def physicalLocation (uri : String) (line : Option Nat) : Json :=
  let artifact (uri : String) := ("artifactLocation", Json.object [("uri", .string uri)])
  match container? uri with
  | some container => .object [artifact container]
  | none =>
    .object <| artifact uri ::
      Json.member? "region" (line.map fun line => .object [("startLine", .number line)])

def location (location : Location) : Json :=
  let name := location.className ++ "." ++ location.methodName ++ location.methodDescriptor
  .object <|
    ("logicalLocations", .array [.object [("kind", .string "function"), ("name", .string name)]]) ::
    Json.member? "physicalLocation" (location.uri.map (physicalLocation · location.line))

def result (rules : List Rule) (finding : Finding) : Json :=
  .object
    [ ("level", .string (level finding.priority))
    , ("locations", .array [location finding.location])
    , ("message", message (resultText rules finding))
    , ("ruleId", .string finding.ruleId) ]

/-! ## The log -/

def sarifLog (rules : List Rule) (findings : List Finding) (diagnostics : List Diagnostic)
    (info : RunInfo) : Json :=
  let run := Json.object
    [ ("invocations", .array [invocation info diagnostics])
    , ("results", .array (findings.map (result rules)))
    , ("tool", .object [("driver", driver rules)]) ]
  .object
    [ ("$schema",
        .string "https://schemastore.azurewebsites.net/schemas/json/sarif-2.1.0.json")
    , ("runs", .array [run])
    , ("version", .string "2.1.0") ]

end BytecodeLint.Sarif
