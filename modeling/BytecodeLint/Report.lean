import BytecodeLint.Analysis
import BytecodeLint.Report.Findings
import BytecodeLint.Report.Sarif

/-!
# Reports

The text of a report, in one of two formats: a SARIF log, or the findings
alone as a JSON array.  Both end with a line break.
-/

namespace BytecodeLint

inductive ReportFormat
  | sarif
  | json
  deriving DecidableEq, Repr

/-- The value that a report shows. -/
def reportValue (format : ReportFormat) (rules : List Rule) (analysis : Analysis)
    (info : Sarif.RunInfo) : Json :=
  match format with
  | .sarif => Sarif.sarifLog rules analysis.findings analysis.diagnostics info
  | .json => findingsToJson analysis.findings

/-- The text of a report. -/
def report (format : ReportFormat) (rules : List Rule) (analysis : Analysis)
    (info : Sarif.RunInfo) : String :=
  String.ofList ((reportValue format rules analysis info).pretty ++ ['\n'])

end BytecodeLint
