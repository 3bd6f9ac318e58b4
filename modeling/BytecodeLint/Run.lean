import BytecodeLint.Detector.Catalog
import BytecodeLint.Options
import BytecodeLint.Scan

/-!
# Runs

A run scans the inputs, analyses the classes and makes a report.

There are three groups.

* `RunFault` lists the reasons for which a run is given up.
* `Job` is a run that is ready for the analysis, and `Options.prepare`
  makes it.
* `run` does everything on a disk and gives the text of the report.
-/

namespace BytecodeLint

/-! ## Faults -/

inductive RunFault
  | missingInput (path : String)
  | unknownDetector (unknown : UnknownDetector)
  | badScan (fault : ScanFault)
  /-- The report has no place. -/
  | unwritable (path : String) (fault : PathFault)
  deriving DecidableEq, Repr

def RunFault.message : RunFault → String
  | missingInput path => "input not found: " ++ path
  | unknownDetector unknown => unknown.message
  | badScan fault => fault.message
  | unwritable path fault => "failed to open " ++ path ++ ": " ++ fault.message

/-! ## Jobs -/

/-- A run that is ready for the analysis. -/
structure Job where
  format : ReportFormat
  detectors : List Detector
  scan : Scan

/-- The file that the report goes to.  Without one it goes to the standard
output. -/
def Options.destination? (options : Options) : Option String :=
  options.output.filter fun path => !Pathname.isDash path

/-- All inputs must exist before anything else is checked, and the
detectors must be known before anything is scanned. -/
def Options.prepare (options : Options) (disk : Disk) : Except RunFault Job :=
  let inputs := disk.inputs options.inputs
  match inputs.find? fun input => !input.tree.isOk with
  | some input => .error (.missingInput input.path)
  | none =>
    match selectDetectors options.detectors with
    | .error unknown => .error (.unknownDetector unknown)
    | .ok detectors =>
      match scan disk.workingDirectory inputs with
      | .error fault => .error (.badScan fault)
      | .ok scan => .ok { format := options.format, detectors, scan }

namespace Job

def analysis (job : Job) : Analysis :=
  analyze job.detectors job.scan.classes

def rules (job : Job) : List Rule :=
  job.detectors.flatMap (·.rules)

/-- The text of the report. -/
def report (job : Job) (analysis : Analysis) (record : Sarif.RunRecord) : String :=
  BytecodeLint.report job.format job.rules analysis {
    toRunRecord := record
    classCount := job.scan.classCount
    skippedEntries := job.scan.skipped.length }

end Job

/-! ## Runs -/

/-- Runs on a disk.  The place of the report is tried last. -/
def run (options : Options) (disk : Disk) (record : Sarif.RunRecord) : Except RunFault String :=
  match options.prepare disk with
  | .error fault => .error fault
  | .ok job =>
    let text := job.report job.analysis record
    match options.destination? with
    | none => .ok text
    | some path =>
      match disk.create path with
      | .error fault => .error (.unwritable path fault)
      | .ok () => .ok text

end BytecodeLint
