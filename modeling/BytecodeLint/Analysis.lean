import BytecodeLint.Detector

/-!
# Analysis

Runs detectors over classes.  Detectors do not see each other.  A
detector that fails at a visit loses the method, and a fault of the walk
loses the method for all detectors.  Both are told in a diagnostic.

There are four groups.

* `Pass` is a detector at work on a class, and `Attempt` is a pass at
  work on a method.  The findings of an attempt count only if it lasts to
  the end of the method.
* `analyzeMethod` walks a method once and offers every visit to all live
  attempts.
* `analyzeClass` takes the methods in order.
* `analyze` takes many classes and sorts the findings.
-/

namespace BytecodeLint

/-- What an analysis found, and what it gave up. -/
structure Analysis where
  findings : List Finding
  diagnostics : List Diagnostic
  deriving DecidableEq, Repr

namespace Analysis

def empty : Analysis :=
  { findings := [], diagnostics := [] }

def append (left right : Analysis) : Analysis :=
  { findings := left.findings ++ right.findings
    diagnostics := left.diagnostics ++ right.diagnostics }

instance : Append Analysis :=
  ⟨append⟩

end Analysis

/-! ## Passes and attempts -/

/-- A detector at work on a class. -/
structure Pass where
  detector : Detector
  state : detector.State

inductive Status
  /-- The method was rejected before its code was read. -/
  | idle
  | live
  /-- The detector failed at a visit. -/
  | failed
  deriving DecidableEq, Repr

/-- A pass at work on a method, with the findings in it so far. -/
structure Attempt where
  pass : Pass
  status : Status
  findings : List Finding

namespace Pass

def start? (cls : Class) (detector : Detector) : Option Pass :=
  (detector.start cls).map fun state => { detector, state }

/-- Begins a method, unless the detector rejects it. -/
def attempt (pass : Pass) (method : Method) : Attempt :=
  if pass.detector.accepts method method.opcodes then
    { pass := { pass with state := pass.detector.enter method pass.state }
      status := .live
      findings := [] }
  else
    { pass, status := .idle, findings := [] }

def finish (pass : Pass) : List Finding :=
  pass.detector.finish pass.state

end Pass

namespace Attempt

def isLive (attempt : Attempt) : Bool :=
  attempt.status == .live

/-- Offers a visit.  A detector that fails forgets the method. -/
def visit (step : Step) (attempt : Attempt) : Attempt × Option Diagnostic :=
  if attempt.isLive then
    let detector := attempt.pass.detector
    match detector.visit step attempt.pass.state with
    | .ok findings state =>
      ({ attempt with
          pass := { detector, state }
          findings := attempt.findings ++ findings }, none)
    | .error fault state =>
      ({ pass := { detector, state := detector.abandon step.method state }
         status := .failed
         findings := [] },
        some
          { className := step.cls.name
            method := some step.method.signature
            detector := some detector.id
            offset := some step.offset
            message := fault.message })
  else
    (attempt, none)

/-- Ends the method, which was walked to the end or not. -/
def conclude (method : Method) (completes : Bool) (attempt : Attempt) : Pass × List Finding :=
  let detector := attempt.pass.detector
  if attempt.isLive then
    if completes then
      ({ detector, state := detector.leave method attempt.pass.state }, attempt.findings)
    else
      ({ detector, state := detector.abandon method attempt.pass.state }, [])
  else
    (attempt.pass, [])

/-- Offers a visit to all attempts. -/
def visitAll (step : Step) (attempts : List Attempt) : List Attempt × List Diagnostic :=
  let visited := attempts.map (visit step)
  (visited.map (·.1), visited.filterMap (·.2))

/-- Offers visits one after another. -/
def follow (cls : Class) (method : Method) :
    List Visit → List Attempt → List Attempt × List Diagnostic
  | [], attempts => (attempts, [])
  | visit :: rest, attempts =>
    let (attempts, diagnostics) := visitAll { visit with cls, method } attempts
    let (attempts, later) := follow cls method rest attempts
    (attempts, diagnostics ++ later)

end Attempt

/-! ## Methods -/

/-- The diagnostic of a walk that did not come to its end. -/
def WalkFault.diagnostic (fault : WalkFault) (cls : Class) (method : Method) : Diagnostic :=
  { className := cls.name
    method := some method.signature
    detector := none
    offset := some fault.offset
    message := fault.fault.message }

/-- Analyses a method, unless all passes reject it. -/
def analyzeMethod (cls : Class) (passes : List Pass) (method : Method) :
    List Pass × Analysis :=
  let attempts := passes.map (·.attempt method)
  if attempts.any Attempt.isLive then
    let walk := method.walk
    let (attempts, diagnostics) := Attempt.follow cls method walk.visits attempts
    let concluded := attempts.map (Attempt.conclude method walk.completes)
    (concluded.map (·.1),
      { findings := concluded.flatMap (·.2)
        diagnostics :=
          diagnostics ++ (walk.fault.map (·.diagnostic cls method)).toList })
  else
    (passes, .empty)

/-! ## Classes -/

/-- Analyses methods one after another. -/
def analyzeMethods (cls : Class) (passes : List Pass) : List Method → List Pass × Analysis
  | [] => (passes, .empty)
  | method :: rest =>
    let (passes, first) := analyzeMethod cls passes method
    let (passes, later) := analyzeMethods cls passes rest
    (passes, first ++ later)

/-- Analyses the methods that have a body, and then ends the class. -/
def analyzeClass (detectors : List Detector) (cls : Class) : Analysis :=
  let passes := detectors.filterMap (Pass.start? cls)
  let (passes, analysis) := analyzeMethods cls passes (cls.methods.filter Method.hasBody)
  { analysis with findings := analysis.findings ++ passes.flatMap Pass.finish }

/-- Analyses classes independently of each other.  The findings are
sorted, and the diagnostics stay in the order of the classes. -/
def analyze (detectors : List Detector) (classes : List Class) : Analysis :=
  let analyses := classes.map (analyzeClass detectors)
  { findings := sortFindings (analyses.flatMap (·.findings))
    diagnostics := analyses.flatMap (·.diagnostics) }

end BytecodeLint
