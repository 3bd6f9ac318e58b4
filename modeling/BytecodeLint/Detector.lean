import BytecodeLint.Walk
import BytecodeLint.Finding

/-!
# Detectors

A detector looks for uses of one idiom.  It is a value: metadata, a type
of state, and the functions that change the state while a class is
analysed.  `BytecodeLint.Detector.Catalog` lists the detectors of this
library, and `BytecodeLint.Analysis` runs any list of detectors.

A detector works on one class at a time.

* `start` begins a class, or says that there is nothing to do.
* `accepts` tells whether a method can matter, by the opcodes that occur
  in it.
* `enter`, `visit` and then one of `leave` and `abandon` follow one
  method.  A visit may fail.  A method is abandoned when its walk faults
  or when a visit of this detector fails.
* `finish` ends the class.
-/

namespace BytecodeLint

/-! ## What a detector sees -/

/-- One visit of a walk, with the class and the method that it is in. -/
structure Step extends Visit where
  cls : Class
  method : Method
  deriving DecidableEq, Repr

namespace Step

def opcode (step : Step) : Opcode :=
  step.instruction.opcode

def offset (step : Step) : Nat :=
  step.instruction.offset

/-- The number of slots on the stack. -/
def depth (step : Step) : Nat :=
  step.slots.length

/-- The slot `below` slots below the top. -/
def peek? (step : Step) (below : Nat) : Option Slot :=
  step.slots[below]?

end Step

/-- The place in a method of a class. -/
def Class.locate (cls : Class) (method : Method) (offset : Nat) : Location :=
  { className := cls.name
    methodName := method.name
    methodDescriptor := method.descriptor
    offset
    line := method.lineAt? offset
    uri := cls.uri }

/-! ## Rules -/

/-- A rule that a detector may report. -/
structure Rule where
  id : String
  name : String
  description : String
  priority : Priority
  deriving DecidableEq, Repr

/-- The finding of a rule at a place. -/
def Rule.report (rule : Rule) (location : Location) (subject : Option Subject) : Finding :=
  { ruleId := rule.id, priority := rule.priority, location, subject }

/-- The finding of a rule at an offset in the method of the step. -/
def Step.findingAt (step : Step) (rule : Rule) (offset : Nat) : Finding :=
  rule.report (step.cls.locate step.method offset) none

/-- The finding of a rule at the instruction of the step. -/
def Step.finding (step : Step) (rule : Rule) (subject : Option Subject) : Finding :=
  rule.report (step.cls.locate step.method step.offset) subject

/-! ## Detectors -/

/-- The reason for which a detector fails at a visit. -/
structure DetectorFault where
  message : String
  deriving DecidableEq, Repr

/-- A detector for one idiom. -/
structure Detector where
  id : String
  name : String
  /-- The long name in lower case, with underscores. -/
  slug : String
  rules : List Rule
  /-- What the detector knows while it is in a class. -/
  State : Type
  accepts : Method → OpcodeSet → Bool
  start : Class → Option State
  enter : Method → State → State := fun _ state => state
  visit : Step → EStateM DetectorFault State (List Finding)
  leave : Method → State → State := fun _ state => state
  abandon : Method → State → State := fun _ state => state
  finish : State → List Finding := fun _ => []

end BytecodeLint
