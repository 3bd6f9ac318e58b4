import BytecodeLint.Detector
import BytecodeLint.Text

/-!
# Properties set to their own value

`bean.setX(bean.getX())` sets a property of a bean to the value that it
already has.  The bean is a local variable, or an instance field of one.

The detector recognises the instructions of the idiom one after another.
`Progress` is the part that has been seen, and `Progress.advance` is the
transition on one instruction.  An instruction that does not go on with
the idiom may begin it anew.
-/

namespace BytecodeLint.SelfAssignment

def selfAssignment : Rule where
  id := "SGSU_SUSPICIOUS_GETTER_SETTER_USE"
  name := "Suspicious getter/setter use"
  description :=
    "Bean property is set to the value just read from the same property of the same bean"
  priority := .normal

/-! ## Progress through the idiom -/

/-- A reference to a bean. -/
structure Bean where
  index : Nat
  /-- The field of the local variable that holds the bean. -/
  field : Option FieldRef
  deriving DecidableEq, Repr

def Bean.subject (bean : Bean) : Subject :=
  match bean.field with
  | some ref => .field ref.owner ref.name ref.descriptor
  | none => .localVar bean.index

inductive Progress
  | nothing
  /-- The local variable was loaded. -/
  | loaded (index : Nat)
  /-- A field of the local variable was read. -/
  | read (index : Nat) (field : FieldRef)
  /-- After the field was read, the local variable `second` was loaded. -/
  | loadedAgain (index : Nat) (field : FieldRef) (second : Nat)
  /-- The bean is on the stack twice. -/
  | doubled (bean : Bean)
  /-- The getter of a property was called on the upper reference. -/
  | got (bean : Bean) (property valueType : String)
  deriving DecidableEq, Repr

/-! ## Instructions of the idiom -/

/-- The local variable that the instruction loads a reference from. -/
def loadedLocal? (inst : Instruction) : Option Nat :=
  if inst.opcode.isAload then inst.local? else none

/-- The instance field that the instruction reads. -/
def readField? (inst : Instruction) : Option FieldRef :=
  if inst.opcode == .getfield then inst.field? else none

/-- The property and the type of a getter call. -/
def getterCall? (inst : Instruction) : Option (String × String) := do
  let site ← if inst.opcode == .invokevirtual then inst.call? else none
  let property ← Text.stripStart? site.name "get"
  let valueType ← returnText? site.descriptor
  if parametersText? site.descriptor = some "" ∧ valueType ≠ "V" then
    some (property, valueType)
  else
    none

/-- The instruction calls the setter of the property. -/
def isSetterCall (inst : Instruction) (property valueType : String) : Bool :=
  inst.opcode == .invokevirtual && inst.call?.any fun site =>
    Text.stripStart? site.name "set" == some property &&
      parametersText? site.descriptor == some valueType &&
      returnText? site.descriptor == some "V"

/-! ## Transitions -/

namespace Progress

/-- What an instruction begins by itself. -/
def start (inst : Instruction) : Progress :=
  match loadedLocal? inst with
  | some index => loaded index
  | none => nothing

/-- What has been seen after one more instruction, and the subject of a
finding if the idiom is complete. -/
def advance (progress : Progress) (inst : Instruction) : Progress × Option Subject :=
  match progress with
  | nothing => (start inst, none)
  | loaded index =>
    if loadedLocal? inst = some index then
      (doubled { index, field := none }, none)
    else
      match readField? inst with
      | some field => (read index field, none)
      | none => (start inst, none)
  | read index field =>
    match loadedLocal? inst with
    | some second => (loadedAgain index field second, none)
    | none => (start inst, none)
  | loadedAgain index field second =>
    if second = index ∧ readField? inst = some field then
      (doubled { index, field := some field }, none)
    else
      (start inst, none)
  | doubled bean =>
    match getterCall? inst with
    | some (property, valueType) => (got bean property valueType, none)
    | none => (start inst, none)
  | got bean property valueType =>
    if isSetterCall inst property valueType then
      (nothing, some bean.subject)
    else
      (start inst, none)

end Progress

/-! ## The detector -/

def visit (step : Step) : EStateM DetectorFault Progress (List Finding) := do
  let (progress, subject) := (← get).advance step.instruction
  set progress
  return (subject.map fun subject => step.finding selfAssignment (some subject)).toList

def detector : Detector where
  id := "SGSU"
  name := "Suspicious getter/setter use"
  slug := "suspicious_getter_setter_use"
  rules := [selfAssignment]
  State := Progress
  accepts _ opcodes := opcodes.contains .invokevirtual
  start _ := some .nothing
  enter _ _ := .nothing
  visit := visit

end BytecodeLint.SelfAssignment
