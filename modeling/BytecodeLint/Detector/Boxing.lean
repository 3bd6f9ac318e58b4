import BytecodeLint.Detector
import BytecodeLint.Text

/-!
# Boxing and unboxing back to back

The detector reports an instruction that undoes what the instruction
before it did with a primitive value: it boxes what was just unboxed,
unboxes what was just boxed, or boxes what was just parsed.

There are four groups.

* `Wrapper` describes a wrapper class by the names of its methods.
* `State` is what the instruction before left on top of the stack, as far
  as boxing is concerned.
* `advance` is the transition on one instruction.
* The detector.  A conditional expression ends one of its arms with a
  jump that carries a value.  Where such a jump goes, the value can come
  from either arm, so the state is dropped there.
-/

namespace BytecodeLint.Boxing

/-! ## Rules -/

def unboxedToConstructor : Rule where
  id := "NAB_NEEDLESS_AUTOBOXING_CTOR"
  name := "Needless autoboxing via constructor"
  description := "Primitive value extracted from a box is passed straight to " ++
    "the same box type's constructor"
  priority := .normal

def unboxedToValueOf : Rule where
  id := "NAB_NEEDLESS_AUTOBOXING_VALUEOF"
  name := "Needless autoboxing via valueOf"
  description := "Primitive value extracted from a box is passed straight to " ++
    "the same box type's valueOf"
  priority := .normal

def boxedToUnbox : Rule where
  id := "NAB_NEEDLESS_BOX_TO_UNBOX"
  name := "Needless box to unbox"
  description := "Primitive value is boxed only to be unboxed again"
  priority := .normal

def boxedToCast : Rule where
  id := "NAB_NEEDLESS_BOX_TO_CAST"
  name := "Needless box to cast"
  description := "Primitive value is boxed only to be converted to another primitive; " ++
    "a cast is enough"
  priority := .normal

def boxedStringToUnbox : Rule where
  id := "NAB_NEEDLESS_BOXING_PARSE"
  name := "Needless boxing of parsed string"
  description := "valueOf(String) is immediately unboxed; use the parse method instead"
  priority := .normal

def parsedToValueOf : Rule where
  id := "NAB_NEEDLESS_BOXING_VALUEOF"
  name := "Needless parse before valueOf"
  description := "Parsed primitive is immediately boxed with valueOf; " ++
    "use valueOf(String) instead"
  priority := .normal

def parsedToConstructor : Rule where
  id := "NAB_NEEDLESS_BOXING_STRING_CTOR"
  name := "Needless parse before constructor"
  description := "Parsed primitive is immediately passed to the box constructor; " ++
    "use valueOf(String) instead"
  priority := .normal

def booleanConversion : Rule where
  id := "NAB_NEEDLESS_BOOLEAN_CONSTANT_CONVERSION"
  name := "Needless boolean constant conversion"
  description := "Boolean constant converted between primitive and boxed form; " ++
    "use Boolean.TRUE/FALSE or true/false directly"
  priority := .normal

/-! ## Wrapper classes -/

/-- A class that wraps a primitive type. -/
structure Wrapper where
  className : String
  /-- The descriptor of the primitive type. -/
  primitive : String
  /-- The method that returns the primitive value. -/
  unboxName : String
  /-- The method that reads a primitive value from a string. -/
  parseName : Option String
  deriving DecidableEq, Repr

namespace Wrapper

def unboxDescriptor (wrapper : Wrapper) : String :=
  "()" ++ wrapper.primitive

def constructorDescriptor (wrapper : Wrapper) : String :=
  "(" ++ wrapper.primitive ++ ")V"

/-- The descriptor of the `valueOf` that boxes a primitive value. -/
def valueOfDescriptor (wrapper : Wrapper) : String :=
  "(" ++ wrapper.primitive ++ ")L" ++ wrapper.className ++ ";"

def parseDescriptor (wrapper : Wrapper) : String :=
  "(Ljava/lang/String;)" ++ wrapper.primitive

def boolean : Wrapper :=
  ⟨"java/lang/Boolean", "Z", "booleanValue", some "parseBoolean"⟩

def all : List Wrapper :=
  [ boolean
  , ⟨"java/lang/Character", "C", "charValue", none⟩
  , ⟨"java/lang/Byte", "B", "byteValue", some "parseByte"⟩
  , ⟨"java/lang/Short", "S", "shortValue", some "parseShort"⟩
  , ⟨"java/lang/Integer", "I", "intValue", some "parseInt"⟩
  , ⟨"java/lang/Long", "J", "longValue", some "parseLong"⟩
  , ⟨"java/lang/Float", "F", "floatValue", some "parseFloat"⟩
  , ⟨"java/lang/Double", "D", "doubleValue", some "parseDouble"⟩ ]

def ofClass? (className : String) : Option Wrapper :=
  all.find? (·.className == className)

end Wrapper

/-! ## State -/

/-- What the instruction before left on top of the stack. -/
inductive State
  | nothing
  /-- A primitive value that was taken out of the wrapper. -/
  | unboxed (wrapper : Wrapper)
  /-- A primitive value that was read from a string. -/
  | parsed (wrapper : Wrapper)
  /-- A wrapper around a primitive value. -/
  | boxed (wrapper : Wrapper)
  /-- A wrapper that was read from a string. -/
  | boxedString (wrapper : Wrapper)
  /-- The literal 0 or 1. -/
  | zeroOrOne
  /-- `Boolean.TRUE` or `Boolean.FALSE`. -/
  | booleanObject
  deriving DecidableEq, Repr

/-- What the instruction of a step does, seen without the instruction
before it. -/
def State.after (step : Step) : State :=
  let inst := step.instruction
  let wrapper? := (inst.call?.bind fun site => Wrapper.ofClass? site.owner)
  if step.opcode == .iconst0 || step.opcode == .iconst1 then
    zeroOrOne
  else if step.opcode == .getstatic then
    let isConstant := inst.field?.any fun ref =>
      ref.owner == Wrapper.boolean.className && (ref.name == "TRUE" || ref.name == "FALSE")
    if isConstant then booleanObject else nothing
  else
    match inst.call?, wrapper? with
    | some site, some wrapper =>
      if step.opcode == .invokevirtual then
        if site.name == wrapper.unboxName && site.descriptor == wrapper.unboxDescriptor then
          unboxed wrapper
        else
          nothing
      else if step.opcode == .invokespecial then
        if site.name == "<init>" && site.descriptor == wrapper.constructorDescriptor then
          boxed wrapper
        else
          nothing
      else if step.opcode == .invokestatic then
        if site.name == "valueOf" then
          if Text.startsWith site.descriptor "(Ljava/lang/String;)" then
            -- `Boolean.valueOf(String)` exists from version 49 on.
            if wrapper.className != Wrapper.boolean.className || 49 ≤ step.cls.majorVersion then
              boxedString wrapper
            else
              nothing
          else if Text.startsWith site.descriptor "(Ljava/lang/String;" then
            nothing
          else
            boxed wrapper
        else if wrapper.parseName == some site.name &&
            site.descriptor == wrapper.parseDescriptor then
          parsed wrapper
        else
          nothing
      else
        nothing
    | _, _ => nothing

/-! ## Transitions -/

/-- The instruction unboxes the wrapper into its own primitive type. -/
def unboxes (inst : Instruction) (wrapper : Wrapper) : Bool :=
  inst.isCallTo .invokevirtual wrapper.className wrapper.unboxName wrapper.unboxDescriptor

/-- The instruction takes a value of some primitive type out of the
wrapper. -/
def converts (inst : Instruction) (wrapper : Wrapper) : Bool :=
  inst.opcode == .invokevirtual && inst.call?.any fun site =>
    site.owner == wrapper.className && Text.startsWith site.descriptor "()" &&
      Text.endsWith site.name "Value"

/-- The instruction calls a method of the wrapper by name, whatever its
arguments are. -/
def callsByName (inst : Instruction) (opcode : Opcode) (wrapper : Wrapper) (name : String) :
    Bool :=
  inst.opcode == opcode && inst.call?.any fun site =>
    site.owner == wrapper.className && site.name == name

/-- The rule that the instruction breaks when it follows the given
state. -/
def State.rule? (state : State) (inst : Instruction) : Option Rule :=
  match state with
  | nothing => none
  | unboxed wrapper =>
    if inst.isCallTo .invokespecial wrapper.className "<init>"
        wrapper.constructorDescriptor then
      some unboxedToConstructor
    else if inst.isCallTo .invokestatic wrapper.className "valueOf"
        wrapper.valueOfDescriptor then
      some unboxedToValueOf
    else
      none
  | boxed wrapper =>
    if unboxes inst wrapper then some boxedToUnbox
    else if converts inst wrapper then some boxedToCast
    else none
  | boxedString wrapper =>
    if unboxes inst wrapper then some boxedStringToUnbox else none
  | parsed wrapper =>
    if callsByName inst .invokestatic wrapper "valueOf" then some parsedToValueOf
    else if callsByName inst .invokespecial wrapper "<init>" then some parsedToConstructor
    else none
  | zeroOrOne =>
    if inst.isCallTo .invokestatic Wrapper.boolean.className "valueOf"
        Wrapper.boolean.valueOfDescriptor then
      some booleanConversion
    else
      none
  | booleanObject =>
    if unboxes inst Wrapper.boolean then some booleanConversion else none

/-- The state after an instruction that follows the given state.  Only
an instruction that follows nothing or a boolean constant can begin a
pair of its own. -/
def State.advance (state : State) (step : Step) : State :=
  match state with
  | nothing | zeroOrOne | booleanObject => after step
  | _ => nothing

/-- The target of a jump that carries a value, seen where a pair may
begin. -/
def State.joinTarget? (state : State) (step : Step) : Option Nat :=
  match state with
  | nothing | zeroOrOne | booleanObject =>
    match step.instruction.operand with
    | .branch target => if step.opcode.isGoto && step.depth != 0 then some target else none
    | _ => none
  | _ => none

/-! ## The detector -/

structure Progress where
  state : State
  /-- Where jumps that carry a value go. -/
  joins : List Nat
  deriving DecidableEq, Repr

def visit (step : Step) : EStateM DetectorFault Progress (List Finding) := do
  let progress ← get
  if progress.joins.contains step.offset then
    set { state := .nothing, joins := progress.joins.filter (· != step.offset) : Progress }
    return []
  else
    set { state := progress.state.advance step
          joins := (progress.state.joinTarget? step).toList ++ progress.joins : Progress }
    return ((progress.state.rule? step.instruction).map (step.finding · none)).toList

def detector : Detector where
  id := "NAB"
  name := "Needless autoboxing"
  slug := "needless_autoboxing"
  rules :=
    [ unboxedToConstructor, unboxedToValueOf, boxedToUnbox, boxedToCast, boxedStringToUnbox
    , parsedToValueOf, parsedToConstructor, booleanConversion ]
  State := Progress
  accepts _ opcodes :=
    opcodes.containsAny [.invokevirtual, .invokestatic, .invokespecial]
  start _ := some { state := .nothing, joins := [] }
  enter _ _ := { state := .nothing, joins := [] }
  visit := visit

end BytecodeLint.Boxing
