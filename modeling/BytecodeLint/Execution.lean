import BytecodeLint.OperandStack
import BytecodeLint.Effect

/-!
# Executing an instruction on the symbolic stack

`Instruction.apply` changes the stack as the instruction does.  Constants,
locals, field reads and fresh allocations keep what is known about them
through the instructions that move values only.  All other values become
unknown.

A constructor call uses up an allocation.  Every slot that held the
object becomes unknown.
-/

namespace BytecodeLint

open OperandStack

/-- Pushes a value about which nothing is known, unless it takes no
slot. -/
def pushResult (slots : Nat) : StackM Unit :=
  if slots = 0 then pure () else pushValue .unknown slots

namespace Instruction

/-- The literal that a constant load pushes.  The operand comes first and
the opcode second. -/
def literal (inst : Instruction) : Constant :=
  (inst.constant?.or inst.opcode.heldConstant?).getD .other

/-- The slot that a load of a local variable pushes. -/
def loaded (inst : Instruction) : Slot :=
  match inst.local?.or inst.opcode.heldLocal? with
  | some index => .value (.localVar index)
  | none => .unknown

/-- The instruction calls a constructor. -/
def isConstructorCall (inst : Instruction) : Bool :=
  inst.call?.any fun site => site.kind == .special && site.name == "<init>"

/-- Changes the stack as the effect does, where `slots` counts what is
taken and put. -/
def perform (inst : Instruction) (slots : StackEffect) : Effect → StackM Unit
  | .pushConstant width => pushValue (.constant inst.literal) width
  | .loadLocal width => pushValue inst.loaded width
  | .dup copy under => OperandStack.dup copy under
  | .swap => OperandStack.swap
  | .getStatic =>
    match inst.field? with
    | some ref => pushValue (.value (.field ref true)) slots.pushes
    | none => throw (inst.lacks .fieldReference)
  | .getField =>
    match inst.field? with
    | some ref => do
      let object ← pop 1
      let receiver := (object.head?.map Slot.provenance).getD .unknown
      pushValue (.value (.fieldOf ref false receiver)) slots.pushes
    | none => throw (inst.lacks .fieldReference)
  | .invoke => do
    let popped ← pop slots.pops
    if inst.isConstructorCall then
      if let some offset := popped.getLast?.bind Slot.allocation? then
        replaceObject offset .unknown
    pushResult slots.pushes
  | .allocate => push (.fresh inst.offset)
  | .checkCast => requireDepth 1
  | .replace .. | .putStatic | .putField | .invokeDynamic | .allocateArrays => do
    let _ ← pop slots.pops
    pushResult slots.pushes

/-- Executes the instruction on the symbolic stack. -/
def apply (inst : Instruction) : StackM Unit := do
  let effect ← MonadExcept.ofExcept inst.effect
  let slots ← MonadExcept.ofExcept (inst.countSlots effect)
  inst.perform slots effect

end Instruction

end BytecodeLint
