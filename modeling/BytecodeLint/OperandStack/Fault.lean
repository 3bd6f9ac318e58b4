import BytecodeLint.Opcode
import BytecodeLint.Descriptor
import BytecodeLint.Hex

/-!
# Stack faults

The reasons for which a method cannot be followed any further, and their
texts.
-/

namespace BytecodeLint

/-- The kind of operand that an opcode needs. -/
inductive NeededOperand
  | callSite
  | dynamicCallSite
  | arrayDimensions
  | fieldReference
  deriving DecidableEq, Repr

def NeededOperand.name : NeededOperand → String
  | callSite => "call site"
  | dynamicCallSite => "dynamic call site"
  | arrayDimensions => "array dimensions"
  | fieldReference => "field reference"

/-- The stack and an instruction do not fit each other. -/
inductive StackFault
  /-- `needed` slots are taken from a stack of `depth` slots. -/
  | underflow (needed depth : Nat)
  | overflow (limit : Nat)
  /-- Two paths bring stacks of different depths to one offset. -/
  | depthMismatch (target incoming recorded : Nat)
  | badDescriptor (bad : BadDescriptor)
  | lacksOperand (opcode : Opcode) (offset : Nat) (needed : NeededOperand)
  | unsupportedOpcode (opcode : Opcode)
  deriving DecidableEq, Repr

def Opcode.hex (op : Opcode) : String :=
  "0x" ++ String.ofList (Hex.byte op)

def StackFault.message : StackFault → String
  | underflow needed depth =>
    "stack underflow: needed " ++ toString needed ++ " slots with depth " ++ toString depth
  | overflow limit => "stack overflow beyond max_stack " ++ toString limit
  | depthMismatch target incoming recorded =>
    "stack depth mismatch at offset " ++ toString target ++ ": incoming " ++
      toString incoming ++ ", recorded " ++ toString recorded
  | badDescriptor bad => "unusable descriptor: " ++ bad.message
  | lacksOperand opcode offset needed =>
    "unusable descriptor: opcode " ++ opcode.hex ++ " at offset " ++ toString offset ++
      " has no " ++ needed.name
  | unsupportedOpcode opcode => "unsupported opcode " ++ opcode.hex

end BytecodeLint
