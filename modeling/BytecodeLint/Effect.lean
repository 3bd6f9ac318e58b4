import BytecodeLint.Instruction
import BytecodeLint.OperandStack.Fault

/-!
# Stack effects

What an instruction does to the operand stack, as far as its opcode and
its operand tell.

There are four groups.

* `Effect` is the kind of effect that an opcode has.
* `effectTable` lists the kinds, and `Opcode.effect?` looks an opcode up
  in it.
* `Instruction.stackEffect` counts the slots that are taken and put.  It
  fails for an opcode without a meaning, and for an operand that is
  missing or unreadable.
* `Opcode.heldConstant?` is the literal that a short constant load
  holds in its opcode.

How an effect changes a symbolic stack is in `BytecodeLint.Execution`.
-/

namespace BytecodeLint

/-! ## Kinds of effects -/

/-- What an opcode does to the operand stack. -/
inductive Effect
  | pushConstant (slots : Nat)
  | loadLocal (slots : Nat)
  /-- Takes and puts values about which nothing is known. -/
  | replace (pops pushes : Nat)
  | dup (copy under : Nat)
  | swap
  | getStatic
  | getField
  | putStatic
  | putField
  | invoke
  | invokeDynamic
  | allocate
  | checkCast
  | allocateArrays
  deriving DecidableEq, Repr

namespace Effect

def nothing : Effect :=
  replace 0 0

def take (slots : Nat) : Effect :=
  replace slots 0

end Effect

/-! ## The table -/

/-- The effects of a range of opcodes.  They repeat in a cycle, because
the opcodes of one operation stand in the order of the types. -/
structure EffectRow where
  first : Opcode
  last : Opcode
  cycle : List Effect

namespace EffectRow

def covers (row : EffectRow) (op : Opcode) : Bool :=
  op.within row.first row.last

def effect? (row : EffectRow) (op : Opcode) : Option Effect :=
  row.cycle[(op.toNat - row.first.toNat) % row.cycle.length]?

end EffectRow

open Effect in
/-- The effects of the defined opcodes.  The `wide` marker `0xc4` has
none, since it is a part of the instruction that follows it. -/
def effectTable : List EffectRow :=
  [ ⟨0x00, 0x00, [nothing]⟩
  -- Constants.
  , ⟨0x01, 0x08, [pushConstant 1]⟩
  , ⟨0x09, 0x0a, [pushConstant 2]⟩
  , ⟨0x0b, 0x0d, [pushConstant 1]⟩
  , ⟨0x0e, 0x0f, [pushConstant 2]⟩
  , ⟨0x10, 0x13, [pushConstant 1]⟩
  , ⟨0x14, 0x14, [pushConstant 2]⟩
  -- Loads, of `int`, `long`, `float`, `double` and references.
  , ⟨0x15, 0x19, [loadLocal 1, loadLocal 2]⟩
  , ⟨0x1a, 0x1d, [loadLocal 1]⟩
  , ⟨0x1e, 0x21, [loadLocal 2]⟩
  , ⟨0x22, 0x25, [loadLocal 1]⟩
  , ⟨0x26, 0x29, [loadLocal 2]⟩
  , ⟨0x2a, 0x2d, [loadLocal 1]⟩
  , ⟨0x2e, 0x31, [replace 2 1, replace 2 2]⟩
  , ⟨0x32, 0x35, [replace 2 1]⟩
  -- Stores, in the same order.
  , ⟨0x36, 0x3a, [take 1, take 2]⟩
  , ⟨0x3b, 0x3e, [take 1]⟩
  , ⟨0x3f, 0x42, [take 2]⟩
  , ⟨0x43, 0x46, [take 1]⟩
  , ⟨0x47, 0x4a, [take 2]⟩
  , ⟨0x4b, 0x4e, [take 1]⟩
  , ⟨0x4f, 0x52, [take 3, take 4]⟩
  , ⟨0x53, 0x56, [take 3]⟩
  -- The stack itself.
  , ⟨0x57, 0x58, [take 1, take 2]⟩
  , ⟨0x59, 0x5e, [dup 1 0, dup 1 1, dup 1 2, dup 2 0, dup 2 1, dup 2 2]⟩
  , ⟨0x5f, 0x5f, [swap]⟩
  -- Arithmetic.  A shift takes an `int` besides the shifted value.
  , ⟨0x60, 0x73, [replace 2 1, replace 4 2]⟩
  , ⟨0x74, 0x77, [replace 1 1, replace 2 2]⟩
  , ⟨0x78, 0x7d, [replace 2 1, replace 3 2]⟩
  , ⟨0x7e, 0x83, [replace 2 1, replace 4 2]⟩
  , ⟨0x84, 0x84, [nothing]⟩
  -- Conversions, from `int`, `long`, `float` and `double`.
  , ⟨0x85, 0x87, [replace 1 2, replace 1 1]⟩
  , ⟨0x88, 0x8a, [replace 2 1, replace 2 1, replace 2 2]⟩
  , ⟨0x8b, 0x8d, [replace 1 1, replace 1 2, replace 1 2]⟩
  , ⟨0x8e, 0x90, [replace 2 1, replace 2 2]⟩
  , ⟨0x91, 0x93, [replace 1 1]⟩
  -- Comparisons and jumps.
  , ⟨0x94, 0x94, [replace 4 1]⟩
  , ⟨0x95, 0x96, [replace 2 1]⟩
  , ⟨0x97, 0x98, [replace 4 1]⟩
  , ⟨0x99, 0x9e, [take 1]⟩
  , ⟨0x9f, 0xa6, [take 2]⟩
  , ⟨0xa7, 0xa7, [nothing]⟩
  , ⟨0xa8, 0xa8, [replace 0 1]⟩
  , ⟨0xa9, 0xa9, [nothing]⟩
  , ⟨0xaa, 0xab, [take 1]⟩
  , ⟨0xac, 0xb0, [take 1, take 2]⟩
  , ⟨0xb1, 0xb1, [nothing]⟩
  -- Members, objects and monitors.
  , ⟨0xb2, 0xb5, [getStatic, putStatic, getField, putField]⟩
  , ⟨0xb6, 0xb9, [invoke]⟩
  , ⟨0xba, 0xba, [invokeDynamic]⟩
  , ⟨0xbb, 0xbb, [allocate]⟩
  , ⟨0xbc, 0xbe, [replace 1 1]⟩
  , ⟨0xbf, 0xbf, [take 1]⟩
  , ⟨0xc0, 0xc0, [checkCast]⟩
  , ⟨0xc1, 0xc1, [replace 1 1]⟩
  , ⟨0xc2, 0xc3, [take 1]⟩
  , ⟨0xc5, 0xc5, [allocateArrays]⟩
  , ⟨0xc6, 0xc7, [take 1]⟩
  , ⟨0xc8, 0xc8, [nothing]⟩
  , ⟨0xc9, 0xc9, [replace 0 1]⟩ ]

/-- The effect of an opcode.  An opcode without a meaning has none. -/
def Opcode.effect? (op : Opcode) : Option Effect :=
  (effectTable.find? (·.covers op)).bind (·.effect? op)

/-! ## Counting slots -/

/-- The slots that an instruction takes and the slots that it puts. -/
structure StackEffect where
  pops : Nat
  pushes : Nat
  deriving DecidableEq, Repr

namespace Instruction

/-- The fault of an instruction that lacks the operand it needs. -/
def lacks (inst : Instruction) (needed : NeededOperand) : StackFault :=
  .lacksOperand inst.opcode inst.offset needed

/-- The slots of the field that the instruction names. -/
def accessedSlots (inst : Instruction) : Except StackFault Nat :=
  match inst.field? with
  | some ref => .ok (fieldSlots ref.descriptor)
  | none => .error (inst.lacks .fieldReference)

/-- The slots of a call with the given descriptor, where the receiver
takes `receiver` slots. -/
def callEffect (descriptor : String) (receiver : Nat) : Except StackFault StackEffect :=
  match callSlots descriptor with
  | .ok slots => .ok ⟨slots.params + receiver, slots.result⟩
  | .error bad => .error (.badDescriptor bad)

/-- The slots that an effect takes and puts, with the operand of the
instruction. -/
def countSlots (inst : Instruction) : Effect → Except StackFault StackEffect
  | .pushConstant slots | .loadLocal slots => .ok ⟨0, slots⟩
  | .replace pops pushes => .ok ⟨pops, pushes⟩
  | .dup copy under => .ok ⟨copy + under, copy * 2 + under⟩
  | .swap => .ok ⟨2, 2⟩
  | .getStatic => return ⟨0, ← inst.accessedSlots⟩
  | .getField => return ⟨1, ← inst.accessedSlots⟩
  | .putStatic => return ⟨← inst.accessedSlots, 0⟩
  | .putField => return ⟨1 + (← inst.accessedSlots), 0⟩
  | .invoke =>
    match inst.operand with
    | .call site => callEffect site.descriptor (if site.kind.hasReceiver then 1 else 0)
    | _ => .error (inst.lacks .callSite)
  | .invokeDynamic =>
    match inst.operand with
    | .dynamicCall _ descriptor => callEffect descriptor 0
    | _ => .error (inst.lacks .dynamicCallSite)
  | .allocate => .ok ⟨0, 1⟩
  | .checkCast => .ok ⟨1, 1⟩
  | .allocateArrays =>
    match inst.operand with
    | .arrays _ dimensions => .ok ⟨dimensions, 1⟩
    | _ => .error (inst.lacks .arrayDimensions)

/-- The effect of the instruction, or the fault of an opcode without a
meaning. -/
def effect (inst : Instruction) : Except StackFault Effect :=
  match inst.opcode.effect? with
  | some effect => .ok effect
  | none => .error (.unsupportedOpcode inst.opcode)

/-- The slots that the instruction takes and puts. -/
def stackEffect (inst : Instruction) : Except StackFault StackEffect := do
  inst.countSlots (← inst.effect)

end Instruction

/-! ## Constants held by the opcode -/

/-- The literal that a short constant load pushes. -/
def Opcode.heldConstant? (op : Opcode) : Option Constant :=
  if op == 0x01 then
    some .null
  else if op.within 0x02 0x08 then
    some (.int (Int32.ofInt (Int.ofNat op.toNat - 3)))
  else if op.within 0x09 0x0a then
    some (.long (Int64.ofInt (Int.ofNat op.toNat - 9)))
  else if op.within 0x0b 0x0d then
    -- 0.0, 1.0 and 2.0.
    some (.float (if op == 0x0b then 0 else if op == 0x0c then 0x3f800000 else 0x40000000))
  else if op.within 0x0e 0x0f then
    -- 0.0 and 1.0.
    some (.double (if op == 0x0e then 0 else 0x3ff0000000000000))
  else
    none

end BytecodeLint
