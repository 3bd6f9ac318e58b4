/-!
# Opcodes

An opcode is the byte that selects an instruction.  This module names the
opcodes that some rule singles out and gives the classes of opcodes that
control flow and local variables depend on.  What an opcode does to the
operand stack is in `BytecodeLint.Effect`, and how its operands are laid
out in the code is in `BytecodeLint.Bytecode.Format`.

There are three groups.

* The named opcodes.
* The classes.  `fallsThrough` is the one that the walk over a method
  uses: it says whether control can continue with the next instruction.
* The opcodes that hold their own local variable index.
-/

namespace BytecodeLint

/-- The byte that selects an instruction.  Every byte is an opcode; some
of them have no meaning. -/
abbrev Opcode := UInt8

namespace Opcode

/-! ## The named opcodes -/

abbrev iconst0 : Opcode := 0x03
abbrev iconst1 : Opcode := 0x04
abbrev bipush : Opcode := 0x10
abbrev sipush : Opcode := 0x11
abbrev ldc : Opcode := 0x12
abbrev ldcW : Opcode := 0x13
abbrev ldc2W : Opcode := 0x14
abbrev aload : Opcode := 0x19
abbrev pop : Opcode := 0x57
abbrev iinc : Opcode := 0x84
abbrev goto : Opcode := 0xa7
abbrev jsr : Opcode := 0xa8
abbrev ret : Opcode := 0xa9
abbrev tableswitch : Opcode := 0xaa
abbrev lookupswitch : Opcode := 0xab
abbrev ireturn : Opcode := 0xac
abbrev voidReturn : Opcode := 0xb1
abbrev getstatic : Opcode := 0xb2
abbrev putstatic : Opcode := 0xb3
abbrev getfield : Opcode := 0xb4
abbrev putfield : Opcode := 0xb5
abbrev invokevirtual : Opcode := 0xb6
abbrev invokespecial : Opcode := 0xb7
abbrev invokestatic : Opcode := 0xb8
abbrev invokeinterface : Opcode := 0xb9
abbrev invokedynamic : Opcode := 0xba
abbrev new : Opcode := 0xbb
abbrev newarray : Opcode := 0xbc
abbrev anewarray : Opcode := 0xbd
abbrev athrow : Opcode := 0xbf
abbrev checkcast : Opcode := 0xc0
abbrev instanceof : Opcode := 0xc1
abbrev wide : Opcode := 0xc4
abbrev multianewarray : Opcode := 0xc5
abbrev ifnull : Opcode := 0xc6
abbrev ifnonnull : Opcode := 0xc7
abbrev gotoW : Opcode := 0xc8
abbrev jsrW : Opcode := 0xc9

/-! ## Classes of opcodes -/

/-- The opcode lies in the closed range from `first` to `last`. -/
def within (op first last : Opcode) : Bool :=
  first ≤ op && op ≤ last

/-- A load of a reference from a local variable: `aload` and its four
short forms. -/
def isAload (op : Opcode) : Bool :=
  op == aload || op.within 0x2a 0x2d

def isGoto (op : Opcode) : Bool :=
  op == goto || op == gotoW

def isSwitch (op : Opcode) : Bool :=
  op == tableswitch || op == lookupswitch

/-- A return from the method, with or without a value. -/
def isReturn (op : Opcode) : Bool :=
  op.within ireturn voidReturn

/-- Control can continue with the next instruction in the code. -/
def fallsThrough (op : Opcode) : Bool :=
  !(op.isGoto || op.isSwitch || op.isReturn || op == athrow || op == ret || op == jsr ||
    op == jsrW)

/-! ## Local variables held by the opcode -/

/-- The local variable that the short loads and stores hold in the opcode
itself.  Each family has four of them, for the variables 0 to 3. -/
def heldLocal? (op : Opcode) : Option Nat :=
  if op.within 0x1a 0x2d then
    some ((op.toNat - 0x1a) % 4)
  else if op.within 0x3b 0x4e then
    some ((op.toNat - 0x3b) % 4)
  else
    none

end Opcode

end BytecodeLint
