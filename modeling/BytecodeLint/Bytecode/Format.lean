import BytecodeLint.Instruction
import BytecodeLint.OperandStack.Fault
import BytecodeLint.ConstantPool
import BytecodeLint.Bytes

/-!
# The layout of instructions in code

Code is a list of bytes.  An instruction starts with its opcode, and the
format of the opcode tells how its operands are laid out behind it.

There are four groups.

* `CodeFault` lists the reasons for which code is refused.
* Numbers in code.  They are big-endian.
* `Format` is the layout of an operand, and `Opcode.format?` gives the
  format of an opcode.
* `instructionLength` is the number of bytes of an instruction.  All but
  the switches and the `wide` instructions have a fixed length.
-/

namespace BytecodeLint

/-! ## Faults -/

/-- What an operand refers to in the constant pool. -/
inductive PoolUse
  | method
  | dynamicCall
  | field
  | type
  | arrayType
  | constant
  deriving DecidableEq, Repr

/-- The words that a message puts before the fault of the reference. -/
def PoolUse.context : PoolUse → String
  | method => "resolve method ref: "
  | dynamicCall => "resolve invokedynamic: "
  | field => "resolve field ref: "
  | type => "resolve type operand: "
  | arrayType => "resolve array type: "
  | constant => ""

/-- Why code is refused. -/
inductive CodeFault
  /-- The code ends within a number of `width` bytes. -/
  | truncated (width : Nat)
  | missingWideOpcode
  | unsupportedOpcode (opcode : Opcode)
  | badTableRange
  | badPairCount
  /-- The code ends within the instruction at `offset`. -/
  | badLength (offset : Nat)
  | targetOutOfRange (target : Int)
  | unresolved (use : PoolUse) (fault : PoolFault)
  deriving DecidableEq, Repr

def CodeFault.message : CodeFault → String
  | truncated width => "bytecode u" ++ toString (8 * width) ++ " out of bounds"
  | missingWideOpcode => "missing wide opcode"
  | unsupportedOpcode opcode => "unsupported opcode " ++ opcode.hex
  | badTableRange => "invalid tableswitch range"
  | badPairCount => "invalid lookupswitch pairs"
  | badLength offset => "invalid bytecode length at offset " ++ toString offset
  | targetOutOfRange target =>
    "branch target " ++ toString target ++ " out of range: number too " ++
      (if target < 0 then "small" else "large") ++ " to fit in target type"
  | unresolved use fault => use.context ++ fault.message

namespace Bytecode

/-! ## Numbers in code -/

/-- The unsigned number of `width` bytes that stands `skip` bytes behind
the start of the code. -/
def readUnsigned (width skip : Nat) (code : List UInt8) : Except CodeFault Nat :=
  let field := (code.drop skip).take width
  if field.length = width then .ok (bigEndian field) else .error (.truncated width)

/-- The signed number, in two's complement. -/
def readSigned (width skip : Nat) (code : List UInt8) : Except CodeFault Int := do
  return Int.bmod (← readUnsigned width skip code) (1 <<< (8 * width))

/-! ## Formats -/

/-- The layout of the operands of an instruction. -/
inductive Format
  /-- No operand bytes. -/
  | bare
  /-- A signed number of one byte. -/
  | byteValue
  /-- A signed number of two bytes. -/
  | shortValue
  /-- A literal, by an index of one byte. -/
  | shortConstant
  /-- A literal, by an index of two bytes. -/
  | constant
  | localVar
  /-- A local variable and a number to add to it. -/
  | increment
  /-- A jump by a signed distance of two bytes. -/
  | jump
  /-- A jump by a signed distance of four bytes. -/
  | longJump
  | tableSwitch
  | lookupSwitch
  | field
  /-- A method, and `padding` more bytes. -/
  | call (kind : CallKind) (padding : Nat)
  | dynamicCall
  | type
  /-- The element type of an array, as a number. -/
  | primitive
  /-- An array class and a number of dimensions. -/
  | arrays
  /-- Another instruction follows, whose local variable takes two
  bytes. -/
  | wide
  deriving DecidableEq, Repr

/-- The format of a range of opcodes. -/
structure FormatRow where
  first : Opcode
  last : Opcode
  format : Format

def FormatRow.covers (row : FormatRow) (op : Opcode) : Bool :=
  op.within row.first row.last

/-- The formats of the opcodes that may stand in code.  The last two rows
are reserved opcodes, which have no effect that could be followed. -/
def formatTable : List FormatRow :=
  [ ⟨0x00, 0x0f, .bare⟩
  , ⟨0x10, 0x10, .byteValue⟩
  , ⟨0x11, 0x11, .shortValue⟩
  , ⟨0x12, 0x12, .shortConstant⟩
  , ⟨0x13, 0x14, .constant⟩
  , ⟨0x15, 0x19, .localVar⟩
  , ⟨0x1a, 0x35, .bare⟩
  , ⟨0x36, 0x3a, .localVar⟩
  , ⟨0x3b, 0x83, .bare⟩
  , ⟨0x84, 0x84, .increment⟩
  , ⟨0x85, 0x98, .bare⟩
  , ⟨0x99, 0xa8, .jump⟩
  , ⟨0xa9, 0xa9, .localVar⟩
  , ⟨0xaa, 0xaa, .tableSwitch⟩
  , ⟨0xab, 0xab, .lookupSwitch⟩
  , ⟨0xac, 0xb1, .bare⟩
  , ⟨0xb2, 0xb5, .field⟩
  , ⟨0xb6, 0xb6, .call .virtual 0⟩
  , ⟨0xb7, 0xb7, .call .special 0⟩
  , ⟨0xb8, 0xb8, .call .static 0⟩
  , ⟨0xb9, 0xb9, .call .interface 2⟩
  , ⟨0xba, 0xba, .dynamicCall⟩
  , ⟨0xbb, 0xbb, .type⟩
  , ⟨0xbc, 0xbc, .primitive⟩
  , ⟨0xbd, 0xbd, .type⟩
  , ⟨0xbe, 0xbf, .bare⟩
  , ⟨0xc0, 0xc1, .type⟩
  , ⟨0xc2, 0xc3, .bare⟩
  , ⟨0xc4, 0xc4, .wide⟩
  , ⟨0xc5, 0xc5, .arrays⟩
  , ⟨0xc6, 0xc7, .jump⟩
  , ⟨0xc8, 0xc9, .longJump⟩
  , ⟨0xca, 0xca, .bare⟩
  , ⟨0xfe, 0xff, .bare⟩ ]

end Bytecode

open Bytecode in
def Opcode.format? (op : Opcode) : Option Format :=
  (formatTable.find? (·.covers op)).map (·.format)

namespace Bytecode

/-! ## Lengths -/

/-- The bytes between a switch opcode at `offset` and its operands, which
start at a multiple of four. -/
def padding (offset : Nat) : Nat :=
  (4 - (offset + 1) % 4) % 4

/-- Where the operands of a switch at `offset` start, counted from its
opcode. -/
def switchBase (offset : Nat) : Nat :=
  1 + padding offset

/-- The number of targets of a table switch, whose operands start `skip`
bytes behind the start of the code.  It has to be a number of 31 bits. -/
def tableCount (skip : Nat) (code : List UInt8) : Except CodeFault Nat := do
  let low ← readSigned 4 (skip + 4) code
  let high ← readSigned 4 (skip + 8) code
  let count := high - low + 1
  if 0 ≤ count ∧ count < 0x80000000 then .ok count.toNat else .error .badTableRange

/-- The number of pairs of a lookup switch. -/
def pairCount (skip : Nat) (code : List UInt8) : Except CodeFault Nat := do
  let count ← readSigned 4 (skip + 4) code
  if 0 ≤ count then .ok count.toNat else .error .badPairCount

/-- The length of an instruction of the given format at `offset`, where
`code` starts with the instruction. -/
def Format.length (offset : Nat) (code : List UInt8) : Format → Except CodeFault Nat
  | bare => .ok 1
  | byteValue | shortConstant | localVar | primitive => .ok 2
  | shortValue | constant | increment | jump | field | type => .ok 3
  | arrays => .ok 4
  | longJump | dynamicCall => .ok 5
  | call _ padding => .ok (3 + padding)
  | tableSwitch => do
    let base := switchBase offset
    return base + 12 + (← tableCount base code) * 4
  | lookupSwitch => do
    let base := switchBase offset
    return base + 8 + (← pairCount base code) * 8
  | wide =>
    match code[1]? with
    | none => .error .missingWideOpcode
    | some op => .ok (if op = Opcode.iinc then 6 else 4)

/-- The length of the instruction at `offset`, where `code` starts with
the instruction. -/
def instructionLength (offset : Nat) (code : List UInt8) : Except CodeFault Nat :=
  match code with
  | [] => .error (.badLength offset)
  | op :: _ =>
    match Opcode.format? op with
    | some format => format.length offset code
    | none => .error (.unsupportedOpcode op)

end Bytecode

end BytecodeLint
