import BytecodeLint.ConstantPool
import BytecodeLint.Instruction
import Mathlib.Algebra.Group.Int.Defs

/-!
# Assembling code

The inverse of decoding, as the class file format describes it.  An
instruction is written as its opcode with its operands behind it, and this
module says which bytes these are.  It knows nothing of how code is
decoded: lengths come from the bytes that are written, the opcodes of each
layout are listed here, and references are followed through the constant
pool entry by entry.

There are five groups.

* Numbers as bytes, without a sign and in two's complement.
* `RawInstruction` is an instruction as it stands in code, with indices
  instead of names.  The bytes that no instruction of a method keeps are in
  it too.
* `RawInstruction.WellFormedAt` and the opcodes of each layout.
* `RawInstruction.encode` and `assemble`.
* `RawInstruction.Denotes` gives the operand that the indices stand for, and
  `Laid` relates a list of raw instructions to the instructions of a method.
-/

namespace BytecodeLint.Bytecode

/-! ## Numbers -/

/-- The lowest bytes of a number, the most significant one first. -/
def spell : Nat → Nat → List UInt8
  | 0, _ => []
  | width + 1, value => spell width (value / 256) ++ [UInt8.ofNat value]

/-- A number in two's complement. -/
def spellSigned (width : Nat) (value : Int) : List UInt8 :=
  spell width (value % 256 ^ width).toNat

/-- The number can be written in two's complement with `width` bytes. -/
def Fits (width : Nat) (value : Int) : Prop :=
  -256 ^ width ≤ 2 * value ∧ 2 * value < 256 ^ width

instance (width : Nat) (value : Int) : Decidable (Fits width value) :=
  inferInstanceAs (Decidable (_ ∧ _))

/-! ## Raw instructions -/

/-- An instruction as it stands in code.  Targets of jumps are offsets in
the code of the method. -/
inductive RawInstruction
  /-- An opcode alone. -/
  | plain (op : Opcode)
  /-- An opcode that pushes a literal. -/
  | literal (op : Opcode) (value : Constant)
  /-- A load that names one of the variables 0 to 3 in its opcode, for the
  types `int`, `long`, `float`, `double` and references. -/
  | shortLoad (family : Fin 5) (index : Fin 4)
  | shortStore (family : Fin 5) (index : Fin 4)
  | bytePush (value : Int8)
  | shortPush (value : Int16)
  | loadConstant (index : UInt8)
  | loadConstantWide (op : Opcode) (index : UInt16)
  | localVar (op : Opcode) (index : UInt8)
  | wideLocalVar (op : Opcode) (index : UInt16)
  | increment (index amount : UInt8)
  | wideIncrement (index amount : UInt16)
  | jump (op : Opcode) (target : UInt32)
  | longJump (op : Opcode) (target : UInt32)
  /-- The targets are those of the keys from `low` on. -/
  | tableSwitch (padding : List UInt8) (default : UInt32) (low : Int32) (targets : List UInt32)
  /-- The pairs are keys and targets. -/
  | lookupSwitch (padding : List UInt8) (default : UInt32) (pairs : List (UInt32 × UInt32))
  | field (op : Opcode) (index : UInt16)
  | call (kind : CallKind) (index : UInt16)
  /-- A call with two bytes that say what the descriptor says too. -/
  | interfaceCall (index : UInt16) (first second : UInt8)
  | dynamicCall (index : UInt16) (first second : UInt8)
  | type (op : Opcode) (index : UInt16)
  | primitiveArray (element : UInt8)
  | arrays (index : UInt16) (dimensions : UInt8)

/-! ## The opcodes of each layout -/

def opcodeRange (first last : Nat) : List Opcode :=
  (List.range' first (last + 1 - first)).map UInt8.ofNat

/-- The opcodes that stand alone and hold nothing.  The last three are
reserved for debuggers. -/
def plainOpcodes : List Opcode :=
  0x00 :: opcodeRange 0x2e 0x35 ++ opcodeRange 0x4f 0x83 ++ opcodeRange 0x85 0x98 ++
    opcodeRange 0xac 0xb1 ++ [0xbe, 0xbf, 0xc2, 0xc3, 0xca, 0xfe, 0xff]

/-- The opcodes that push a literal, with the literal. -/
def heldLiterals : List (Opcode × Constant) :=
  [ (0x01, .null)
  , (0x02, .int (-1)), (0x03, .int 0), (0x04, .int 1), (0x05, .int 2), (0x06, .int 3)
  , (0x07, .int 4), (0x08, .int 5)
  , (0x09, .long 0), (0x0a, .long 1)
  , (0x0b, .float 0), (0x0c, .float 0x3f800000), (0x0d, .float 0x40000000)
  , (0x0e, .double 0), (0x0f, .double 0x3ff0000000000000) ]

/-- Loads and stores of local variables, and `ret`. -/
def localOpcodes : List Opcode :=
  opcodeRange 0x15 0x19 ++ opcodeRange 0x36 0x3a ++ [.ret]

/-- The jumps whose distance takes two bytes. -/
def jumpOpcodes : List Opcode :=
  opcodeRange 0x99 0xa6 ++ [.goto, .jsr, .ifnull, .ifnonnull]

def callOpcode : CallKind → Opcode
  | .virtual => .invokevirtual
  | .special => .invokespecial
  | .static => .invokestatic
  | .interface => .invokeinterface

namespace RawInstruction

/-- The opcode of the instruction.  The marker of a wide instruction is not
its opcode. -/
def opcode : RawInstruction → Opcode
  | plain op | literal op _ | loadConstantWide op _ | localVar op _ | wideLocalVar op _
  | jump op _ | longJump op _ | field op _ | type op _ => op
  | shortLoad family index => UInt8.ofNat (0x1a + 4 * family + index)
  | shortStore family index => UInt8.ofNat (0x3b + 4 * family + index)
  | bytePush _ => .bipush
  | shortPush _ => .sipush
  | loadConstant _ => .ldc
  | increment .. | wideIncrement .. => .iinc
  | tableSwitch .. => .tableswitch
  | lookupSwitch .. => .lookupswitch
  | call kind _ => callOpcode kind
  | interfaceCall .. => .invokeinterface
  | dynamicCall .. => .invokedynamic
  | primitiveArray _ => .newarray
  | arrays .. => .multianewarray

/-! ## Well-formed instructions -/

/-- The distance of a jump from `offset`. -/
def distance (offset : Nat) (target : UInt32) : Int :=
  target.toNat - offset

/-- The padding of a switch at `offset` takes its operands to a multiple of
four. -/
def Aligned (offset : Nat) (padding : List UInt8) : Prop :=
  padding.length ≤ 3 ∧ (offset + 1 + padding.length) % 4 = 0

/-- The highest key of a table switch. -/
def highKey (low : Int32) (targets : List UInt32) : Int :=
  low.toInt + targets.length - 1

/-- The instruction may stand at `offset`: its opcode has the layout, and
all of its numbers fit. -/
def WellFormedAt (offset : Nat) : RawInstruction → Prop
  | plain op => op ∈ plainOpcodes
  | literal op value => (op, value) ∈ heldLiterals
  | loadConstantWide op _ => op ∈ [Opcode.ldcW, Opcode.ldc2W]
  | localVar op _ | wideLocalVar op _ => op ∈ localOpcodes
  | jump op target => op ∈ jumpOpcodes ∧ Fits 2 (distance offset target)
  | longJump op target => op ∈ [Opcode.gotoW, Opcode.jsrW] ∧ Fits 4 (distance offset target)
  | tableSwitch padding default low targets =>
    Aligned offset padding ∧ Fits 4 (distance offset default) ∧ Fits 4 (highKey low targets) ∧
      Fits 4 targets.length ∧ ∀ target ∈ targets, Fits 4 (distance offset target)
  | lookupSwitch padding default pairs =>
    Aligned offset padding ∧ Fits 4 (distance offset default) ∧
      Fits 4 pairs.length ∧ ∀ pair ∈ pairs, Fits 4 (distance offset pair.2)
  | field op _ => op ∈ [Opcode.getstatic, Opcode.putstatic, Opcode.getfield, Opcode.putfield]
  | call kind _ => kind ≠ .interface
  | type op _ => op ∈ [Opcode.new, Opcode.anewarray, Opcode.checkcast, Opcode.instanceof]
  | shortLoad .. | shortStore .. | bytePush _ | shortPush _ | loadConstant _ | increment ..
  | wideIncrement .. | interfaceCall .. | dynamicCall .. | primitiveArray _ | arrays .. => True

/-! ## Bytes -/

/-- The bytes of the instruction at `offset`. -/
def encode (offset : Nat) : RawInstruction → List UInt8
  | plain op => [op]
  | literal op _ => [op]
  | shortLoad family index => [UInt8.ofNat (0x1a + 4 * family + index)]
  | shortStore family index => [UInt8.ofNat (0x3b + 4 * family + index)]
  | bytePush value => Opcode.bipush :: spellSigned 1 value.toInt
  | shortPush value => Opcode.sipush :: spellSigned 2 value.toInt
  | loadConstant index => [Opcode.ldc, index]
  | loadConstantWide op index => op :: spell 2 index.toNat
  | localVar op index => [op, index]
  | wideLocalVar op index => Opcode.wide :: op :: spell 2 index.toNat
  | increment index amount => [Opcode.iinc, index, amount]
  | wideIncrement index amount =>
    Opcode.wide :: Opcode.iinc :: spell 2 index.toNat ++ spell 2 amount.toNat
  | jump op target => op :: spellSigned 2 (distance offset target)
  | longJump op target => op :: spellSigned 4 (distance offset target)
  | tableSwitch padding default low targets =>
    Opcode.tableswitch :: padding ++ spellSigned 4 (distance offset default) ++
      spellSigned 4 low.toInt ++ spellSigned 4 (highKey low targets) ++
      targets.flatMap fun target => spellSigned 4 (distance offset target)
  | lookupSwitch padding default pairs =>
    Opcode.lookupswitch :: padding ++ spellSigned 4 (distance offset default) ++
      spellSigned 4 pairs.length ++
      pairs.flatMap fun (key, target) => spell 4 key.toNat ++ spellSigned 4 (distance offset target)
  | field op index => op :: spell 2 index.toNat
  | call kind index => callOpcode kind :: spell 2 index.toNat
  | interfaceCall index first second =>
    Opcode.invokeinterface :: spell 2 index.toNat ++ [first, second]
  | dynamicCall index first second =>
    Opcode.invokedynamic :: spell 2 index.toNat ++ [first, second]
  | type op index => op :: spell 2 index.toNat
  | primitiveArray element => [Opcode.newarray, element]
  | arrays index dimensions => Opcode.multianewarray :: spell 2 index.toNat ++ [dimensions]

end RawInstruction

/-- The code of the instructions one after another, from `offset` on. -/
def assemble (offset : Nat) : List RawInstruction → List UInt8
  | [] => []
  | raw :: rest => raw.encode offset ++ assemble (offset + (raw.encode offset).length) rest

end BytecodeLint.Bytecode

/-! ## References -/

namespace BytecodeLint.ConstantPool

def Spells (pool : ConstantPool) (index : Nat) (text : String) : Prop :=
  pool[index]? = some (.utf8 text)

def NamesClass (pool : ConstantPool) (index : Nat) (name : String) : Prop :=
  ∃ text, pool[index]? = some (.type text) ∧ pool.Spells text name

def NamesAndTypes (pool : ConstantPool) (index : Nat) (name descriptor : String) : Prop :=
  ∃ first second, pool[index]? = some (.nameAndType first second) ∧
    pool.Spells first name ∧ pool.Spells second descriptor

/-- The entry is a field or a method of a class. -/
def NamesMember (pool : ConstantPool) (index : Nat) (member : Member) : Prop :=
  ∃ owner nameAndType,
    pool[index]? ∈ [some (PoolEntry.field owner nameAndType), some (.method owner nameAndType),
      some (.interfaceMethod owner nameAndType)] ∧
    pool.NamesClass owner member.owner ∧
    pool.NamesAndTypes nameAndType member.name member.descriptor

def NamesDynamicCall (pool : ConstantPool) (index : Nat) (name descriptor : String) : Prop :=
  ∃ bootstrap nameAndType, pool[index]? = some (.dynamicCall bootstrap nameAndType) ∧
    pool.NamesAndTypes nameAndType name descriptor

/-- The literal that a constant load of the entry pushes. -/
inductive Holds (pool : ConstantPool) (index : Nat) : Constant → Prop
  | string {text value} (entry : pool[index]? = some (.string text))
      (spelled : pool.Spells text value) : Holds pool index (.string value)
  | type {text name} (entry : pool[index]? = some (.type text))
      (spelled : pool.Spells text name) : Holds pool index (.type name)
  | int {value} (entry : pool[index]? = some (.int value)) : Holds pool index (.int value)
  | float {bits} (entry : pool[index]? = some (.float bits)) : Holds pool index (.float bits)
  | long {value} (entry : pool[index]? = some (.long value)) : Holds pool index (.long value)
  | double {bits} (entry : pool[index]? = some (.double bits)) : Holds pool index (.double bits)
  /-- What is computed when it is loaded. -/
  | methodHandle {kind reference} (entry : pool[index]? = some (.methodHandle kind reference)) :
      Holds pool index .other
  | methodType {descriptor} (entry : pool[index]? = some (.methodType descriptor)) :
      Holds pool index .other
  | dynamic {bootstrap nameAndType}
      (entry : pool[index]? = some (.dynamic bootstrap nameAndType)) : Holds pool index .other

end BytecodeLint.ConstantPool

namespace BytecodeLint.Bytecode

namespace RawInstruction

/-- The operand that the instruction has once its references are
followed. -/
def Denotes (pool : ConstantPool) (operand : Operand) : RawInstruction → Prop
  | plain _ | primitiveArray _ => operand = .none
  | literal _ value => operand = .constant value
  | shortLoad _ index | shortStore _ index => operand = .localVar index
  | bytePush value => operand = .constant (.int (.ofInt value.toInt))
  | shortPush value => operand = .constant (.int (.ofInt value.toInt))
  | loadConstant index =>
    ∃ literal, pool.Holds index.toNat literal ∧ operand = .constant literal
  | loadConstantWide _ index =>
    ∃ literal, pool.Holds index.toNat literal ∧ operand = .constant literal
  | localVar _ index | increment index _ => operand = .localVar index.toNat
  | wideLocalVar _ index | wideIncrement index _ => operand = .localVar index.toNat
  | jump _ target | longJump _ target => operand = .branch target.toNat
  | tableSwitch _ default _ targets =>
    operand = .switch default.toNat (targets.map (·.toNat))
  | lookupSwitch _ default pairs =>
    operand = .switch default.toNat (pairs.map (·.2.toNat))
  | field _ index =>
    ∃ member, pool.NamesMember index.toNat member ∧
      operand = .field ⟨member.owner, member.name, member.descriptor⟩
  | call kind index =>
    ∃ member, pool.NamesMember index.toNat member ∧
      operand = .call ⟨kind, member.owner, member.name, member.descriptor⟩
  | interfaceCall index _ _ =>
    ∃ member, pool.NamesMember index.toNat member ∧
      operand = .call ⟨.interface, member.owner, member.name, member.descriptor⟩
  | dynamicCall index _ _ =>
    ∃ name descriptor, pool.NamesDynamicCall index.toNat name descriptor ∧
      operand = .dynamicCall name descriptor
  | type _ index => ∃ name, pool.NamesClass index.toNat name ∧ operand = .type name
  | arrays index dimensions =>
    ∃ name, pool.NamesClass index.toNat name ∧ operand = .arrays name dimensions.toNat

end RawInstruction

/-- The raw instructions, laid out from `offset` on, are the given
instructions of a method. -/
inductive Laid (pool : ConstantPool) : Nat → List RawInstruction → List Instruction → Prop
  | nil {offset} : Laid pool offset [] []
  | cons {offset raw rest operand later} (wellFormed : raw.WellFormedAt offset)
      (denotes : raw.Denotes pool operand)
      (behind : Laid pool (offset + (raw.encode offset).length) rest later) :
      Laid pool offset (raw :: rest) (⟨offset, raw.opcode, operand⟩ :: later)

end BytecodeLint.Bytecode
