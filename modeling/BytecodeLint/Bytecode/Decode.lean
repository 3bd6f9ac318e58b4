import BytecodeLint.Effect
import BytecodeLint.Bytecode.Format

/-!
# Decoding code

Turns the bytes of a method into instructions with resolved operands.

There are three groups.

* The operands of each format.  A reference into the constant pool is
  resolved, and the distance of a jump becomes the offset of its target.
* `decodeInstruction` decodes the instruction at the start of some code
  and tells its length.  The length is checked before any operand is
  read.
* `decode` decodes instruction after instruction until no byte is left.
-/

namespace BytecodeLint.Bytecode

/-! ## Operands -/

/-- The target of a jump at `offset` by `distance`.  Targets are numbers
of 32 bits without a sign. -/
def jumpTarget (offset : Nat) (distance : Int) : Except CodeFault Nat :=
  let target := offset + distance
  if 0 ≤ target ∧ target < 0x100000000 then .ok target.toNat else .error (.targetOutOfRange target)

/-- Reads `count` distances of four bytes, with `gap` bytes before each
one. -/
def readDistances (gap : Nat) : Nat → List UInt8 → Except CodeFault (List Int)
  | 0, _ => .ok []
  | count + 1, code => do
    let distance ← readSigned 4 gap code
    let rest ← readDistances gap count (code.drop (gap + 4))
    .ok (distance :: rest)

/-- The number of targets that are read for a table switch, whose operands
start `skip` bytes behind the start of the code.  A range of negative size
is read as an empty one. -/
def tableEntries (skip : Nat) (code : List UInt8) : Except CodeFault Nat := do
  let low ← readSigned 4 (skip + 4) code
  let high ← readSigned 4 (skip + 8) code
  let distance := high - low
  if -0x80000000 ≤ distance ∧ distance + 1 < 0x80000000 then
    .ok (distance + 1).toNat
  else
    .error .badTableRange

/-- The number of pairs that are read for a lookup switch.  A negative
number is read as none. -/
def pairEntries (skip : Nat) (code : List UInt8) : Except CodeFault Nat := do
  return (← readSigned 4 (skip + 4) code).toNat

/-- The operand of a switch, whose `count` distances start `skip` bytes
behind the start of the code and have `gap` bytes before each one.  The
distance of the default is the first operand. -/
def switchOperand (offset skip gap count : Nat) (code : List UInt8) :
    Except CodeFault Operand := do
  let default ← jumpTarget offset (← readSigned 4 (switchBase offset) code)
  let distances ← readDistances gap count (code.drop skip)
  return .switch default (← distances.mapM (jumpTarget offset))

/-- The operand that an opcode without operand bytes holds itself. -/
def heldOperand (op : Opcode) : Operand :=
  match op.heldConstant?, op.heldLocal? with
  | some value, _ => .constant value
  | none, some index => .localVar index
  | none, none => .none

/-- Resolves the two-byte index that follows the opcode. -/
def resolve {α : Type} (code : List UInt8) (use : PoolUse) (lookup : Nat → Except PoolFault α) :
    Except CodeFault α := do
  (lookup (← readUnsigned 2 1 code)).mapError (.unresolved use)

/-- The operand of an instruction of the given format at `offset`, where
`code` starts with the opcode `op`. -/
def decodeOperand (pool : ConstantPool) (offset : Nat) (op : Opcode) (code : List UInt8) :
    Format → Except CodeFault Operand
  | .bare => .ok (heldOperand op)
  | .byteValue => return .constant (.int (Int32.ofInt (← readSigned 1 1 code)))
  | .shortValue => return .constant (.int (Int32.ofInt (← readSigned 2 1 code)))
  | .shortConstant => do
    let index ← readUnsigned 1 1 code
    return .constant (← (pool.constant index).mapError (.unresolved .constant))
  | .constant => return .constant (← resolve code .constant pool.constant)
  | .localVar | .increment => return .localVar (← readUnsigned 1 1 code)
  | .jump => return .branch (← jumpTarget offset (← readSigned 2 1 code))
  | .longJump => return .branch (← jumpTarget offset (← readSigned 4 1 code))
  | .tableSwitch => do
    let base := switchBase offset
    switchOperand offset (base + 12) 0 (← tableEntries base code) code
  | .lookupSwitch => do
    let base := switchBase offset
    switchOperand offset (base + 8) 4 (← pairEntries base code) code
  | .field => do
    let member ← resolve code .field pool.member
    return .field { owner := member.owner, name := member.name, descriptor := member.descriptor }
  | .call kind _ => do
    let member ← resolve code .method pool.member
    return .call
      { kind, owner := member.owner, name := member.name, descriptor := member.descriptor }
  | .dynamicCall => do
    let (name, descriptor) ← resolve code .dynamicCall pool.dynamicCall
    return .dynamicCall name descriptor
  | .type => return .type (← resolve code .type pool.className)
  | .primitive => .ok .none
  | .arrays => do
    let name ← resolve code .arrayType pool.className
    return .arrays name (← readUnsigned 1 3 code)
  | .wide => return .localVar (← readUnsigned 2 2 code)

/-- The opcode of an instruction of the given format.  A `wide`
instruction has the opcode that follows the marker. -/
def effectiveOpcode (op : Opcode) (code : List UInt8) : Format → Opcode
  | .wide => (code[1]?).getD op
  | _ => op

/-! ## Instructions -/

/-- Decodes the instruction at `offset`, where `code` starts with it, and
returns its length too. -/
def decodeInstruction (pool : ConstantPool) (offset : Nat) (code : List UInt8) :
    Except CodeFault (Instruction × Nat) :=
  match code with
  | [] => .error (.badLength offset)
  | op :: _ =>
    match Opcode.format? op with
    | none => .error (.unsupportedOpcode op)
    | some format => do
      let length ← format.length offset code
      let bytes := code.take length
      if length = 0 ∨ bytes.length < length then
        throw (.badLength offset)
      let operand ← decodeOperand pool offset op bytes format
      return ({ offset, opcode := effectiveOpcode op bytes format, operand }, length)

/-- A decoded instruction has at least one byte, and there is one to
decode. -/
theorem decodeInstruction_length {pool : ConstantPool} {offset length : Nat}
    {code : List UInt8} {inst : Instruction}
    (h : decodeInstruction pool offset code = .ok (inst, length)) :
    (code.drop length).length < code.length := by
  unfold decodeInstruction at h
  split at h
  · cases h
  · rename_i op rest
    split at h
    · cases h
    · rename_i format _
      cases hlen : format.length offset (op :: rest) with
      | error fault => rw [hlen] at h; cases h
      | ok size =>
        rw [hlen] at h
        simp only [bind, Except.bind, pure, Except.pure] at h
        split at h
        · cases h
        · rename_i hsize
          split at h
          · cases h
          · simp only [Except.ok.injEq, Prod.mk.injEq] at h
            obtain ⟨_, rfl⟩ := h
            simp only [List.length_drop, List.length_cons]
            omega

/-- Decodes all of the code, which starts at `offset`. -/
def decodeFrom (pool : ConstantPool) (offset : Nat) (code : List UInt8) :
    Except CodeFault (List Instruction) :=
  match code with
  | [] => .ok []
  | op :: rest =>
    match _h : decodeInstruction pool offset (op :: rest) with
    | .error fault => .error fault
    | .ok (inst, length) => do
      let later ← decodeFrom pool (offset + length) ((op :: rest).drop length)
      .ok (inst :: later)
termination_by code.length
decreasing_by exact decodeInstruction_length _h

/-- Decodes the code of a method. -/
def decode (pool : ConstantPool) (code : List UInt8) : Except CodeFault (List Instruction) :=
  decodeFrom pool 0 code

end BytecodeLint.Bytecode
