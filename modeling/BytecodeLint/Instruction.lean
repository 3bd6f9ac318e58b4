import BytecodeLint.Opcode
import BytecodeLint.Constant

/-!
# Instructions

An instruction is an opcode at an offset in the code of a method,
together with its operand.  Operands are resolved: they hold names and
literals instead of indices into a constant pool.

An opcode and an operand need not fit each other.  The decoder makes pairs
that fit, but for what follows a `wide` marker, and everything that reads an
operand asks for the shape that it needs (`Instruction.call?`,
`Instruction.field?` and so on).
-/

namespace BytecodeLint

/-! ## Operands -/

/-- A field, by the class that declares it, its name and its type. -/
structure FieldRef where
  owner : String
  name : String
  descriptor : String
  deriving DecidableEq, Repr

/-- The four ways of calling a method that is known by name. -/
inductive CallKind
  | virtual
  | interface
  | special
  | static
  deriving DecidableEq, Repr

/-- The call takes an object below its arguments. -/
def CallKind.hasReceiver (kind : CallKind) : Bool :=
  kind != .static

/-- A method as it is named by a call. -/
structure CallSite where
  kind : CallKind
  owner : String
  name : String
  descriptor : String
  deriving DecidableEq, Repr

/-- The operand of an instruction. -/
inductive Operand
  /-- No operand, or one that no rule looks at. -/
  | none
  | call (site : CallSite)
  /-- A call site that is linked at run time. -/
  | dynamicCall (name descriptor : String)
  | field (ref : FieldRef)
  | constant (value : Constant)
  | localVar (index : Nat)
  /-- The offset that a jump goes to. -/
  | branch (target : Nat)
  | switch (default : Nat) (targets : List Nat)
  | type (name : String)
  /-- The array class and the number of dimensions that are allocated. -/
  | arrays (className : String) (dimensions : Nat)
  deriving DecidableEq, Repr

namespace Operand

/-- The offsets that control may go to, other than the next instruction. -/
def targets : Operand → List Nat
  | branch target => [target]
  | switch default targets => default :: targets
  | _ => []

end Operand

/-! ## Instructions -/

structure Instruction where
  offset : Nat
  opcode : Opcode
  operand : Operand
  deriving DecidableEq, Repr

namespace Instruction

def call? (inst : Instruction) : Option CallSite :=
  match inst.operand with
  | .call site => some site
  | _ => none

def field? (inst : Instruction) : Option FieldRef :=
  match inst.operand with
  | .field ref => some ref
  | _ => none

def constant? (inst : Instruction) : Option Constant :=
  match inst.operand with
  | .constant value => some value
  | _ => none

def local? (inst : Instruction) : Option Nat :=
  match inst.operand with
  | .localVar index => some index
  | _ => none

def targets (inst : Instruction) : List Nat :=
  inst.operand.targets

/-- The targets that lie after the instruction. -/
def forwardTargets (inst : Instruction) : List Nat :=
  inst.targets.filter (inst.offset < ·)

/-- The targets at the instruction itself or before it. -/
def backwardTargets (inst : Instruction) : List Nat :=
  inst.targets.filter (· ≤ inst.offset)

def fallsThrough (inst : Instruction) : Bool :=
  inst.opcode.fallsThrough

/-- The instruction calls this very method, in the way that `opcode`
says. -/
def isCallTo (inst : Instruction) (opcode : Opcode) (owner name descriptor : String) : Bool :=
  inst.opcode == opcode && inst.call?.any fun site =>
    site.owner == owner && site.name == name && site.descriptor == descriptor

end Instruction

end BytecodeLint
