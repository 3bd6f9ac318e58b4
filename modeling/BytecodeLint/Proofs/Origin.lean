import BytecodeLint.Class
import BytecodeLint.Execution
import Mathlib.Logic.Relation

/-!
# Executions with the origin of every value

A machine on which every entry of the operand stack carries where its
value came from.  It has no joins and forgets nothing: it follows one path
through the code, and a path may take any branch and run round any loop.
So it is what the symbolic stack is measured by.

There are three groups.

* `Origin` is where a value came from.
* `Instruction.execute?` executes one instruction.  It fails if the stack
  is too shallow, so an execution never underflows.
* `Method.Steps` is one step of control: to the next instruction, along a
  jump, or into a handler.  `Method.Reaches` is any number of them.
-/

namespace BytecodeLint

/-! ## Origins -/

/-- Where a value on the operand stack came from. -/
inductive Origin
  | constant (literal : Constant)
  | localVar (index : Nat)
  | staticField (ref : FieldRef)
  /-- A field of an object, with the origin of the object. -/
  | instanceField (ref : FieldRef) (object : Origin)
  /-- The object that the instruction at `offset` allocated, constructed or
  not. -/
  | allocated (offset : Nat)
  /-- The lower half of a wide value, or the result of a computation. -/
  | other
  deriving DecidableEq, Repr

namespace Origin

/-- The entries of a value of the given width, from the top. -/
def entries (origin : Origin) (width : Nat) : List Origin :=
  if width = 2 then [origin, other] else [origin]

/-- The entries of a computed value, which may be none. -/
def results (count : Nat) : List Origin :=
  if count = 0 then [] else other.entries count

end Origin

/-! ## Executing an instruction -/

namespace Instruction

/-- The origin of a value that is loaded from a local variable. -/
def loadOrigin (inst : Instruction) : Origin :=
  match inst.local?.or inst.opcode.heldLocal? with
  | some index => .localVar index
  | none => .other

/-- The stack after an instruction that takes and puts `counts`, where the
stack is deep enough. -/
def originsAfter (inst : Instruction) (counts : StackEffect) (stack : List Origin) :
    Effect → List Origin
  | .pushConstant width => (Origin.constant inst.literal).entries width ++ stack
  | .loadLocal width => inst.loadOrigin.entries width ++ stack
  | .dup copy under => stack.take (copy + under) ++ stack.take copy ++ stack.drop (copy + under)
  | .swap => stack.tail.take 1 ++ stack.take 1 ++ stack.drop 2
  | .getStatic =>
    match inst.field? with
    | some ref => (Origin.staticField ref).entries counts.pushes ++ stack
    | none => stack
  | .getField =>
    match inst.field? with
    | some ref =>
      (Origin.instanceField ref (stack.head?.getD .other)).entries counts.pushes ++ stack.tail
    | none => stack
  | .allocate => .allocated inst.offset :: stack
  | .checkCast => stack
  | .invoke | .replace .. | .putStatic | .putField | .invokeDynamic | .allocateArrays =>
    Origin.results counts.pushes ++ stack.drop counts.pops

/-- Executes the instruction, unless it has no meaning or the stack is too
shallow. -/
def execute? (inst : Instruction) (stack : List Origin) : Option (List Origin) :=
  match inst.opcode.effect? with
  | none => none
  | some effect =>
    match inst.countSlots effect with
    | .error _ => none
    | .ok counts =>
      if stack.length < counts.pops then none else some (inst.originsAfter counts stack effect)

theorem execute?_eq_some {inst : Instruction} {stack after : List Origin} {effect : Effect}
    {counts : StackEffect} (heffect : inst.opcode.effect? = some effect)
    (hcounts : inst.countSlots effect = .ok counts) (h : inst.execute? stack = some after) :
    counts.pops ≤ stack.length ∧ after = inst.originsAfter counts stack effect := by
  unfold execute? at h
  simp only [heffect, hcounts] at h
  by_cases hshallow : stack.length < counts.pops
  · rw [if_pos hshallow] at h
    cases h
  · rw [if_neg hshallow] at h
    cases h
    exact ⟨Nat.not_lt.1 hshallow, rfl⟩

end Instruction

/-! ## Steps of control -/

/-- The opcodes behind which control never goes on to the next instruction:
the unconditional jumps, the switches, the returns and `athrow`. -/
def Opcode.unconditional : List Opcode :=
  [.goto, .gotoW, .tableswitch, .lookupswitch, .ireturn, 0xad, 0xae, 0xaf, 0xb0, .voidReturn,
    .athrow]

/-- The opcodes of subroutines.  Where a `ret` goes is not in the code. -/
def Opcode.subroutine : List Opcode :=
  [.jsr, .jsrW, .ret]

/-- Control is at an instruction with a stack. -/
structure Frame where
  instruction : Instruction
  stack : List Origin
  deriving DecidableEq, Repr

namespace Method

/-- One step of control. -/
inductive Steps (method : Method) : Frame → Frame → Prop
  | next {inst following stack after} (adjacent : [inst, following] <:+: method.code)
      (conditional : inst.opcode ∉ Opcode.unconditional)
      (executed : inst.execute? stack = some after) :
      Steps method ⟨inst, stack⟩ ⟨following, after⟩
  | jump {inst destination stack after} (declared : destination ∈ method.code)
      (target : destination.offset ∈ inst.targets)
      (executed : inst.execute? stack = some after) :
      Steps method ⟨inst, stack⟩ ⟨destination, after⟩
  /-- An exception leads from any instruction to any handler. -/
  | caught {inst handler stack} (declared : handler ∈ method.code)
      (isHandler : method.isHandler handler.offset = true) :
      Steps method ⟨inst, stack⟩ ⟨handler, [.other]⟩

/-- Some execution of the method comes to the frame. -/
def Reaches (method : Method) (frame : Frame) : Prop :=
  ∃ first, method.code.head? = some first ∧ Relation.ReflTransGen method.Steps ⟨first, []⟩ frame

end Method

/-- Without subroutines, control goes on to the next instruction exactly
behind the conditional opcodes. -/
theorem Opcode.fallsThrough_of_conditional {op : Opcode} (h : op ∉ unconditional)
    (hsubroutine : op ∉ subroutine) : op.fallsThrough = true := by
  simp only [unconditional, subroutine, List.mem_cons, List.not_mem_nil, or_false, not_or]
    at h hsubroutine
  have hreturn : op.isReturn = false := by
    simp only [isReturn, within, Bool.and_eq_false_iff, decide_eq_false_iff_not,
      UInt8.le_iff_toNat_le, UInt8.toNat_ofNat]
    simp only [← UInt8.toNat_inj, UInt8.toNat_ofNat] at h
    omega
  simp [fallsThrough, isGoto, isSwitch, hreturn, h, hsubroutine]

end BytecodeLint
