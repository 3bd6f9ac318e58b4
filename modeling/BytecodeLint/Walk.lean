import BytecodeLint.Class
import BytecodeLint.Execution

/-!
# The walk over a method

The walk follows the code of a method once, in the order of the code,
with a symbolic stack.  Its result is data: the visits, each with the
slots just before the instruction, and the fault that ended the walk, if
one did.  Detectors read the visits and never touch the stack.

A jump forward hands its stack to the target.  A jump back does not: its
target is a loop head, and at a loop head everything but the layout of
the stack is forgotten.  So one pass is enough.

There are two groups.

* `Visit` and `Walk` are the result.
* `Method.reach` and `Instruction.leave` are the two halves of one step,
  and `Method.walk` runs the steps.
-/

namespace BytecodeLint

open OperandStack

/-! ## The result of a walk -/

/-- An instruction that the walk has reached, with the slots just before
it and the number of slots that it takes and puts. -/
structure Visit where
  instruction : Instruction
  slots : List Slot
  effect : StackEffect
  deriving DecidableEq, Repr

/-- A fault at the instruction at `offset`. -/
structure WalkFault where
  offset : Nat
  fault : StackFault
  deriving DecidableEq, Repr

/-- The visits in the order of the code, and the fault that ended the
walk before the end of the code. -/
structure Walk where
  visits : List Visit
  fault : Option WalkFault
  deriving DecidableEq, Repr

namespace Walk

def cons (visit : Visit) (walk : Walk) : Walk :=
  { walk with visits := visit :: walk.visits }

/-- The walk came to the end of the code. -/
def completes (walk : Walk) : Bool :=
  walk.fault.isNone

end Walk

/-! ## Steps -/

/-- Sets the stack up for the instruction and looks at it.  Here
`fallsThrough` tells whether control can come from the instruction
before, and `heads` are the loop heads of the method. -/
def Method.reach (method : Method) (heads : List Nat) (fallsThrough : Bool)
    (inst : Instruction) : StackM Visit := do
  let isHandler := method.isHandler inst.offset
  enter inst.offset fallsThrough isHandler
  if heads.contains inst.offset && !isHandler then
    forget
  let effect ← MonadExcept.ofExcept inst.stackEffect
  return { instruction := inst, slots := (← get).slots, effect }

/-- Executes the instruction and hands the stack to its forward
targets. -/
def Instruction.leave (inst : Instruction) : StackM Unit := do
  inst.apply
  inst.forwardTargets.forM noteJump

namespace Method

/-- The walk over the given rest of the code, from the given stack. -/
def walkFrom (method : Method) (heads : List Nat) :
    List Instruction → Bool → OperandStack → Walk
  | [], _, _ => { visits := [], fault := none }
  | inst :: rest, fallsThrough, stack =>
    match method.reach heads fallsThrough inst stack with
    | .error fault _ => { visits := [], fault := some ⟨inst.offset, fault⟩ }
    | .ok visit stack =>
      match inst.leave stack with
      | .error fault _ => { visits := [visit], fault := some ⟨inst.offset, fault⟩ }
      | .ok _ stack => (walkFrom method heads rest inst.fallsThrough stack).cons visit

/-- The walk over the whole method.  Control enters at the first
instruction with an empty stack. -/
def walk (method : Method) : Walk :=
  method.walkFrom method.loopHeads method.code true (.empty method.maxStack)

end Method

end BytecodeLint
