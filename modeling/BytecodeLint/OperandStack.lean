import BytecodeLint.Slot
import BytecodeLint.OperandStack.Fault

/-!
# The symbolic operand stack

The stack of one method while its code is followed in order, together
with the stacks that jumps have recorded for offsets still ahead.

There are four groups.

* `OperandStack` is the state.  Its slots are listed from the top, so
  slot `k` below the top is entry `k` of the list.
* `StackM` is the type of an operation.  An operation that fails still
  leaves a stack behind, because pushing a wide value can fail after its
  lower half is on the stack.
* The operations on slots.
* Control flow.  `noteJump` notes the stack for a target, and `enter`
  joins what was noted with what falls through.
-/

namespace BytecodeLint

/-- The operand stack of a method, from the top. -/
structure OperandStack where
  slots : List Slot
  /-- The most slots that the stack may hold. -/
  limit : Option Nat
  /-- The slots that jumps have brought to offsets not yet reached. -/
  recorded : List (Nat × List Slot)
  deriving DecidableEq, Repr

/-- An operation on the stack that may fault. -/
abbrev StackM := EStateM StackFault OperandStack

/-- Joins two stacks slot by slot.  Their depths have to be the same. -/
def joinSlots (target : Nat) (incoming recorded : List Slot) :
    Except StackFault (List Slot) :=
  if incoming.length = recorded.length then
    .ok (List.zipWith Slot.join incoming recorded)
  else
    .error (.depthMismatch target incoming.length recorded.length)

namespace OperandStack

def empty (limit : Option Nat) : OperandStack :=
  { slots := [], limit, recorded := [] }

def depth (stack : OperandStack) : Nat :=
  stack.slots.length

/-- The slot `below` slots below the top. -/
def peek? (stack : OperandStack) (below : Nat) : Option Slot :=
  stack.slots[below]?

/-- What jumps have brought to the offset so far. -/
def recordedAt? (stack : OperandStack) (offset : Nat) : Option (List Slot) :=
  stack.recorded.lookup offset

/-- Drops what jumps have brought to the offset. -/
def dropRecorded (stack : OperandStack) (offset : Nat) : OperandStack :=
  { stack with recorded := stack.recorded.filter (·.1 != offset) }

/-- Replaces what jumps have brought to the offset. -/
def setRecorded (stack : OperandStack) (offset : Nat) (slots : List Slot) : OperandStack :=
  { stack with recorded := (offset, slots) :: stack.recorded.filter (·.1 != offset) }

/-! ## Operations on slots -/

def setSlots (slots : List Slot) : StackM Unit :=
  modify fun stack => { stack with slots }

/-- Faults unless at least `needed` slots are on the stack. -/
def requireDepth (needed : Nat) : StackM Unit := do
  let stack ← get
  if stack.depth < needed then
    throw (.underflow needed stack.depth)

/-- Faults unless the stack has room for `extra` more slots. -/
def requireRoom (extra : Nat) : StackM Unit := do
  let stack ← get
  match stack.limit with
  | some limit => if limit < stack.depth + extra then throw (.overflow limit)
  | none => pure ()

def push (slot : Slot) : StackM Unit := do
  requireRoom 1
  setSlots (slot :: (← get).slots)

/-- Pushes a value that takes the given number of slots, one or two. -/
def pushValue (slot : Slot) (slots : Nat) : StackM Unit := do
  if slots = 2 then
    push .continuation
  push slot

/-- Takes `count` slots off the stack and returns them from the top. -/
def pop (count : Nat) : StackM (List Slot) := do
  requireDepth count
  let stack ← get
  setSlots (stack.slots.drop count)
  return stack.slots.take count

/-- Copies the top `copy` slots and puts the copies below the top
`copy + under` slots. -/
def dup (copy under : Nat) : StackM Unit := do
  requireDepth (copy + under)
  requireRoom copy
  let slots := (← get).slots
  setSlots (slots.take (copy + under) ++ slots.take copy ++ slots.drop (copy + under))

/-- Exchanges the top two slots. -/
def swap : StackM Unit := do
  requireDepth 2
  match (← get).slots with
  | first :: second :: rest => setSlots (second :: first :: rest)
  | _ => pure ()

/-- Puts `slot` in place of every slot that holds the object allocated at
`offset`. -/
def replaceObject (offset : Nat) (slot : Slot) : StackM Unit := do
  setSlots ((← get).slots.map fun old => if old.allocation? = some offset then slot else old)

/-- Forgets all but the layout of the stack.  This is done at loop heads:
what the jump back brings is not known when the head is reached. -/
def forget : StackM Unit := do
  setSlots ((← get).slots.map Slot.forget)

/-! ## Control flow -/

/-- Notes the stack for a jump to `target`. -/
def noteJump (target : Nat) : StackM Unit := do
  let stack ← get
  match stack.recordedAt? target with
  | some recorded =>
    let joined ← MonadExcept.ofExcept (joinSlots target stack.slots recorded)
    set (stack.setRecorded target joined)
  | none => set (stack.setRecorded target stack.slots)

/-- Sets the stack up for the instruction at `offset`.

A handler starts with the caught exception alone.  Elsewhere the stack is
the join of what jumps have brought and of what falls through.  Where
neither brings anything the stack is empty. -/
def enter (offset : Nat) (fallsThrough isHandler : Bool) : StackM Unit := do
  let stack ← get
  let recorded := stack.recordedAt? offset
  set (stack.dropRecorded offset)
  if isHandler then
    setSlots []
    push .unknown
  else
    match recorded, fallsThrough with
    | some recorded, true =>
      setSlots (← MonadExcept.ofExcept (joinSlots offset stack.slots recorded))
    | some recorded, false => setSlots recorded
    | none, true => pure ()
    | none, false => setSlots []

end OperandStack

end BytecodeLint
