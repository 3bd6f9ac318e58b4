import BytecodeLint.Detector

/-!
# Objects that are constructed and discarded

`new Foo();` as a statement runs a constructor for its side effects.  The
detector reports the constructor call when the object is dropped.

An object under construction is on the stack twice: the constructor takes
the upper copy, and the lower copy is the value of the expression.  After
the call the lower copy is a survivor, and the detector follows it.  It
is discarded when a `pop` or a `return` meets it on top of the stack, and
it is used when any instruction takes its slot.
-/

namespace BytecodeLint.DiscardedObject

def discarded : Rule where
  id := "SEC_SIDE_EFFECT_CONSTRUCTOR"
  name := "Side effect constructor"
  description := "Object is constructed and immediately discarded; " ++
    "the constructor is only used for its side effects"
  priority := .normal

/-! ## Following an object -/

/-- An object whose constructor was called at `offset`.  It was left on
top of a stack of `depth` slots. -/
structure Survivor where
  offset : Nat
  depth : Nat
  deriving DecidableEq, Repr

/-- What an instruction does to a survivor. -/
inductive Fate
  | pending
  | discarded
  | used
  deriving DecidableEq, Repr

def fate (survivor : Survivor) (step : Step) : Fate :=
  if (step.opcode == .pop || step.opcode == .voidReturn) && step.depth == survivor.depth then
    .discarded
  else if step.depth - step.effect.pops < survivor.depth then
    .used
  else
    .pending

/-! ## Constructor calls -/

/-- What a constructor call leaves of the object. -/
inductive Remains
  /-- A copy right below the arguments stays and has to be followed. -/
  | copy (survivor : Survivor)
  /-- No copy stays. -/
  | nothing
  deriving DecidableEq, Repr

/-- The constructor call of a step, by its descriptor. -/
def constructorCall? (step : Step) : Option String :=
  if step.opcode == .invokespecial then
    (step.instruction.call?.filter (·.name == "<init>")).map (·.descriptor)
  else
    none

/-- What the call of a constructor with `params` argument slots leaves of
a freshly allocated object.  There is nothing to say if the receiver is
no such object, or if other copies of it are kept elsewhere. -/
def remains? (step : Step) (params : Nat) : Option Remains := do
  let allocation ← (step.peek? params).bind Slot.allocation?
  let holds (below : Nat) : Bool :=
    (step.peek? below).bind Slot.allocation? == some allocation
  if holds (params + 1) then
    some (.copy { offset := step.offset, depth := step.depth - params - 1 })
  else if (List.range step.depth).any fun below => below != params && holds below then
    none
  else
    some .nothing

def remainsAt (step : Step) : Except DetectorFault (Option Remains) :=
  match constructorCall? step with
  | none => .ok none
  | some descriptor =>
    match callSlots descriptor with
    | .ok slots => .ok (remains? step slots.params)
    | .error bad => .error ⟨bad.message⟩

/-! ## The detector -/

/-- The findings for a pending survivor, and the survivor if it is
still pending. -/
def settle (step : Step) : Option Survivor → Option Survivor × List Finding
  | none => (none, [])
  | some survivor =>
    match fate survivor step with
    | .pending => (some survivor, [])
    | .discarded => (none, [step.findingAt discarded survivor.offset])
    | .used => (none, [])

def visit (step : Step) : EStateM DetectorFault (Option Survivor) (List Finding) := do
  let (pending, findings) := settle step (← get)
  set pending
  match ← MonadExcept.ofExcept (remainsAt step) with
  | some (.copy survivor) =>
    set (some survivor)
    return findings
  | some .nothing => return findings ++ [step.findingAt discarded step.offset]
  | none => return findings

def detector : Detector where
  id := "SEC"
  name := "Side effect constructor"
  slug := "side_effect_constructor"
  rules := [discarded]
  State := Option Survivor
  accepts _ opcodes := opcodes.contains .new && opcodes.contains .invokespecial
  start _ := some none
  enter _ _ := none
  visit := visit

end BytecodeLint.DiscardedObject
