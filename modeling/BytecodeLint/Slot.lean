import BytecodeLint.Instruction

/-!
# Slots of the symbolic operand stack

A slot says what is known about one entry of the operand stack.  A wide
value takes two entries: the upper one carries the value and the lower
one is a continuation, so the top entry always shows a whole value.

There are three groups.

* `Provenance` tells which local variable or field a value was read from.
* `Slot` is the entry itself.
* `Slot.join` is what stays known of an entry that two paths bring, and
  `Slot.forget` is what stays known of it at the head of a loop.
-/

namespace BytecodeLint

/-! ## Provenance -/

/-- Where a value was read from. -/
inductive Provenance
  | unknown
  | localVar (index : Nat)
  /-- A field, with no object that it was read from. -/
  | field (ref : FieldRef) (isStatic : Bool)
  /-- A field, with the provenance of the object that it was read from. -/
  | fieldOf (ref : FieldRef) (isStatic : Bool) (receiver : Provenance)
  deriving DecidableEq, Repr

namespace Provenance

/-- The static field that the value was read from. -/
def staticField? : Provenance → Option FieldRef
  | field ref true => some ref
  | fieldOf ref true _ => some ref
  | _ => none

end Provenance

/-! ## Slots -/

/-- What is known about one entry of the operand stack. -/
inductive Slot
  /-- A value of which at most the provenance is known. -/
  | value (source : Provenance)
  /-- The lower entry of a wide value. -/
  | continuation
  | constant (literal : Constant)
  /-- The object that the instruction at `offset` allocated and that no
  constructor has been called on. -/
  | fresh (offset : Nat)
  deriving DecidableEq, Repr

namespace Slot

def unknown : Slot :=
  value .unknown

def provenance : Slot → Provenance
  | value source => source
  | _ => .unknown

def string? : Slot → Option String
  | constant literal => literal.string?
  | _ => none

def allocation? : Slot → Option Nat
  | fresh offset => some offset
  | _ => none

/-! ## Joining and forgetting -/

/-- The two slots carry the same knowledge.  Constants are compared as
`Constant.agrees` does. -/
def agrees : Slot → Slot → Bool
  | constant left, constant right => left.agrees right
  | left, right => left == right

/-- What stays known of an entry for which one path brings `incoming` and
another `recorded`. -/
def join (incoming recorded : Slot) : Slot :=
  if incoming.agrees recorded then incoming else unknown

/-- Only the layout of wide values stays known. -/
def forget : Slot → Slot
  | continuation => continuation
  | _ => unknown

end Slot

end BytecodeLint
