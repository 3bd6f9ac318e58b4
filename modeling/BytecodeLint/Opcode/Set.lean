import BytecodeLint.Opcode

/-!
# Sets of opcodes

The set of the opcodes that occur in a method, one bit for each opcode.
Detectors look at it to reject a method without reading its code.

The view of a set is `contains`.  `contains_insert` and `contains_ofList`
say what the operations do to it.
-/

namespace BytecodeLint

/-- A set of opcodes.  Bit `n` tells whether the opcode `n` is in the set. -/
structure OpcodeSet where
  bits : BitVec 256
  deriving DecidableEq

namespace OpcodeSet

def empty : OpcodeSet :=
  ⟨0⟩

def insert (set : OpcodeSet) (op : Opcode) : OpcodeSet :=
  ⟨set.bits ||| BitVec.twoPow 256 op.toNat⟩

def contains (set : OpcodeSet) (op : Opcode) : Bool :=
  set.bits.getLsbD op.toNat

/-- At least one of the opcodes is in the set. -/
def containsAny (set : OpcodeSet) (ops : List Opcode) : Bool :=
  ops.any set.contains

def ofList (ops : List Opcode) : OpcodeSet :=
  ops.foldl insert empty

@[simp] theorem contains_empty (op : Opcode) : empty.contains op = false := by
  simp [empty, contains]

@[simp] theorem contains_insert (set : OpcodeSet) (new op : Opcode) :
    (set.insert new).contains op = (set.contains op || new == op) := by
  have h := op.toNat_lt
  by_cases heq : new = op
  · subst heq
    simp [insert, contains, h]
  · have hne : new.toNat ≠ op.toNat := fun he => heq (UInt8.toNat_inj.1 he)
    simp [insert, contains, BitVec.getLsbD_twoPow, heq, hne]

private theorem contains_foldl_insert (ops : List Opcode) (set : OpcodeSet) (op : Opcode) :
    (ops.foldl insert set).contains op = (set.contains op || ops.contains op) := by
  induction ops generalizing set with
  | nil => simp
  | cons head rest ih =>
    rw [List.foldl_cons, ih, contains_insert, List.contains_cons, Bool.or_assoc,
      Bool.beq_comm (a := head) (b := op)]

/-- A set made from a list holds the members of the list. -/
@[simp] theorem contains_ofList (ops : List Opcode) (op : Opcode) :
    (ofList ops).contains op = ops.contains op := by
  simp [ofList, contains_foldl_insert]

theorem containsAny_eq_false_iff {set : OpcodeSet} {ops : List Opcode} :
    set.containsAny ops = false ↔ ∀ op ∈ ops, set.contains op = false := by
  simp [containsAny]

end OpcodeSet

end BytecodeLint
