/-!
# Constants

The literal values that instructions push.  Floating values are kept as
their IEEE bits, so nothing about them is lost and two constants can be
told apart exactly.

`Constant.agrees` is the comparison that joins of the operand stack use.
It is numeric equality, so it differs from equality of the bits in two
places.  A NaN agrees with nothing, and the two zeros agree.
`Constant.agrees_iff_eq` says that it is equality everywhere else.
-/

namespace BytecodeLint

/-! ## Floating values as bits -/

/-- The format of floating values: the bit that holds the sign, and the
bits of the positive infinity. -/
structure FloatFormat where
  sign : Nat
  infinity : Nat
  deriving DecidableEq, Repr

namespace FloatFormat

def single : FloatFormat :=
  { sign := 0x80000000, infinity := 0x7f800000 }

def double : FloatFormat :=
  { sign := 0x8000000000000000, infinity := 0x7ff0000000000000 }

/-- The bits spell a NaN.  Below the sign they are above the infinity. -/
def isNan (format : FloatFormat) (bits : Nat) : Bool :=
  format.infinity < bits % format.sign

/-- Numeric equality of two floating values that are given as bits.  Both
zeros have no bit set below the sign. -/
def agree (format : FloatFormat) (left right : Nat) : Bool :=
  !format.isNan left && !format.isNan right &&
    (left == right || left % format.sign == 0 && right % format.sign == 0)

end FloatFormat

/-! ## Constants -/

/-- A literal that an instruction pushes. -/
inductive Constant
  | null
  | int (value : Int32)
  | long (value : Int64)
  /-- The 32 bits of a `float`. -/
  | float (bits : UInt32)
  /-- The 64 bits of a `double`. -/
  | double (bits : UInt64)
  | string (text : String)
  /-- A class literal, by the name of the class. -/
  | type (name : String)
  /-- A value that has no literal form, such as a method handle. -/
  | other
  deriving DecidableEq, Repr

namespace Constant

def string? : Constant → Option String
  | string text => some text
  | _ => none

/-- A `float` or `double` constant that holds a NaN. -/
def isNan : Constant → Bool
  | float bits => FloatFormat.single.isNan bits.toNat
  | double bits => FloatFormat.double.isNan bits.toNat
  | _ => false

/-- A floating zero whose sign bit is set. -/
def isNegativeZero : Constant → Bool
  | float bits => bits == 0x80000000
  | double bits => bits == 0x8000000000000000
  | _ => false

/-- The two constants are the same value.  Floating values are compared
as numbers. -/
def agrees : Constant → Constant → Bool
  | float left, float right => FloatFormat.single.agree left.toNat right.toNat
  | double left, double right => FloatFormat.double.agree left.toNat right.toNat
  | left, right => left == right

private theorem agree_iff_eq_aux {format : FloatFormat} {left right : Nat}
    (hleft : format.isNan left = false)
    (hzero : ∀ bits ∈ [left, right], bits % format.sign = 0 → bits = 0) :
    format.agree left right = true ↔ left = right := by
  constructor
  · intro h
    simp only [FloatFormat.agree, Bool.and_eq_true, Bool.or_eq_true, beq_iff_eq] at h
    rcases h.2 with heq | ⟨hl, hr⟩
    · exact heq
    · rw [hzero left (by simp) hl, hzero right (by simp) hr]
  · rintro rfl
    simp [FloatFormat.agree, hleft]

/-- Away from NaNs and negative zeros, agreement is equality. -/
theorem agrees_iff_eq {left right : Constant} (hnan : left.isNan = false)
    (hleft : left.isNegativeZero = false) (hright : right.isNegativeZero = false) :
    left.agrees right = true ↔ left = right := by
  cases left <;> cases right <;> try simp [agrees]
  case float.float l r =>
    rw [agree_iff_eq_aux hnan, UInt32.toNat_inj]
    intro bits hbits hmod
    simp only [isNegativeZero, beq_eq_false_iff_ne, ne_eq] at hleft hright
    simp only [List.mem_cons, List.not_mem_nil, or_false] at hbits
    simp only [FloatFormat.single] at hmod
    rcases hbits with rfl | rfl
    · have hlt := l.toNat_lt
      have hne : l.toNat ≠ 0x80000000 := fun h => hleft (UInt32.toNat_inj.1 h)
      omega
    · have hlt := r.toNat_lt
      have hne : r.toNat ≠ 0x80000000 := fun h => hright (UInt32.toNat_inj.1 h)
      omega
  case double.double l r =>
    rw [agree_iff_eq_aux hnan, UInt64.toNat_inj]
    intro bits hbits hmod
    simp only [isNegativeZero, beq_eq_false_iff_ne, ne_eq] at hleft hright
    simp only [List.mem_cons, List.not_mem_nil, or_false] at hbits
    simp only [FloatFormat.double] at hmod
    rcases hbits with rfl | rfl
    · have hlt := l.toNat_lt
      have hne : l.toNat ≠ 0x8000000000000000 := fun h => hleft (UInt64.toNat_inj.1 h)
      omega
    · have hlt := r.toNat_lt
      have hne : r.toNat ≠ 0x8000000000000000 := fun h => hright (UInt64.toNat_inj.1 h)
      omega

end Constant

end BytecodeLint
