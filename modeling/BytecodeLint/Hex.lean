/-!
# Hexadecimal text

Bytes with lower-case digits, and numbers with upper-case digits.
-/

namespace BytecodeLint.Hex

/-- The digit for a value below sixteen. -/
def digit (value : Nat) : Char :=
  if value < 10 then Char.ofNat ('0'.toNat + value) else Char.ofNat ('a'.toNat + (value - 10))

/-- The two digits of a byte. -/
def byte (value : UInt8) : List Char :=
  [digit (value.toNat / 16), digit (value.toNat % 16)]

/-- A number with at least `width` digits. -/
def upper (width value : Nat) : String :=
  String.ofList (((Nat.toDigits 16 value).map Char.toUpper).leftpad width '0')

end BytecodeLint.Hex
