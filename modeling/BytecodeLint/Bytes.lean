/-!
# Numbers in bytes

The number that some bytes spell, in the two orders of bytes.
-/

namespace BytecodeLint

/-- The number that the bytes spell, the most significant byte first. -/
def bigEndian (bytes : List UInt8) : Nat :=
  bytes.foldl (fun value byte => value * 256 + byte.toNat) 0

/-- The number that the bytes spell, the least significant byte first. -/
def littleEndian (bytes : List UInt8) : Nat :=
  bytes.foldr (fun byte value => byte.toNat + 256 * value) 0

end BytecodeLint
