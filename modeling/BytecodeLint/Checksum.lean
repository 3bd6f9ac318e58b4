/-!
# Checksums

The cyclic redundancy check with 32 bits that archives record for their
entries.
-/

namespace BytecodeLint.Checksum

/-- The generator, with the lowest power in the highest bit. -/
def generator : UInt32 := 0xedb88320

/-- Takes one bit into the remainder. -/
def shift (remainder : UInt32) : UInt32 :=
  if remainder &&& 1 = 1 then (remainder >>> 1) ^^^ generator else remainder >>> 1

/-- Takes a byte into the remainder. -/
def step (remainder : UInt32) (byte : UInt8) : UInt32 :=
  Nat.repeat shift 8 (remainder ^^^ byte.toUInt32)

def crc32 (data : ByteArray) : UInt32 :=
  data.data.foldl step 0xffffffff ^^^ 0xffffffff

/-- A checksum can be computed part by part. -/
theorem crc32_flatten (parts : List (List UInt8)) :
    crc32 ⟨parts.flatten.toArray⟩ = parts.foldl (List.foldl step) 0xffffffff ^^^ 0xffffffff := by
  rw [crc32, List.foldl_toArray, List.foldl_flatten]

end BytecodeLint.Checksum
