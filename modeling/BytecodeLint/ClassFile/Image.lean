import BytecodeLint.ClassFile.Attribute
import BytecodeLint.ClassFile.Text

/-!
# The structure of a class file

`ClassImage` is a class file taken apart: its constant pool, and its
fields and methods with indices into the pool.  Nothing is resolved yet.
-/

namespace BytecodeLint.ClassFile

open Reader

/-! ## The constant pool -/

/-- An entry of the constant pool, after its tag. -/
def taggedEntry (tag : Nat) : Reader PoolEntry := do
  match tag with
  | 1 => return .utf8 (decodeText (← block (← number 2)))
  | 3 => return .int (Int32.ofNat (← number 4))
  | 4 => return .float (UInt32.ofNat (bigEndian (← block 4)))
  | 5 => return .long (Int64.ofNat (← number 8))
  | 6 => return .double (UInt64.ofNat (bigEndian (← block 8)))
  | 7 => return .type (← number 2)
  | 8 => return .string (← number 2)
  | 9 => return .field (← number 2) (← number 2)
  | 10 => return .method (← number 2) (← number 2)
  | 11 => return .interfaceMethod (← number 2) (← number 2)
  | 12 => return .nameAndType (← number 2) (← number 2)
  | 15 => return .methodHandle (← number 1) (← number 2)
  | 16 => return .methodType (← number 2)
  | 17 => return .dynamic (← number 2) (← number 2)
  | 18 => return .dynamicCall (← number 2) (← number 2)
  | 19 => return .module (← number 2)
  | 20 => return .package (← number 2)
  | _ => throw (.unknownTag tag)

/-- Reads `count` slots of the pool behind the slots read so far.  The
slot after a wide literal is empty and takes no bytes. -/
def poolSlots : (count : Nat) → ConstantPool → Reader ConstantPool
  | 0, pool => return pool
  | count + 1, pool =>
    if pool.isEmpty || pool.back?.any PoolEntry.isWide then
      poolSlots count (pool.push .empty)
    else do
      let entry ← taggedEntry (← number 1)
      poolSlots count (pool.push entry)

def constantPool : Reader ConstantPool := do
  poolSlots (← number 2) #[]

/-! ## Members and classes -/

/-- A field or a method. -/
structure MemberImage where
  flags : Nat
  name : Nat
  descriptor : Nat
  attributes : List Attribute
  deriving DecidableEq, Repr

namespace MemberImage

def isStatic (member : MemberImage) : Bool :=
  member.flags.testBit 3

end MemberImage

structure ClassImage where
  pool : ConstantPool
  thisClass : Nat
  fields : List MemberImage
  methods : List MemberImage
  deriving DecidableEq, Repr

def memberImage (pool : ConstantPool) : Reader MemberImage := do
  return {
    flags := ← number 2
    name := ← number 2
    descriptor := ← number 2
    attributes := ← attributes pool (← read).size }

def classImage : Reader ClassImage := do
  -- The magic number and the version.
  skip 1 4
  skip 2 2
  let pool ← constantPool
  skip 1 2
  let thisClass ← number 2
  skip 1 2
  -- The interfaces.
  skipCounted (skip 1 2)
  let fields ← counted (memberImage pool)
  let methods ← counted (memberImage pool)
  discard (attributes pool (← read).size)
  return { pool, thisClass, fields, methods }

/-- Takes a class file apart.  No byte may be left over. -/
def ClassImage.read (data : ByteArray) : Except ImageFault ClassImage := do
  let (image, position) ← (classImage.run data).run 0
  if position = data.size then
    return image
  else
    throw (.leftover data.size position)

end BytecodeLint.ClassFile
