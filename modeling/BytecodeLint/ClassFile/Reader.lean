import BytecodeLint.Bytes

/-!
# Reading the structure of a class file

A reader goes through the bytes of a class file from the front.  Its
state is the position of the next byte.

`ImageFault` lists the reasons for which bytes are no class file.  Two of
them tell how far the bytes reach.  A number that does not fit is
reported with the position at which it starts, and a block of bytes that
does not fit with the position at which it would end.
-/

namespace BytecodeLint.ClassFile

/-! ## Faults -/

/-- Why bytes do not have the structure of a class file. -/
inductive ImageFault
  | shortNumber (position size : Nat)
  | shortBlock (bound size : Nat)
  | unknownTag (tag : Nat)
  /-- An index outside the constant pool. -/
  | missingElement (index : Nat)
  | unknownAttribute (name : String)
  | unknownFrame (type : Nat)
  | unknownVerificationType (tag : Nat)
  | unknownElementValue (tag : Nat)
  | unknownTarget (type : Nat)
  /-- Bytes are left after the class. -/
  | leftover (size position : Nat)
  deriving DecidableEq, Repr

def ImageFault.message : ImageFault → String
  | shortNumber position size =>
    "overflow : attempt to read from " ++ toString position ++ " whereas len is " ++
      toString size
  | shortBlock bound size =>
    "Index out of bounds: " ++ toString bound ++ " of " ++ toString size
  | unknownTag tag => "unmatched tag: " ++ toString tag
  | missingElement index => "element not found at index " ++ toString index
  | unknownAttribute name => "unmatched attribute: " ++ name
  | unknownFrame type => "Unsupported frame_type: " ++ toString type
  | unknownVerificationType tag => "tag " ++ toString tag ++ " is not valid"
  | unknownElementValue tag => "Unsupported element tag: " ++ toString tag
  | unknownTarget type => "Unsupported target_type: " ++ toString type
  | leftover size position =>
    "Not all was read : data.len() is " ++ toString size ++ ", start_from is " ++
      toString position

/-! ## Readers -/

/-- A computation that reads bytes from a position on. -/
abbrev Reader := ReaderT ByteArray (StateT Nat (Except ImageFault))

namespace Reader

/-- An unsigned number of `width` bytes. -/
def number (width : Nat) : Reader Nat := do
  let data ← read
  let position ← get
  if data.size < position + width then
    throw (.shortNumber position data.size)
  set (position + width)
  return bigEndian (data.extract position (position + width)).toList

/-- Faults unless `size` more bytes are there. -/
def requireBlock (size : Nat) : Reader Unit := do
  let data ← read
  let position ← get
  if data.size < position + size then
    throw (.shortBlock (position + size) data.size)

/-- A block of `size` bytes. -/
def block (size : Nat) : Reader (List UInt8) := do
  requireBlock size
  let position ← get
  set (position + size)
  return ((← read).extract position (position + size)).toList

/-- Reads the same thing `count` times. -/
def times {α : Type} (count : Nat) (item : Reader α) : Reader (List α) :=
  match count with
  | 0 => return []
  | count + 1 => do
    let first ← item
    let rest ← times count item
    return first :: rest

/-- A number of two bytes, and then that many items. -/
def counted {α : Type} (item : Reader α) : Reader (List α) := do
  times (← number 2) item

/-- Skips `count` numbers of `width` bytes. -/
def skip (count width : Nat) : Reader Unit := do
  let _ ← times count (number width)

/-- Skips a number of two bytes, and then that many items. -/
def skipCounted {α : Type} (item : Reader α) : Reader Unit := do
  let _ ← counted item

end Reader

end BytecodeLint.ClassFile
