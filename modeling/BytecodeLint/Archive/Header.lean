import BytecodeLint.Archive.Name
import BytecodeLint.Archive.Record
import BytecodeLint.Checksum

/-!
# Headers of entries

The directory of an archive has a header for every entry.  The numbers of
a header are narrow.  What does not fit into them stands in extra fields
behind the header, and so do better spellings of its texts.

There are three groups.

* `Header` is what the directory tells about an entry.
* Extra fields.  Each has a kind and a length, and each changes the
  header or is skipped.
* `Header.read` reads a header with its extra fields.
-/

namespace BytecodeLint.Archive

/-! ## Headers -/

/-- How the content of an entry is packed. -/
inductive Packing
  | stored
  /-- In the common way with this number. -/
  | packed (method : Nat)
  /-- The extra field for ciphers tells how. -/
  | enciphered
  | unknown
  deriving DecidableEq, Repr

/-- The packing that a number stands for. -/
def Packing.ofNumber (method : Nat) : Packing :=
  if method = 0 then stored
  else if [8, 9, 12, 14, 93, 95, 98].contains method then packed method
  else if method = 99 then enciphered
  else unknown

structure Header where
  name : String
  /-- The bytes that spell the name.  Entries are told apart by them. -/
  nameBytes : List UInt8
  comment : String
  flags : Nat
  /-- An extra field tells of a cipher. -/
  hasCipher : Bool
  packing : Packing
  checksum : UInt32
  /-- The number of bytes in the archive. -/
  size : Nat
  /-- The number of bytes of the unpacked content. -/
  fullSize : Nat
  /-- Where the header of the entry itself is. -/
  position : Nat
  deriving DecidableEq, Repr

/-- A password is needed. -/
def Header.isLocked (header : Header) : Bool :=
  header.flags.testBit 0

/-! ## Extra fields -/

/-- The kinds of extra fields that are known. -/
inductive ExtraKind
  /-- Wide numbers, for those that do not fit into the header. -/
  | wideNumbers
  /-- The times of an entry, in one of two forms. -/
  | times
  | stamps
  /-- Other spellings of the texts of the header. -/
  | comment
  | name
  /-- How the content is enciphered. -/
  | cipher
  /-- Bytes that move the content to a better place. -/
  | padding
  deriving DecidableEq, Repr

def ExtraKind.ofNumber? : Nat → Option ExtraKind
  | 0x0001 => some wideNumbers
  | 0x000a => some times
  | 0x5455 => some stamps
  | 0x6375 => some comment
  | 0x7075 => some name
  | 0x9901 => some cipher
  | 0xa11e => some padding
  | _ => none

/-- The bytes that are left, and the header as it is known so far. -/
structure ExtraState where
  rest : List UInt8
  header : Header

/-- A computation that reads extra fields. -/
abbrev ExtraReader := StateT ExtraState (Except ArchiveFault)

namespace ExtraReader

def change (f : Header → Header) : ExtraReader Unit :=
  modify fun state => { state with header := f state.header }

/-- Skips the next `count` bytes, as far as they are there. -/
def skip (count : Nat) : ExtraReader Unit :=
  modify fun state => { state with rest := state.rest.drop count }

/-- The next `count` bytes are there. -/
def has (count : Nat) : ExtraReader Bool := do
  return count ≤ (← get).rest.length

/-- The next `count` bytes, or the given fault. -/
def bytes (count : Nat) (fault : ArchiveFault) : ExtraReader (List UInt8) := do
  if !(← has count) then
    throw fault
  let taken := (← get).rest.take count
  skip count
  return taken

def number (width : Nat) : ExtraReader Nat := do
  return littleEndian (← bytes width (.broken .cut))

/-- A number of a header does not fit, so it is left to an extra field. -/
def isLeftOut (value : Nat) : Bool :=
  value == 0xffffffff

def wideNumber : ExtraReader Nat := do
  return littleEndian (← bytes 8 (.invalid .cutWide))

/-- A long field has all wide numbers, and a short one only those that do
not fit into the header. -/
def wideNumbers (length : Nat) : ExtraReader Unit := do
  let bytesBefore := (← get).rest.length
  let isLong := 24 ≤ length
  if isLong || isLeftOut (← get).header.fullSize then
    let fullSize ← wideNumber
    change ({ · with fullSize })
  if isLong || isLeftOut (← get).header.size then
    let size ← wideNumber
    change ({ · with size })
  if isLong || isLeftOut (← get).header.position then
    let position ← wideNumber
    change ({ · with position })
  let used := bytesBefore - (← get).rest.length
  if length < used then
    throw (.invalid .wideLength)
  skip (length - used)

/-- Three times, which do not matter here. -/
def times (length : Nat) : ExtraReader Unit := do
  if length ≠ 32 then
    throw (.unsupported .timesLength)
  let _ ← number 4
  if (← number 2) ≠ 1 then
    throw (.unsupported .timesTag)
  if (← number 2) ≠ 24 then
    throw (.unsupported .timesSize)
  let _ ← bytes 24 (.broken .cut)

/-- Times of four bytes each, which do not matter here.  Every bit of the
flags announces one, but a field with a single time may have any flags. -/
def stamps (length : Nat) : ExtraReader Unit := do
  let flags ← number 1
  let count := ((List.range 8).filter flags.testBit).length
  if length ≠ 5 ∧ length ≠ 1 + 4 * count then
    throw (.broken (.stampLength length flags))
  let _ ← bytes (length - 1) (.broken .cut)

/-- The field for a cipher also tells how the content is packed. -/
def cipher (length : Nat) : ExtraReader Unit := do
  if length ≠ 7 then
    throw (.unsupported .cipherLength)
  let version ← number 2
  let vendor ← number 2
  let strength ← number 1
  if vendor ≠ 0x4541 then
    throw (.invalid .cipherVendor)
  if version ≠ 1 ∧ version ≠ 2 then
    throw (.invalid .cipherVersion)
  if strength = 0 ∨ 3 < strength then
    throw (.invalid .cipherStrength)
  let packing := Packing.ofNumber (← number 2)
  change ({ · with hasCipher := true, packing })

/-- Another spelling of a text.  It holds for the text whose checksum it
has. -/
def spelling (length : Nat) (text : List UInt8) : ExtraReader (List UInt8) := do
  let _ ← number 1
  let recorded ← number 4
  if length < 5 then
    throw (.invalid .shortUnicode)
  let spelled ← bytes (length - 5) (.broken .cut)
  let computed := (Checksum.crc32 (ByteArray.mk text.toArray)).toNat
  if recorded ≠ computed then
    throw (.invalid (.otherUnicode recorded computed))
  return spelled

def unicode (bytes : List UInt8) : ExtraReader String :=
  match String.fromUTF8? (ByteArray.mk bytes.toArray) with
  | some text => return text
  | none => throw (.invalid .badUnicode)

def name (length : Nat) : ExtraReader Unit := do
  let nameBytes ← spelling length (← get).header.nameBytes
  let name ← unicode nameBytes
  change ({ · with nameBytes, name })

def comment (length : Nat) : ExtraReader Unit := do
  let comment ← unicode (← spelling length (← get).header.comment.toUTF8.toList)
  change ({ · with comment })

/-- The content of a field. -/
def content (kind : Option ExtraKind) (length : Nat) : ExtraReader Unit := do
  match kind with
  | some .wideNumbers => wideNumbers length
  | some .times => times length
  | some .stamps => stamps length
  | some .comment => comment length
  | some .name => name length
  | some .cipher => cipher length
  | some .padding | none => let _ ← bytes length (.invalid .cutExtra)

/-- Reads one field.  Too few bytes for a kind and a length do not matter,
unless the kind is known. -/
def field : ExtraReader Unit := do
  if !(← has 2) then
    skip 1
  else
    let kind ← number 2
    if ← has 2 then
      content (ExtraKind.ofNumber? kind) (← number 2)
    else if (ExtraKind.ofNumber? kind).isSome then
      throw (.invalid (.cutExtraHeader kind))
    else
      skip 1

/-- Reads up to `count` fields. -/
def fields : Nat → ExtraReader Unit
  | 0 => return
  | count + 1 => do
    if ← has 1 then
      field
      fields count

end ExtraReader

/-- The header with what its extra fields tell.  A field has at least one
byte, so there are not more fields than bytes. -/
def Header.extend (header : Header) (extra : List UInt8) : Except ArchiveFault Header := do
  let (_, state) ← (ExtraReader.fields extra.length).run { rest := extra, header }
  return state.header

/-! ## Reading -/

/-- Reads the header at a position, and tells where the next one starts.
There are `lead` bytes in front of the archive. -/
def Header.read (data : ByteArray) (lead position : Nat) : Except ArchiveFault (Header × Nat) := do
  Record.directoryHeader.require data position
  let nameStart := position + Record.directoryHeader.size
  let extraStart := nameStart + number data (position + 28) 2
  let commentStart := extraStart + number data (position + 30) 2
  let next := commentStart + number data (position + 32) 2
  if data.size < next then
    throw (.invalid .cutField)
  let flags := number data (position + 8) 2
  let nameBytes := (data.extract nameStart extraStart).toList
  let header : Header := {
    name := decodeText (flags.testBit 11) nameBytes
    nameBytes
    comment := decodeText (flags.testBit 11) (data.extract commentStart next).toList
    flags
    hasCipher := false
    packing := .ofNumber (number data (position + 10) 2)
    checksum := UInt32.ofNat (number data (position + 16) 4)
    size := number data (position + 20) 4
    fullSize := number data (position + 24) 4
    position := number data (position + 42) 4 }
  let header ← header.extend (data.extract extraStart commentStart).toList
  if header.packing = .enciphered ∧ ¬header.hasCipher then
    throw (.invalid .noCipher)
  if 0xffffffffffffffff < header.position + lead then
    throw (.invalid .lateEntry)
  return ({ header with position := header.position + lead }, next)

/-- Reads headers, one behind the other. -/
def Header.readAll (data : ByteArray) (lead position : Nat) :
    Nat → Except ArchiveFault (List Header)
  | 0 => .ok []
  | count + 1 => do
    let (header, next) ← Header.read data lead position
    return header :: (← Header.readAll data lead next count)

end BytecodeLint.Archive
