import BytecodeLint.Archive.Deflate
import BytecodeLint.Archive.Directory
import Std.Data.HashMap
import Std.Data.HashSet

/-!
# Archives

Reads the entries of a ZIP archive.  The directory of the archive tells
where the entries are, and every entry has a header of its own before its
content.

Entries are told apart by the bytes of their names.  If the directory
has the same bytes more than once, the last header counts.  `contentOf`
looks for the bytes that spell a name in UTF-8, so it may miss an entry
whose name is spelled in another way.

The content of an entry may be packed in one of several ways.  How it is
unpacked is a parameter, an `Unpacker`, and `unpack` is the one that a run
uses.

There are three groups.

* `distinct` keeps one header for every name.
* `Archive.entries` lists the entries.
* Contents: `Unpacker` and `Archive.contentOf`.
-/

namespace BytecodeLint.Archive

/-! ## Names -/

/-- Goes through headers and puts in their place what a table has for
their names.  A name that was seen before is left out. -/
def firstOfEach (table : Std.HashMap (List UInt8) Header) (seen : Std.HashSet (List UInt8)) :
    List Header → List Header
  | [] => []
  | header :: rest =>
    if seen.contains header.nameBytes then
      firstOfEach table seen rest
    else
      table.getD header.nameBytes header ::
        firstOfEach table (seen.insert header.nameBytes) rest

/-- Of the headers with the same name, the last one, where the first one
stands. -/
def distinct (headers : List Header) : List Header :=
  firstOfEach (.ofList (headers.map fun header => (header.nameBytes, header))) ∅ headers

/-! ## Entries -/

structure Entry where
  name : String
  /-- The bytes that spell the name. -/
  nameBytes : List UInt8
  flags : Nat
  packing : Packing
  /-- The bytes in the archive. -/
  packed : ByteArray
  /-- The number of bytes that the archive records for the content. -/
  fullSize : Nat
  /-- The checksum that the archive records for the content. -/
  checksum : UInt32

/-- What a header tells of an entry, whether the entry can be had or not. -/
def Header.located (data : ByteArray) (header : Header) : Entry :=
  let start := header.position + Record.entryHeader.size +
    number data (header.position + 26) 2 + number data (header.position + 28) 2
  { name := header.name
    nameBytes := header.nameBytes
    flags := header.flags
    packing := header.packing
    packed := data.extract start (min (start + header.size) data.size)
    fullSize := header.fullSize
    checksum := header.checksum }

/-- The entry that a header tells of.  The packing must be a known one,
also if the content is not wanted. -/
def Header.entry (data : ByteArray) (header : Header) : Except ArchiveFault Entry := do
  if header.isLocked then
    throw (.unsupported .password)
  if 0x7fffffffffffffff < header.position + Record.entryHeader.size then
    throw (.broken .farPosition)
  Record.entryHeader.require data header.position
  if header.packing = .unknown then
    throw (.unsupported .compression)
  if header.hasCipher then
    throw .wrongPassword
  return header.located data

/-- The entries of an archive, in the order of its directory. -/
def entries (data : ByteArray) : Except ArchiveFault (List Entry) := do
  (distinct (← headers data)).mapM (·.entry data)

/-! ## Contents -/

/-- A way to unpack the contents of entries that are not stored as they are, or
the text of a fault.  It may look at all that the archive tells of an entry. -/
abbrev Unpacker := Entry → Except String ByteArray

/-- Unpacks contents that are packed in the most common way. -/
def unpack : Unpacker := fun entry =>
  if entry.packing = .packed 8 then Deflate.inflate entry.packed
  else .error Lack.compression.text

/-- The content of an entry, if its checksum is right. -/
def Entry.content (unpack : Unpacker) (entry : Entry) : Except ArchiveFault ByteArray := do
  let content ← if entry.packing = .stored then .ok entry.packed
    else (unpack entry).mapError .spoiled
  if Checksum.crc32 content ≠ entry.checksum then
    throw .badChecksum
  return content

/-- A content that is stored as it is needs no unpacker. -/
theorem Entry.content_of_stored {unpack : Unpacker} {entry : Entry}
    (hpacking : entry.packing = .stored)
    (hchecksum : Checksum.crc32 entry.packed = entry.checksum) :
    entry.content unpack = .ok entry.packed := by
  unfold Entry.content
  rw [if_pos hpacking]
  exact if_neg (not_not_intro hchecksum)

/-- The entries by the bytes of their names. -/
def index (entries : List Entry) : Std.HashMap (List UInt8) Entry :=
  .ofList (entries.map fun entry => (entry.nameBytes, entry))

/-- The content of the entry with a name. -/
def contentOf (unpack : Unpacker) (index : Std.HashMap (List UInt8) Entry) (name : String) :
    Except ArchiveFault ByteArray :=
  match index[name.toUTF8.toList]? with
  | some entry => entry.content unpack
  | none => .error .missingEntry

end BytecodeLint.Archive
