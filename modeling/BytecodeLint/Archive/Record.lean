import BytecodeLint.Bytes
import BytecodeLint.Hex

/-!
# Records of archives

A ZIP archive holds records of five kinds.  Each starts with a mark of
four bytes, and its first bytes have a fixed meaning.

`ArchiveFault` lists the reasons for which bytes are refused.  There are
four groups of them.

* `Defect`: the bytes break a rule of the format.
* `Lack`: the bytes follow the rules, but the reader cannot do what they
  ask for.
* `Breakdown`: the reading itself cannot go on.
* An entry is not there, or its content is not what the archive says.
-/

namespace BytecodeLint

/-! ## Records -/

namespace Archive

inductive Record
  /-- Stands in front of the content of an entry. -/
  | entryHeader
  /-- Describes an entry in the directory. -/
  | directoryHeader
  /-- Tells where the directory is. -/
  | endRecord
  /-- Tells the same with wide numbers. -/
  | wideEndRecord
  /-- Tells where the wide end record is. -/
  | locator
  deriving DecidableEq, Repr

namespace Record

/-- The number that the first four bytes spell. -/
def mark : Record → Nat
  | entryHeader => 0x04034b50
  | directoryHeader => 0x02014b50
  | endRecord => 0x06054b50
  | wideEndRecord => 0x06064b50
  | locator => 0x07064b50

/-- The number of bytes with a fixed meaning. -/
def size : Record → Nat
  | entryHeader => 30
  | directoryHeader => 46
  | endRecord => 22
  | wideEndRecord => 56
  | locator => 20

def name : Record → String
  | entryHeader => "ZipLocalEntryBlock"
  | directoryHeader => "ZipCentralEntryBlock"
  | endRecord => "Zip32CDEBlock"
  | wideEndRecord => "Zip64CDEBlock"
  | locator => "Zip64CDELocatorBlock"

end Record

/-! ## Faults -/

/-- A rule of the format that the bytes break. -/
inductive Defect
  /-- The bytes end inside the record. -/
  | cut (record : Record)
  | unmarked (record : Record)
  | noEndRecord
  | cutComment
  /-- The directory would start behind its end record. -/
  | lateDirectory
  /-- An end record tells of entries, but no directory is there. -/
  | noDirectory
  /-- The wide end record would start behind its locator. -/
  | lateWideEnd
  | noWideEnd
  | shortWideEnd
  | longWideEnd
  /-- The wide end record does not reach up to its locator. -/
  | gapBehindWideEnd
  /-- Locator and wide end record name different disks. -/
  | otherDisk
  /-- So many entries do not fit in front of the wide end record. -/
  | tooManyEntries
  | severalDisks
  | moreEntriesHere
  /-- The bytes end inside a name, an extra field or a comment. -/
  | cutField
  | cutExtra
  /-- The bytes end before the length of an extra field of a known kind. -/
  | cutExtraHeader (kind : Nat)
  | cutWide
  | wideLength
  | shortUnicode
  /-- A spelling belongs to a text with another checksum. -/
  | otherUnicode (recorded computed : Nat)
  | badUnicode
  | cipherVendor
  | cipherVersion
  | cipherStrength
  /-- The content is enciphered, but nothing tells how. -/
  | noCipher
  | lateEntry
  deriving DecidableEq, Repr

def Defect.text : Defect → String
  | cut record => "Unexpected end of zip::spec::" ++ record.name
  | unmarked .entryHeader => "Invalid local file header"
  | unmarked .directoryHeader => "Invalid Central Directory header"
  | unmarked .locator => "Invalid zip64 locator digital signature header"
  | unmarked _ => "Invalid digital signature header"
  | noEndRecord => "Could not find EOCD"
  | cutComment => "EOCD comment exceeds file boundary"
  | lateDirectory => "Invalid CDFH offset in EOCD"
  | noDirectory => "No CDFH found"
  | lateWideEnd => "Invalid EOCD64 Locator CD offset"
  | noWideEnd => "Could not find EOCD64"
  | shortWideEnd => "Low EOCD64 record size"
  | longWideEnd => "EOCD64 extends beyond EOCD64 locator"
  | gapBehindWideEnd => "Invalid EOCD64: inconsistent length"
  | otherDisk => "Invalid EOCD64: inconsistency with Locator data"
  | tooManyEntries => "Invalid EOCD64: inconsistent number of files"
  | severalDisks => "Multi-disk ZIP files are not supported"
  | moreEntriesHere =>
    "ZIP64 footer indicates more files on this disk than in the whole archive"
  | cutField => "Variable-length field extends beyond file boundary"
  | cutExtra => "Extra field content truncated"
  | cutExtraHeader kind => "Extra field 0x" ++ Hex.upper 4 kind ++ " header truncated"
  | cutWide => "ZIP64 extra field truncated"
  | wideLength => "ZIP64 extra-data field is the wrong length"
  | shortUnicode => "Unicode extra field is too small"
  | otherUnicode recorded computed =>
    "CRC32 checksum failed on Unicode extra field, it is '0x" ++ Hex.upper 6 recorded ++
      "' and it should be '0x" ++ Hex.upper 6 computed ++ "'"
  | badUnicode => "Invalid UTF-8"
  | cipherVendor => "Invalid AES vendor"
  | cipherVersion => "Invalid AES vendor version"
  | cipherStrength => "Invalid AES encryption strength"
  | noCipher => "AES encryption without AES extra data field"
  | lateEntry => "Archive header is too large"

/-- Something that the reader cannot do. -/
inductive Lack
  | severalDisks
  | password
  | compression
  | cipherLength
  | timesLength
  | timesTag
  | timesSize
  deriving DecidableEq, Repr

def Lack.text : Lack → String
  | severalDisks => "Support for multi-disk files is not implemented"
  | password => "Password required to decrypt file"
  | compression => "Compression method not supported"
  | cipherLength => "AES extra data field has an unsupported length"
  | timesLength => "NTFS extra field has an unsupported length"
  | timesTag => "NTFS extra field has an unsupported attribute tag"
  | timesSize => "NTFS extra field has an unsupported attribute size"

/-- Why the reading itself cannot go on. -/
inductive Breakdown
  /-- The bytes end inside an extra field. -/
  | cut
  /-- No file can have bytes at the position. -/
  | farPosition
  /-- The length of an extra field with times does not fit the times that
  its flags announce. -/
  | stampLength (length flags : Nat)
  deriving DecidableEq, Repr

def Breakdown.text : Breakdown → String
  | cut => "failed to fill whole buffer"
  | farPosition => "Invalid argument (os error 22)"
  | stampLength length flags =>
    "flags and len don't match in extended timestamp field len=" ++ toString length ++
      " flags=" ++ String.ofList ((Nat.toDigits 2 flags).leftpad 8 '0')

end Archive

/-- Why bytes are refused as an archive, or as the content of an entry. -/
inductive ArchiveFault
  | invalid (defect : Archive.Defect)
  | unsupported (lack : Archive.Lack)
  | broken (breakdown : Archive.Breakdown)
  | wrongPassword
  | missingEntry
  /-- The content cannot be unpacked. -/
  | spoiled (text : String)
  | badChecksum
  deriving DecidableEq, Repr

def ArchiveFault.message : ArchiveFault → String
  | invalid defect => "invalid Zip archive: " ++ defect.text
  | unsupported lack => "unsupported Zip archive: " ++ lack.text
  | broken breakdown => "i/o error: " ++ breakdown.text ++ ": " ++ breakdown.text
  | wrongPassword => "provided password is incorrect"
  | missingEntry => "specified file not found in archive"
  | spoiled text => text
  | badChecksum => "Invalid checksum"

/-! ## Reading -/

namespace Archive

/-- The number of `width` bytes at a position. -/
def number (data : ByteArray) (position width : Nat) : Nat :=
  littleEndian (data.extract position (position + width)).toList

namespace Record

/-- The mark of the record stands at the position. -/
def isMarked (record : Record) (data : ByteArray) (position : Nat) : Bool :=
  number data position 4 == record.mark

/-- Faults unless the record stands at the position. -/
def require (record : Record) (data : ByteArray) (position : Nat) : Except ArchiveFault Unit :=
  if data.size < position + record.size then .error (.invalid (.cut record))
  else if record.isMarked data position then .ok ()
  else .error (.invalid (.unmarked record))

/-- The first mark of the record among `count` positions. -/
def first? (record : Record) (data : ByteArray) (start : Nat) : Nat → Option Nat
  | 0 => none
  | count + 1 =>
    if record.isMarked data start then some start else record.first? data (start + 1) count

end Record

end Archive

end BytecodeLint
