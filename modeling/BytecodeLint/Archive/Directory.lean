import BytecodeLint.Archive.Header

/-!
# The directory of an archive

An archive is read from its end.  An end record tells where the directory
is, counted from the start of the archive.  Other bytes may stand in front
of the archive, so the first mark of a directory from there on is taken.

The mark of an end record may also occur inside other data.  `headers`
tries the marks from the last one to the first one, and takes the first
directory that can be read.

There are four groups.

* `EndRecord` is what an end record tells, with narrow or wide numbers.
* Wide end records.
* The place of the directory.
* Attempts, and `headers`.
-/

namespace BytecodeLint.Archive

/-! ## End records -/

/-- What an end record tells about the directory. -/
structure EndRecord where
  /-- The numbers stand in a wide end record. -/
  isWide : Bool
  disk : Nat
  directoryDisk : Nat
  /-- The number of entries on this disk. -/
  countHere : Nat
  count : Nat
  /-- The number of bytes of the directory. -/
  size : Nat
  /-- Where the directory is, from the start of the archive. -/
  offset : Nat
  deriving DecidableEq, Repr

namespace EndRecord

/-- Reads an end record with the comment behind it. -/
def read (data : ByteArray) (position : Nat) : Except ArchiveFault EndRecord := do
  Record.endRecord.require data position
  if data.size < position + Record.endRecord.size + number data (position + 20) 2 then
    throw (.invalid .cutComment)
  return {
    isWide := false
    disk := number data (position + 4) 2
    directoryDisk := number data (position + 6) 2
    countHere := number data (position + 8) 2
    count := number data (position + 10) 2
    size := number data (position + 12) 4
    offset := number data (position + 16) 4 }

/-- A number of the record may be too narrow. -/
def isFull (record : EndRecord) : Bool :=
  record.count == 0xffff || record.size == 0xffffffff || record.offset == 0xffffffff

/-! ## Wide end records -/

/-- Reads the wide end record in front of a locator.  The length that it
records leaves out its first twelve bytes.  It may be four bytes short,
and then its last number runs into what follows. -/
def readWide (data : ByteArray) (locator position : Nat) : Except ArchiveFault EndRecord := do
  Record.wideEndRecord.require data position
  let room := locator - position
  let length := number data (position + 4) 8 + 12
  if length + 4 < Record.wideEndRecord.size then
    throw (.invalid .shortWideEnd)
  if room < length then
    throw (.invalid .longWideEnd)
  if number data (position + 20) 4 ≠ number data (locator + 4) 4 then
    throw (.invalid .otherDisk)
  if length ≠ room then
    throw (.invalid .gapBehindWideEnd)
  let record : EndRecord := {
    isWide := true
    disk := number data (position + 16) 4
    directoryDisk := number data (position + 20) 4
    countHere := number data (position + 24) 8
    count := number data (position + 32) 8
    size := number data (position + 40) 8
    offset := number data (position + 48) 8 }
  if position < record.count * Record.directoryHeader.size + record.offset then
    throw (.invalid .tooManyEntries)
  return record

/-- The first wide end record among `count` positions, with its position.
If there is none, the last fault counts. -/
def searchWide (data : ByteArray) (locator : Nat) (fault : ArchiveFault) (start : Nat) :
    Nat → Except ArchiveFault (EndRecord × Nat)
  | 0 => .error fault
  | count + 1 =>
    if Record.wideEndRecord.isMarked data start then
      match readWide data locator start with
      | .ok record => .ok (record, start)
      | .error next => searchWide data locator next (start + 1) count
    else
      searchWide data locator fault (start + 1) count

/-- The locator in front of an end record. -/
def locator? (data : ByteArray) (position : Nat) : Option Nat :=
  let locator := position - Record.locator.size
  if Record.locator.size ≤ position && Record.locator.isMarked data locator then some locator
  else none

/-! ## The place of the directory -/

/-- What is known of an archive once its directory is found. -/
structure Found where
  record : EndRecord
  /-- The number of bytes in front of the archive. -/
  lead : Nat
  deriving DecidableEq, Repr

/-- Finds the directory by a locator. -/
def findWide (data : ByteArray) (locator : Nat) : Except ArchiveFault Found := do
  let offset := number data (locator + 8) 8
  if locator ≤ offset then
    throw (.invalid .lateWideEnd)
  if 1 < number data (locator + 16) 4 then
    throw (.invalid .severalDisks)
  let (record, position) ←
    searchWide data locator (.invalid .noWideEnd) offset (locator - offset)
  return { record, lead := position - offset }

/-- Finds the directory by an end record with narrow numbers.  Without
entries there is nothing to find. -/
def findNarrow (record : EndRecord) (data : ByteArray) (position : Nat) :
    Except ArchiveFault Found :=
  if record.count = 0 then
    .ok { record, lead := position - record.offset }
  else if position ≤ record.offset then
    .error (.invalid .lateDirectory)
  else
    match Record.directoryHeader.first? data record.offset (position - record.offset) with
    | some start => .ok { record, lead := start - record.offset }
    | none => .error (.invalid .noDirectory)

/-- Finds the directory by an end record at a position. -/
def find (record : EndRecord) (data : ByteArray) (position : Nat) : Except ArchiveFault Found :=
  match if record.isFull then locator? data position else none with
  | some locator => findWide data locator
  | none => record.findNarrow data position

/-- The headers of the directory. -/
def Found.headers (found : Found) (data : ByteArray) : Except ArchiveFault (List Header) := do
  let record := found.record
  if record.isWide ∧ record.count < record.countHere then
    throw (.invalid .moreEntriesHere)
  if record.disk ≠ record.directoryDisk then
    throw (.unsupported .severalDisks)
  Header.readAll data found.lead (record.offset + found.lead)
    (if record.isWide then record.count else record.countHere)

end EndRecord

/-! ## Attempts -/

/-- How far the reading of an archive comes. -/
inductive Stage
  /-- No end record was found. -/
  | search
  /-- The end record itself is at fault. -/
  | endRecord
  /-- The directory is not where the end record says. -/
  | place
  /-- The directory is at fault. -/
  | directory
  deriving DecidableEq, Repr

def Stage.rank : Stage → Nat
  | search => 0
  | endRecord => 1
  | place => 2
  | directory => 3

/-- An attempt that failed. -/
structure Failure where
  stage : Stage
  fault : ArchiveFault
  deriving DecidableEq, Repr

/-- Which of two failures is told, if `next` follows `kept`.  The one that
came further is told.  Of two that came equally far it is the later one,
but of two end records at fault it is the one nearer to the end of the
archive. -/
def Failure.followedBy (kept next : Failure) : Failure :=
  if kept.stage.rank < next.stage.rank then next
  else if kept.stage = next.stage ∧ next.stage ≠ .endRecord then next
  else kept

/-- Reads the directory by the end record at a position. -/
def attempt (data : ByteArray) (position : Nat) : Except Failure (List Header) := do
  let record ← (EndRecord.read data position).mapError (Failure.mk .endRecord)
  let found ← (record.find data position).mapError (Failure.mk .place)
  (found.headers data).mapError (Failure.mk .directory)

/-- Attempts it with the marks below a bound, the last one first. -/
def searchDirectory (data : ByteArray) (kept : Failure) : Nat → Except Failure (List Header)
  | 0 => .error kept
  | bound + 1 =>
    if Record.endRecord.isMarked data bound then
      match attempt data bound with
      | .ok headers => .ok headers
      | .error next => searchDirectory data (kept.followedBy next) bound
    else
      searchDirectory data kept bound

/-- The headers of the directory of an archive. -/
def headers (data : ByteArray) : Except ArchiveFault (List Header) :=
  (searchDirectory data { stage := .search, fault := .invalid .noEndRecord } data.size).mapError
    (·.fault)

end BytecodeLint.Archive
