/-!
# Deflated content

The content of an entry is most often packed in this way.  Packed content is a
row of bits, the lowest bit of each byte first, and the bits are split into
blocks.  A block is stored as it is, or it is a row of words.  A word stands for
a byte, or it tells to copy what was unpacked before.  The words are those of two
prefix codes, which are fixed or are told at the start of the block.

There are five groups.

* `Inflater` is a computation that takes bits and gives bytes.
* `Tree` is a prefix code.  `Tree.ofLengths?` makes it from the lengths of its
  words.
* Words.
* Blocks.
* `inflate`.
-/

namespace BytecodeLint.Archive.Deflate

/-! ## Bits -/

/-- The bits that are left, and what has been unpacked so far. -/
structure State where
  bits : List Bool
  content : ByteArray

/-- Why the unpacking ends before the last block does. -/
inductive Stop
  /-- No bits are left. -/
  | cut
  /-- The bits break a rule. -/
  | corrupt
  deriving DecidableEq, Repr

/-- What has been unpacked is kept, however the computation ends. -/
abbrev Inflater := ExceptT Stop (StateM State)

def bitsOf (byte : UInt8) : List Bool :=
  (List.range 8).map byte.toNat.testBit

def bit : Inflater Bool := do
  match (← get).bits with
  | [] => throw .cut
  | first :: rest =>
    modify ({ · with bits := rest })
    return first

/-- The number that the next `count` bits spell, the lowest bit first. -/
def number : Nat → Inflater Nat
  | 0 => return 0
  | count + 1 => do
    let low ← bit
    return low.toNat + 2 * (← number count)

/-- Goes on at the next byte. -/
def align : Inflater Unit :=
  modify fun state => { state with bits := state.bits.drop (state.bits.length % 8) }

def put (byte : UInt8) : Inflater Unit :=
  modify fun state => { state with content := state.content.push byte }

/-! ## Prefix codes -/

inductive Tree
  /-- No word begins like this. -/
  | none
  /-- The end of a word. -/
  | word (symbol : Nat)
  | fork (zero one : Tree)
  deriving DecidableEq, Repr

namespace Tree

/-- Reads a word. -/
def read : Tree → Inflater Nat
  | none => throw .corrupt
  | word symbol => return symbol
  | fork zero one => do
    if ← bit then one.read else zero.read

/-- Every row of bits begins with a word. -/
def isFull : Tree → Bool
  | none => false
  | word _ => true
  | fork zero one => zero.isFull && one.isFull

/-- Joins neighbours. -/
def pairs : List Tree → List Tree
  | zero :: one :: rest => fork zero one :: pairs rest
  | [zero] => [fork zero none]
  | [] => []

/-- The trees at a depth, from left to right, if there are `count` depths from
there on.  The words that end at the depth come first, in the order of their
symbols. -/
def level (lengths : List Nat) (depth : Nat) : Nat → List Tree
  | 0 => []
  | count + 1 =>
    (lengths.zipIdx.filter (·.1 = depth)).map (word ·.2) ++ pairs (level lengths (depth + 1) count)

/-- The greatest length of a word. -/
def maxLength : Nat := 15

/-- The code in which symbol `i` has a word of the `i`-th length, and no word if
this is zero.  All rows of bits must be used, unless no word has more than one
bit. -/
def ofLengths? (lengths : List Nat) : Option Tree :=
  match pairs (level lengths 1 maxLength) with
  | [] => some none
  | [tree] => if tree.isFull || lengths.all (· ≤ 1) then some tree else Option.none
  | _ => Option.none

end Tree

def tree (lengths : List Nat) : Inflater Tree :=
  match Tree.ofLengths? lengths with
  | some tree => return tree
  | none => throw .corrupt

/-! ## Words -/

/-- The number that a symbol stands for.  The first symbols stand for themselves.
Then the numbers of `width` symbols each have one bit more. -/
def stepped (width symbol : Nat) : Inflater Nat := do
  if symbol < width then
    return symbol
  else
    let extra := symbol / width - 1
    return ((width + symbol % width) <<< extra) + (← number extra)

/-- The number of bytes to copy.  The last symbol stands for one length. -/
def copyLength (symbol : Nat) : Inflater Nat := do
  if symbol < 28 then
    return 3 + (← stepped 4 symbol)
  else if symbol = 28 then
    return 258
  else
    throw .corrupt

/-- How far back the bytes to copy are. -/
def copyDistance (symbol : Nat) : Inflater Nat := do
  if symbol < 30 then
    return 1 + (← stepped 2 symbol)
  else
    throw .corrupt

/-- Copies bytes one by one, so a copied byte may be copied again. -/
def State.copy (state : State) (distance : Nat) : Nat → State
  | 0 => state
  | count + 1 =>
    let byte := state.content[state.content.size - distance]?.getD 0
    State.copy { state with content := state.content.push byte } distance count

/-- Reads up to `count` words, until the one that ends the block. -/
def words (literals distances : Tree) : Nat → Inflater Unit
  | 0 => throw .cut
  | count + 1 => do
    let symbol ← literals.read
    if symbol < 256 then
      put (UInt8.ofNat symbol)
      words literals distances count
    else if symbol = 256 then
      return
    else
      let length ← copyLength (symbol - 257)
      let distance ← copyDistance (← distances.read)
      if (← get).content.size < distance then
        throw .corrupt
      modify (·.copy distance length)
      words literals distances count

/-- A word has at least one bit, so there are not more words than bits. -/
def allWords (literalLengths distanceLengths : List Nat) : Inflater Unit := do
  let literals ← tree literalLengths
  let distances ← tree distanceLengths
  words literals distances ((← get).bits.length + 1)

/-! ## Blocks -/

def bytes : Nat → Inflater Unit
  | 0 => return
  | count + 1 => do
    put (UInt8.ofNat (← number 8))
    bytes count

/-- A block that is stored as it is.  Its length is told twice. -/
def storedBlock : Inflater Unit := do
  align
  let length ← number 16
  if length + (← number 16) ≠ 0xffff then
    throw .corrupt
  bytes length

def fixedLiterals : List Nat :=
  List.replicate 144 8 ++ List.replicate 112 9 ++ List.replicate 24 7 ++ List.replicate 8 8

def fixedDistances : List Nat :=
  List.replicate 32 5

/-- The lengths of words are told by words of a third code.  This is the order in
which the lengths of its own words are told. -/
def lengthOrder : List Nat :=
  [16, 17, 18, 0, 8, 7, 9, 6, 10, 5, 11, 4, 12, 3, 13, 2, 14, 1, 15]

def numbers (width : Nat) : Nat → Inflater (List Nat)
  | 0 => return []
  | count + 1 => do
    let first ← number width
    return first :: (← numbers width count)

/-- Reads lengths until there are `total` of them, with the last one in front of
`found`.  A word tells one length or repeats one, so there are not more words than
lengths. -/
def lengths (code : Tree) (total : Nat) (found : List Nat) : Nat → Inflater (List Nat)
  | 0 => throw .corrupt
  | count + 1 => do
    if found.length = total then
      return found.reverse
    if total < found.length then
      throw .corrupt
    let symbol ← code.read
    if symbol < 16 then
      lengths code total (symbol :: found) count
    else if symbol = 16 then
      match found with
      | [] => throw .corrupt
      | last :: _ =>
        let times ← number 2
        lengths code total (List.replicate (3 + times) last ++ found) count
    else
      let times ← if symbol = 17 then (3 + ·) <$> number 3 else (11 + ·) <$> number 7
      lengths code total (List.replicate times 0 ++ found) count

/-- A block that tells its codes.  There must be a word that ends it. -/
def toldBlock : Inflater Unit := do
  let literalCount := 257 + (← number 5)
  let distanceCount := 1 + (← number 5)
  let told := lengthOrder.zip (← numbers 3 (4 + (← number 4)))
  if 286 < literalCount ∨ 30 < distanceCount then
    throw .corrupt
  let code ← tree ((List.range 19).map fun symbol => (told.lookup symbol).getD 0)
  let total := literalCount + distanceCount
  let lengths ← lengths code total [] (total + 1)
  if lengths[256]? = some 0 then
    throw .corrupt
  allWords (lengths.take literalCount) (lengths.drop literalCount)

/-- Reads up to `count` blocks, until the last one. -/
def blocks : Nat → Inflater Unit
  | 0 => throw .cut
  | count + 1 => do
    let isLast ← bit
    match ← number 2 with
    | 0 => storedBlock
    | 1 => allWords fixedLiterals fixedDistances
    | 2 => toldBlock
    | _ => throw .corrupt
    unless isLast do
      blocks count

/-! ## Content -/

/-- The content that some bytes stand for.  If they end too early, it is what could
be unpacked.  A block has at least three bits, so there are not more blocks than
bits. -/
def inflate (data : ByteArray) : Except String ByteArray :=
  let bits := data.data.toList.flatMap bitsOf
  match (blocks bits.length).run.run { bits, content := .empty } with
  | (.error .corrupt, _) => .error "corrupt deflate stream"
  | (_, state) => .ok state.content

/-- A block with the fixed codes: three bytes, and a copy that runs into itself. -/
example : (inflate ⟨#[0xcb, 0x48, 0xcc, 0x80, 0x43, 0]⟩).toOption = some "hahahahahaha".toUTF8 := by
  decide +kernel

end BytecodeLint.Archive.Deflate
