import BytecodeLint.Instruction
import BytecodeLint.Opcode.Set

/-!
# Classes

A decoded class: its declared fields and its methods with their code.
`Method.lineAt?` finds the source line of an offset, and
`Method.loopHeads` lists the targets of backward jumps.
-/

namespace BytecodeLint

/-! ## Methods -/

/-- The code from the offset `start` on belongs to the source line
`line`, up to the next entry. -/
structure LineEntry where
  start : Nat
  line : Nat
  deriving DecidableEq, Repr

structure Method where
  name : String
  descriptor : String
  /-- The most slots that the operand stack may hold, if it is known. -/
  maxStack : Option Nat
  /-- Empty for a method without a body. -/
  code : List Instruction
  /-- The line entries, by ascending start. -/
  lines : List LineEntry
  /-- The offsets at which exception handlers begin. -/
  handlers : List Nat
  deriving DecidableEq, Repr

namespace Method

def hasBody (method : Method) : Bool :=
  !method.code.isEmpty

def isConstructor (method : Method) : Bool :=
  method.name == "<init>"

def isClassInitializer (method : Method) : Bool :=
  method.name == "<clinit>"

/-- The name and the descriptor, which tell the methods of a class
apart. -/
def signature (method : Method) : String :=
  method.name ++ method.descriptor

def opcodes (method : Method) : OpcodeSet :=
  .ofList (method.code.map (·.opcode))

/-- The source line of an offset.  The entries are read in order up to
the first that starts after the offset, and the last one read counts. -/
def lineAt? (method : Method) (offset : Nat) : Option Nat :=
  (method.lines.takeWhile (·.start ≤ offset)).getLast?.map (·.line)

/-- The targets of jumps that do not go forward. -/
def loopHeads (method : Method) : List Nat :=
  method.code.flatMap Instruction.backwardTargets

def isHandler (method : Method) (offset : Nat) : Bool :=
  method.handlers.contains offset

end Method

/-! ## Classes -/

structure Field where
  name : String
  descriptor : String
  isStatic : Bool
  deriving DecidableEq, Repr

structure Class where
  name : String
  /-- The major version of the class file format. -/
  majorVersion : Nat
  fields : List Field
  methods : List Method
  /-- Where the class was read from, as a URI. -/
  uri : Option String
  deriving DecidableEq, Repr

end BytecodeLint
