import BytecodeLint.Constant

/-!
# Constant pools

The constant pool of a class holds the texts, literals and references
that the rest of the class names by index.  An entry may itself refer to
other entries.

There are three groups.

* `PoolEntry` and `ConstantPool` are the data.
* `PoolFault` lists the ways in which a reference fails: an index outside
  the pool, or an entry of another kind, on the way to some part of what
  was asked for.
* The lookups.
-/

namespace BytecodeLint

/-! ## Entries -/

/-- An entry of a constant pool.  The numbers are indices into the same
pool, except for the kind of a method handle and the index of a bootstrap
method. -/
inductive PoolEntry
  /-- The first slot, and the slot after a wide literal. -/
  | empty
  | utf8 (text : String)
  | int (value : Int32)
  | float (bits : UInt32)
  | long (value : Int64)
  | double (bits : UInt64)
  | type (name : Nat)
  | string (text : Nat)
  | field (owner nameAndType : Nat)
  | method (owner nameAndType : Nat)
  | interfaceMethod (owner nameAndType : Nat)
  | nameAndType (name descriptor : Nat)
  | methodHandle (kind reference : Nat)
  | methodType (descriptor : Nat)
  | dynamic (bootstrap nameAndType : Nat)
  | dynamicCall (bootstrap nameAndType : Nat)
  | module (name : Nat)
  | package (name : Nat)
  deriving DecidableEq, Repr

namespace PoolEntry

/-- The entry takes two slots of the pool. -/
def isWide : PoolEntry → Bool
  | long _ | double _ => true
  | _ => false

end PoolEntry

abbrev ConstantPool := Array PoolEntry

/-! ## Faults -/

/-- The kind of entry that a reference needs. -/
inductive NeededEntry
  | type
  | utf8
  | member
  | dynamicCall
  | nameAndType
  | constant
  deriving DecidableEq, Repr

def NeededEntry.name : NeededEntry → String
  | type => "class entry"
  | utf8 => "utf8 entry"
  | member => "member ref entry"
  | dynamicCall => "invokedynamic entry"
  | nameAndType => "name and type entry"
  | constant => "constant pool entry"

/-- A part of the member that an entry names. -/
inductive MemberPart
  | owner
  | name
  | descriptor
  deriving DecidableEq, Repr

def MemberPart.action : MemberPart → String
  | owner => "resolve owner"
  | name => "resolve member name"
  | descriptor => "resolve member descriptor"

/-- Why a reference into the pool fails. -/
inductive PoolFault
  /-- The index lies outside the pool. -/
  | missing (needed : NeededEntry)
  /-- The entry is of another kind. -/
  | unexpected (needed : NeededEntry)
  | inMember (part : MemberPart) (cause : PoolFault)
  deriving DecidableEq, Repr

def PoolFault.message : PoolFault → String
  | missing needed => "missing " ++ needed.name
  | unexpected needed => "unexpected " ++ needed.name
  | inMember part cause => part.action ++ ": " ++ cause.message

/-! ## Lookups -/

/-- A field or method, by its class, its name and its type. -/
structure Member where
  owner : String
  name : String
  descriptor : String
  deriving DecidableEq, Repr

namespace ConstantPool

def entry (pool : ConstantPool) (needed : NeededEntry) (index : Nat) :
    Except PoolFault PoolEntry :=
  match pool[index]? with
  | some entry => .ok entry
  | none => .error (.missing needed)

def text (pool : ConstantPool) (index : Nat) : Except PoolFault String := do
  match ← pool.entry .utf8 index with
  | .utf8 text => .ok text
  | _ => .error (.unexpected .utf8)

def className (pool : ConstantPool) (index : Nat) : Except PoolFault String := do
  match ← pool.entry .type index with
  | .type name => pool.text name
  | _ => .error (.unexpected .type)

/-- The name and the descriptor that an entry joins. -/
def nameAndType (pool : ConstantPool) (index : Nat) : Except PoolFault (String × String) := do
  match ← pool.entry .nameAndType index with
  | .nameAndType name descriptor =>
    let name ← (pool.text name).mapError (.inMember .name)
    let descriptor ← (pool.text descriptor).mapError (.inMember .descriptor)
    .ok (name, descriptor)
  | _ => .error (.unexpected .nameAndType)

/-- The field or method that an entry names.  The three kinds of members
are not told apart. -/
def member (pool : ConstantPool) (index : Nat) : Except PoolFault Member := do
  match ← pool.entry .member index with
  | .field owner nameAndType | .method owner nameAndType
  | .interfaceMethod owner nameAndType =>
    let owner ← (pool.className owner).mapError (.inMember .owner)
    let (name, descriptor) ← pool.nameAndType nameAndType
    .ok { owner, name, descriptor }
  | _ => .error (.unexpected .member)

/-- The name and descriptor of a call that is linked at run time. -/
def dynamicCall (pool : ConstantPool) (index : Nat) : Except PoolFault (String × String) := do
  match ← pool.entry .dynamicCall index with
  | .dynamicCall _ nameAndType => pool.nameAndType nameAndType
  | _ => .error (.unexpected .dynamicCall)

/-- The literal that a constant load pushes.  An entry that stands for no
literal gives `Constant.other`. -/
def constant (pool : ConstantPool) (index : Nat) : Except PoolFault Constant := do
  match ← pool.entry .constant index with
  | .string text => return .string (← pool.text text)
  | .int value => .ok (.int value)
  | .float bits => .ok (.float bits)
  | .long value => .ok (.long value)
  | .double bits => .ok (.double bits)
  | .type name => return .type (← pool.text name)
  | _ => .ok .other

end ConstantPool

end BytecodeLint
