/-!
# Descriptors

The textual types of the class file format.  A type descriptor is a
letter for a base type, `L` and a name up to `;` for a class type, or
some `[` before the descriptor of an element for an array type.  A method
descriptor is a list of types in parentheses and a return type.

There are four groups.

* `TypeDescriptor` is the type that a text stands for, `render` writes it
  and `slots` is the number of operand stack slots that a value takes.
* The reader.  It is lenient: `V` is read as a type anywhere, a class
  name may be empty, and what follows the return type is not looked at.
  `DescriptorFault` lists the ways in which it fails.
* `callSlots` counts the slots of a call.
* The cuts.  `returnText?` and `parametersText?` cut a part out of a
  method descriptor without reading it, and `fieldSlots` looks at one
  character only.
-/

namespace BytecodeLint

/-! ## Types -/

inductive BaseType
  | boolean
  | byte
  | char
  | short
  | int
  | float
  | double
  | long
  | void
  deriving DecidableEq, Repr

namespace BaseType

def letter : BaseType → Char
  | boolean => 'Z'
  | byte => 'B'
  | char => 'C'
  | short => 'S'
  | int => 'I'
  | float => 'F'
  | double => 'D'
  | long => 'J'
  | void => 'V'

def ofLetter? : Char → Option BaseType
  | 'Z' => some boolean
  | 'B' => some byte
  | 'C' => some char
  | 'S' => some short
  | 'I' => some int
  | 'F' => some float
  | 'D' => some double
  | 'J' => some long
  | 'V' => some void
  | _ => none

/-- Wide values take two slots, and `void` has no value. -/
def slots : BaseType → Nat
  | void => 0
  | long | double => 2
  | _ => 1

@[simp] theorem ofLetter?_letter (type : BaseType) : ofLetter? type.letter = some type := by
  cases type <;> rfl

end BaseType

inductive TypeDescriptor
  | base (type : BaseType)
  | object (name : List Char)
  | array (dimensions : Nat) (element : TypeDescriptor)
  deriving DecidableEq, Repr

namespace TypeDescriptor

/-- The slots that a value of the type takes.  References take one. -/
def slots : TypeDescriptor → Nat
  | base type => type.slots
  | object _ => 1
  | array _ _ => 1

/-- The slots that values of all the types take together. -/
def totalSlots : List TypeDescriptor → Nat
  | [] => 0
  | type :: rest => type.slots + totalSlots rest

def render : TypeDescriptor → List Char
  | base type => [type.letter]
  | object name => 'L' :: name ++ [';']
  | array dimensions element => List.replicate dimensions '[' ++ element.render

end TypeDescriptor

/-! ## Reading -/

/-- Why a text is not a method descriptor. -/
inductive DescriptorFault
  | missingOpening
  | missingSemicolon
  | tooManyDimensions
  /-- The parameter list ends where an array element should be. -/
  | missingElement
  | missingReturn
  | unknownType
  | endOfInput
  deriving DecidableEq, Repr

def DescriptorFault.message : DescriptorFault → String
  | missingOpening => "Invalid descriptor: Method descriptor must start with '('."
  | missingSemicolon => "Invalid descriptor: Missing semicolon in class name descriptor."
  | tooManyDimensions => "Array has too many dimensions."
  | missingElement => "Invalid descriptor: Invalid descriptor."
  | missingReturn => "Invalid descriptor: Missing return type."
  | unknownType => "Invalid descriptor: Unrecognized type descriptor."
  | endOfInput => "Unexpected end of input."

namespace TypeDescriptor

/-- Reads one type that is not an array, and returns the rest. -/
def readElement : List Char → Except DescriptorFault (TypeDescriptor × List Char)
  | [] => .error .endOfInput
  | c :: rest =>
    match BaseType.ofLetter? c with
    | some type => .ok (.base type, rest)
    | none =>
      if c = 'L' then
        match rest.dropWhile (· ≠ ';') with
        | [] => .error .missingSemicolon
        | _ :: after => .ok (.object (rest.takeWhile (· ≠ ';')), after)
      else
        .error .unknownType

/-- Reads one type and returns the rest.  An array has at most 255
dimensions. -/
def read (text : List Char) : Except DescriptorFault (TypeDescriptor × List Char) :=
  let dimensions := (text.takeWhile (· = '[')).length
  let rest := text.dropWhile (· = '[')
  if dimensions = 0 then
    readElement rest
  else if 255 < dimensions then
    .error .tooManyDimensions
  else if rest.head? = some ')' then
    .error .missingElement
  else do
    let (element, after) ← readElement rest
    .ok (.array dimensions element, after)

private theorem length_dropWhile_le {α : Type} (p : α → Bool) (list : List α) :
    (list.dropWhile p).length ≤ list.length :=
  (List.dropWhile_suffix p).length_le

/-- Reading an element takes at least one character. -/
theorem readElement_length {text after : List Char} {type : TypeDescriptor}
    (h : readElement text = .ok (type, after)) : after.length < text.length := by
  unfold readElement at h
  split at h
  · cases h
  · rename_i c rest
    split at h
    · cases h
      simp
    · split at h
      · split at h
        · cases h
        · rename_i heq
          cases h
          have := length_dropWhile_le (· ≠ ';') rest
          rw [heq] at this
          simp only [List.length_cons] at this ⊢
          omega
      · cases h

/-- Reading a type takes at least one character. -/
theorem read_length {text after : List Char} {type : TypeDescriptor}
    (h : read text = .ok (type, after)) : after.length < text.length := by
  have hle := length_dropWhile_le (· = '[') text
  unfold read at h
  simp only at h
  split at h
  · have := readElement_length h
    omega
  · split at h
    · cases h
    · split at h
      · cases h
      · cases helem : readElement (text.dropWhile (· = '[')) with
        | error fault => rw [helem] at h; cases h
        | ok pair =>
          obtain ⟨element, rest⟩ := pair
          rw [helem] at h
          cases h
          have := readElement_length helem
          show rest.length < text.length
          omega

end TypeDescriptor

/-- The parts of a method descriptor. -/
structure MethodDescriptor where
  parameters : List TypeDescriptor
  result : TypeDescriptor
  deriving DecidableEq, Repr

namespace MethodDescriptor

/-- Reads types up to the closing parenthesis, and returns the rest after
it. -/
def readParameters (text : List Char) :
    Except DescriptorFault (List TypeDescriptor × List Char) :=
  match text with
  | [] => .error .endOfInput
  | ')' :: rest => .ok ([], rest)
  | text =>
    match _h : TypeDescriptor.read text with
    | .error fault => .error fault
    | .ok (type, rest) => do
      let (types, after) ← readParameters rest
      .ok (type :: types, after)
termination_by text.length
decreasing_by exact TypeDescriptor.read_length _h

def readResult (text : List Char) : Except DescriptorFault TypeDescriptor :=
  if text.head? = some ')' then
    .error .missingReturn
  else
    (TypeDescriptor.read text).map (·.1)

def read (text : List Char) : Except DescriptorFault MethodDescriptor :=
  match text with
  | '(' :: rest => do
    let (parameters, after) ← readParameters rest
    let result ← readResult after
    .ok { parameters, result }
  | _ => .error .missingOpening

def render (descriptor : MethodDescriptor) : List Char :=
  '(' :: descriptor.parameters.flatMap TypeDescriptor.render ++ ')' :: descriptor.result.render

end MethodDescriptor

/-! ## The slots of a call -/

/-- The slots that the arguments of a call take, without the receiver,
and the slots of its result. -/
structure CallSlots where
  params : Nat
  result : Nat
  deriving DecidableEq, Repr

/-- A text that was needed as a method descriptor and is none. -/
structure BadDescriptor where
  text : String
  fault : DescriptorFault
  deriving DecidableEq, Repr

def BadDescriptor.message (bad : BadDescriptor) : String :=
  "parse call descriptor " ++ bad.text ++ ": " ++ bad.fault.message

def MethodDescriptor.slots (descriptor : MethodDescriptor) : CallSlots :=
  { params := TypeDescriptor.totalSlots descriptor.parameters
    result := descriptor.result.slots }

def callSlots (descriptor : String) : Except BadDescriptor CallSlots :=
  match MethodDescriptor.read descriptor.toList with
  | .ok parsed => .ok parsed.slots
  | .error fault => .error ⟨descriptor, fault⟩

/-! ## Cuts -/

/-- The slots of a field of the given type, by its first character. -/
def fieldSlots (descriptor : String) : Nat :=
  match descriptor.toList with
  | 'J' :: _ | 'D' :: _ => 2
  | _ => 1

/-- The text after the last closing parenthesis, unless it is empty. -/
def returnText? (descriptor : String) : Option String :=
  let reversed := descriptor.toList.reverse
  let result := (reversed.takeWhile (· ≠ ')')).reverse
  if ')' ∈ reversed ∧ result ≠ [] then some (String.ofList result) else none

/-- The text between the opening parenthesis and the first closing one. -/
def parametersText? (descriptor : String) : Option String :=
  match descriptor.toList with
  | '(' :: rest =>
    if ')' ∈ rest then some (String.ofList (rest.takeWhile (· ≠ ')'))) else none
  | _ => none

end BytecodeLint
