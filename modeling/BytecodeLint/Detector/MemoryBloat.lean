import BytecodeLint.Detector

/-!
# Collections that only grow

A static collection that some method fills and no method empties keeps
its elements for ever.  The detector reports such a field at the first
call that fills it.

The decision needs the whole class.  While a method is followed its calls
are only collected.  They count once the method is complete, and a method
that is abandoned contributes nothing.
-/

namespace BytecodeLint.MemoryBloat

def onlyGrows : Rule where
  id := "PMB_POSSIBLE_MEMORY_BLOAT"
  name := "Possible memory bloat"
  description :=
    "Static collection or buffer only grows; nothing in the class ever shrinks it"
  priority := .normal

/-! ## Fields and calls -/

/-- The types of fields that can grow. -/
def collectionTypes : List String :=
  [ "Ljava/util/ArrayList;", "Ljava/util/Collection;", "Ljava/util/HashMap;"
  , "Ljava/util/HashSet;", "Ljava/util/Hashtable;", "Ljava/util/IdentityHashMap;"
  , "Ljava/util/LinkedHashMap;", "Ljava/util/LinkedList;", "Ljava/util/List;"
  , "Ljava/util/Map;", "Ljava/util/Set;", "Ljava/util/SortedSet;", "Ljava/util/SortedMap;"
  , "Ljava/util/Stack;", "Ljava/util/Queue;", "Ljava/lang/StringBuffer;"
  , "Ljava/lang/StringBuilder;", "Ljava/util/TreeMap;", "Ljava/util/TreeSet;"
  , "Ljava/util/Vector;" ]

def emptyingMethods : List String :=
  [ "clear", "delete", "deleteCharAt", "pop", "remove", "removeAll", "removeAllElements"
  , "removeElementAt", "removeRange", "setLength" ]

def fillingMethods : List String :=
  [ "add", "addAll", "addElement", "addFirst", "addLast", "append", "insertElementAt", "put" ]

/-- A change of the size of a field. -/
inductive Change
  | fill (field : FieldRef) (location : Location)
  | empty (field : FieldRef)
  deriving DecidableEq, Repr

/-! ## State -/

/-- A field that may still turn out to grow without bound, with the first
call that fills it. -/
structure Suspect where
  field : FieldRef
  growth : Option Location
  deriving DecidableEq, Repr

structure State where
  /-- The suspects, by name and type. -/
  suspects : List Suspect
  /-- The changes in the current method. -/
  changes : List Change
  deriving DecidableEq, Repr

namespace State

def suspects? (state : State) (field : FieldRef) : Bool :=
  state.suspects.any (·.field == field)

end State

/-- A field that is emptied is no suspect.  A field that is filled is
reported at its first growth. -/
def Change.settle (suspects : List Suspect) : Change → List Suspect
  | empty field => suspects.filter (·.field != field)
  | fill field location => suspects.map fun suspect =>
    if suspect.field = field then
      { suspect with growth := suspect.growth.or (some location) }
    else
      suspect

/-! ## The detector -/

def fieldOrder : FieldRef → FieldRef → Ordering :=
  compareLex (compareOn (·.owner)) (compareLex (compareOn (·.name)) (compareOn (·.descriptor)))

/-- The static fields of the class that can grow, in order and without
repetition. -/
def collectionFields (cls : Class) : List FieldRef :=
  let fields := cls.fields.filter fun field =>
    field.isStatic && collectionTypes.contains field.descriptor
  let refs := fields.map fun field => FieldRef.mk cls.name field.name field.descriptor
  refs.eraseDups.mergeSort fun left right => (fieldOrder left right).isLE

/-- The call of a step that changes the size of its receiver, if it is
one: whether it empties the receiver, and its descriptor. -/
def sizeChange? (step : Step) : Option (Bool × String) :=
  if step.opcode == .invokevirtual || step.opcode == .invokeinterface then
    step.instruction.call?.bind fun site =>
      if emptyingMethods.contains site.name then some (true, site.descriptor)
      else if fillingMethods.contains site.name then some (false, site.descriptor)
      else none
  else
    none

/-- The static field that the receiver of a call with `params` argument
slots was read from. -/
def receiverField? (step : Step) (params : Nat) : Option FieldRef :=
  (step.peek? params).bind (·.provenance.staticField?)

def visit (step : Step) : EStateM DetectorFault State (List Finding) := do
  if let some (empties, descriptor) := sizeChange? step then
    match callSlots descriptor with
    | .error bad => throw ⟨bad.message⟩
    | .ok slots =>
      let state ← get
      if let some field := receiverField? step slots.params then
        if state.suspects? field then
          let change :=
            if empties then .empty field
            else .fill field (step.cls.locate step.method step.offset)
          set { state with changes := state.changes ++ [change] }
  return []

def start (cls : Class) : Option State :=
  match collectionFields cls with
  | [] => none
  | fields => some { suspects := fields.map (⟨·, none⟩), changes := [] }

def report (suspect : Suspect) : Option Finding :=
  suspect.growth.map fun location =>
    onlyGrows.report location
      (some (.field suspect.field.owner suspect.field.name suspect.field.descriptor))

def detector : Detector where
  id := "PMB"
  name := "Possible memory bloat"
  slug := "possible_memory_bloat"
  rules := [onlyGrows]
  State := State
  accepts method opcodes :=
    !method.isConstructor && !method.isClassInitializer &&
      opcodes.containsAny [.invokevirtual, .invokeinterface]
  start := start
  enter _ state := { state with changes := [] }
  visit := visit
  leave _ state :=
    { suspects := state.changes.foldl Change.settle state.suspects, changes := [] }
  abandon _ state := { state with changes := [] }
  finish state := state.suspects.filterMap report

end BytecodeLint.MemoryBloat
