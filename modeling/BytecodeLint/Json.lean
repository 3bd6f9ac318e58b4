import BytecodeLint.Hex

/-!
# JSON text

A JSON value and its text.  The text is spread over lines: every item of
an array and every member of an object has a line of its own, indented by
two spaces for each level.  Empty arrays and objects stay on one line.

There are three groups.

* `Json` is the value.  The members of an object keep their order.
* `quote` writes a text with escapes.  Only quotes, backslashes and
  control characters below the space are escaped.
* `pretty` writes a value.
-/

namespace BytecodeLint

inductive Json
  | bool (value : Bool)
  | number (value : Nat)
  | string (text : String)
  | array (items : List Json)
  | object (members : List (String × Json))
  deriving Repr

namespace Json

/-! ## Texts -/

/-- A character inside quotes. -/
def escape (c : Char) : List Char :=
  match c with
  | '"' => ['\\', '"']
  | '\\' => ['\\', '\\']
  | '\n' => ['\\', 'n']
  | '\t' => ['\\', 't']
  | '\r' => ['\\', 'r']
  | '\x08' => ['\\', 'b']
  | '\x0c' => ['\\', 'f']
  | c => if c.toNat < 0x20 then ['\\', 'u', '0', '0'] ++ Hex.byte (UInt8.ofNat c.toNat) else [c]

def quote (text : String) : List Char :=
  '"' :: text.toList.flatMap escape ++ ['"']

/-! ## Values -/

/-- A line break, and the indentation of a level. -/
def newline (level : Nat) : List Char :=
  '\n' :: List.replicate (2 * level) ' '

mutual

/-- The text of a value that stands at the given level. -/
def write (level : Nat) : Json → List Char
  | bool value => (if value then "true" else "false").toList
  | number value => (toString value).toList
  | string text => quote text
  | array [] => ['[', ']']
  | array (item :: rest) =>
    '[' :: newline (level + 1) ++ write (level + 1) item ++ writeItems (level + 1) rest ++
      newline level ++ [']']
  | object [] => ['\x7b', '\x7d']
  | object (member :: rest) =>
    '\x7b' :: newline (level + 1) ++ writeMember (level + 1) member ++
      writeMembers (level + 1) rest ++ newline level ++ ['\x7d']
termination_by structural value => value

/-- The items after the first. -/
def writeItems (level : Nat) : List Json → List Char
  | [] => []
  | item :: rest => ',' :: newline level ++ write level item ++ writeItems level rest
termination_by structural items => items

def writeMember (level : Nat) : String × Json → List Char
  | (name, value) => quote name ++ ':' :: ' ' :: write level value
termination_by structural member => member

/-- The members after the first. -/
def writeMembers (level : Nat) : List (String × Json) → List Char
  | [] => []
  | member :: rest =>
    ',' :: newline level ++ writeMember level member ++ writeMembers level rest
termination_by structural members => members

end

def pretty (value : Json) : List Char :=
  value.write 0

/-- A list of texts. -/
def strings (texts : List String) : Json :=
  array (texts.map string)

/-- A member that is left out when there is no value. -/
def member? (name : String) (value : Option Json) : List (String × Json) :=
  (value.map fun value => (name, value)).toList

end Json

end BytecodeLint
