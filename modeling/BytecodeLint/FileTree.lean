import BytecodeLint.Pathname

/-!
# File trees

A file tree is a file or a directory with named entries.

There are four groups.

* `PathFault` lists the reasons for which a path name leads to no file.
* `FileTree` and the change of a part of it.
* Finding: `FileTree.find` follows the steps of a path name.  A step up
  leads to the directory that was left, so a directory that does not
  exist cannot be passed through.
* `Disk` is all that a run needs to know about files.
-/

namespace BytecodeLint

/-! ## Faults -/

/-- Why a path name does not lead to what is needed. -/
inductive PathFault
  | notFound
  | notDirectory
  | isDirectory
  | nameTooLong
  | nullCharacter
  | other (text : String)
  deriving DecidableEq, Repr

def PathFault.message : PathFault → String
  | notFound => "No such file or directory (os error 2)"
  | notDirectory => "Not a directory (os error 20)"
  | isDirectory => "Is a directory (os error 21)"
  | nameTooLong => "File name too long (os error 36)"
  | nullCharacter => "file name contained an unexpected NUL byte"
  | other text => text

/-! ## Trees -/

inductive FileTree
  | file (content : ByteArray)
  /-- A file that is there but cannot be read. -/
  | unreadable (fault : PathFault)
  | directory (entries : List (String × FileTree))

namespace FileTree

def entries : FileTree → List (String × FileTree)
  | directory entries => entries
  | _ => []

/-- Changes the tree behind some names.  Directories on the way are made
if they are missing. -/
def modify (change : FileTree → FileTree) : List String → FileTree → FileTree
  | [], tree => change tree
  | name :: rest, tree =>
    let child := modify change rest ((tree.entries.lookup name).getD (directory []))
    directory ((name, child) :: tree.entries.filter fun entry => entry.1 != name)

/-! ## Finding -/

/-- A place in a tree: what stands there, and the directories above it,
the nearest first. -/
structure Place where
  tree : FileTree
  above : List FileTree

/-- The greatest number of bytes in a step. -/
def maxStep : Nat := 255

/-- The greatest number of bytes in a path name. -/
def maxPath : Nat := 4095

/-- Follows one step.  The root is above itself. -/
def Place.step (place : Place) (name : String) : Except PathFault Place :=
  match place.tree with
  | directory entries =>
    if Pathname.isIdle name then
      .ok place
    else if name = ".." then
      match place.above with
      | [] => .ok place
      | tree :: above => .ok { tree, above }
    else if maxStep < name.utf8ByteSize then
      .error .nameTooLong
    else
      match entries.lookup name with
      | some tree => .ok { tree, above := place.tree :: place.above }
      | none => .error .notFound
  | _ => .error .notDirectory

def Place.follow (place : Place) (names : List String) : Except PathFault Place :=
  names.foldlM Place.step place

/-- Follows steps from the root or from the working directory. -/
def follow (root : FileTree) (workingDirectory path : String) (names : List String) :
    Except PathFault Place := do
  if path = "" then
    throw .notFound
  if path.contains '\x00' then
    throw .nullCharacter
  if maxPath < path.utf8ByteSize then
    throw .nameTooLong
  let top : Place := { tree := root, above := [] }
  let start ← if Pathname.isAbsolute path then pure top
    else top.follow (Pathname.steps workingDirectory)
  start.follow names

/-- What stands at a path name. -/
def find (root : FileTree) (workingDirectory path : String) : Except PathFault FileTree :=
  (·.tree) <$> follow root workingDirectory path (Pathname.steps path)

/-- Whether a file can be made at a path name.  Its directory must exist,
and the last step must be a name that no directory has.  A path name that
ends with a slash can only mean a directory. -/
def create (root : FileTree) (workingDirectory path : String) : Except PathFault Unit := do
  match (Pathname.steps path).reverse.dropWhile (· == "") with
  | [] =>
    let _ ← follow root workingDirectory path []
    throw .isDirectory
  | name :: above =>
    let place ← follow root workingDirectory path above.reverse
    let _ ← place.step "."
    if Text.endsWith path "/" || Pathname.isIdle name || name == ".." then
      throw .isDirectory
    match place.step name with
    | .ok { tree := directory _, .. } => throw .isDirectory
    | .ok _ | .error .notFound => return
    | .error fault => throw fault

end FileTree

/-! ## Disks -/

/-- What a run knows about files. -/
structure Disk where
  /-- The path name that relative path names start from. -/
  workingDirectory : String
  find : String → Except PathFault FileTree
  create : String → Except PathFault Unit

/-- A disk that holds just a tree. -/
def Disk.ofTree (root : FileTree) (workingDirectory : String) : Disk :=
  { workingDirectory
    find := root.find workingDirectory
    create := root.create workingDirectory }

end BytecodeLint
