import BytecodeLint.Text

/-!
# Path names

A path name is a text in which slashes separate the steps that lead to a
file.  An empty step and the step `.` lead nowhere, and the step `..`
leads up.

There are two groups.

* The parts of a path name: `steps`, `fileName?` and `extension?`.
* Longer path names: `join`, `absolute` and `fileUri`.
-/

namespace BytecodeLint.Pathname

/-! ## Parts -/

/-- The texts between the slashes. -/
def split : List Char → List (List Char)
  | [] => [[]]
  | '/' :: rest => [] :: split rest
  | c :: rest =>
    match split rest with
    | [] => [[c]]
    | first :: later => (c :: first) :: later

def steps (path : String) : List String :=
  (split path.toList).map String.ofList

/-- The path name starts at the root. -/
def isAbsolute (path : String) : Bool :=
  Text.startsWith path "/"

/-- A step that stays where it is. -/
def isIdle (step : String) : Bool :=
  step == "" || step == "."

/-- The last step that leads somewhere, unless it leads up. -/
def fileName? (path : String) : Option String :=
  match ((steps path).filter fun step => !isIdle step).getLast? with
  | some ".." => none
  | last => last

/-- What stands behind the last dot of the file name.  A dot at the start
of the file name does not count. -/
def extension? (path : String) : Option String := do
  let reversed := (← fileName? path).toList.reverse
  match reversed.dropWhile (· ≠ '.') with
  | '.' :: _ :: _ => some (String.ofList (reversed.takeWhile (· ≠ '.')).reverse)
  | _ => none

/-- The path name is a single dash, which stands for the standard output.
Idle steps behind the dash do not count. -/
def isDash (path : String) : Bool :=
  match steps path with
  | "-" :: rest => rest.all isIdle
  | _ => false

/-! ## Longer path names -/

/-- The path name of an entry of a directory. -/
def join (directory name : String) : String :=
  if Text.endsWith directory "/" then directory ++ name else directory ++ "/" ++ name

/-- The path name from the root on.  The steps stay as they are. -/
def absolute (workingDirectory path : String) : String :=
  if isAbsolute path then path else join workingDirectory path

/-- The URI of a file. -/
def fileUri (workingDirectory path : String) : String :=
  "file://" ++ absolute workingDirectory path

end BytecodeLint.Pathname
