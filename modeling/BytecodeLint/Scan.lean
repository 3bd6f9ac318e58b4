import BytecodeLint.Archive
import BytecodeLint.ClassFile
import BytecodeLint.FileTree

/-!
# Scanning for classes

Finds the classes below some path names and decodes them.  A directory is
searched to any depth.  Its entries are taken in the order of their path
names, so the order in which a disk lists them does not matter.

A class file that was named as an input must be in order.  Inside a
directory or an archive, bytes that are no class are skipped.

The path name of the working directory and the way in which the contents of
archives are unpacked are parameters of a scan.

There are five groups.

* `Scan` is the result, and `ScanFault` lists the reasons for which a scan
  is given up.
* Candidates: the files below a path name, as a list.
* Class files.
* Archives.  Only some entries count as classes, and they are taken in the
  order of their names.
* `scan`.
-/

namespace BytecodeLint

/-! ## Results -/

/-- The classes that were found, and the names of what was skipped. -/
structure Scan where
  classes : List Class
  /-- The number of classes, counted while they are found. -/
  classCount : Nat
  skipped : List String
  deriving DecidableEq, Repr

namespace Scan

def empty : Scan :=
  { classes := [], classCount := 0, skipped := [] }

/-- A class was found. -/
def ofClass (cls : Class) : Scan :=
  { classes := [cls], classCount := 1, skipped := [] }

/-- Something without a class was skipped. -/
def ofSkipped (name : String) : Scan :=
  { classes := [], classCount := 0, skipped := [name] }

def append (left right : Scan) : Scan :=
  { classes := left.classes ++ right.classes
    classCount := left.classCount + right.classCount
    skipped := left.skipped ++ right.skipped }

instance : Append Scan :=
  ⟨append⟩

def join (scans : List Scan) : Scan :=
  scans.foldr append empty

end Scan

inductive ScanFault
  | unreadable (path : String) (fault : PathFault)
  | undecodable (path : String) (fault : ClassFault)
  | unopened (path : String) (fault : PathFault)
  | badArchive (path : String) (fault : ArchiveFault)
  | badEntry (path name : String) (fault : ArchiveFault)
  /-- The path name was given as an input, but it has no known extension. -/
  | unsupported (path : String)
  deriving DecidableEq, Repr

def ScanFault.message : ScanFault → String
  | unreadable path fault => "failed to read " ++ path ++ ": " ++ fault.message
  | undecodable path fault => "failed to parse " ++ path ++ ": " ++ fault.message
  | unopened path fault => "failed to open " ++ path ++ ": " ++ fault.message
  | badArchive path fault => "failed to read " ++ path ++ ": " ++ fault.message
  | badEntry path name fault =>
    "failed to read " ++ path ++ ":" ++ name ++ ": " ++ fault.message
  | unsupported path => "unsupported input file: " ++ path

/-! ## Candidates -/

/-- A file that a scan looks at. -/
structure Candidate where
  path : String
  /-- The path name was given as an input. -/
  named : Bool
  content : Except PathFault ByteArray

mutual

/-- The files of a tree that stands at a path name. -/
def FileTree.candidates (path : String) : FileTree → List Candidate
  | .file content => [{ path, named := false, content := .ok content }]
  | .unreadable fault => [{ path, named := false, content := .error fault }]
  | .directory entries =>
    ((FileTree.listing path entries).mergeSort
      fun left right => (compare left.1 right.1).isLE).flatMap (·.2)
termination_by structural tree => tree

/-- The path names of the entries of a directory, with the files of every
entry. -/
def FileTree.listing (path : String) :
    List (String × FileTree) → List (String × List Candidate)
  | [] => []
  | entry :: rest => FileTree.entryCandidates path entry :: FileTree.listing path rest
termination_by structural entries => entries

def FileTree.entryCandidates (path : String) : String × FileTree → String × List Candidate
  | (name, tree) => (Pathname.join path name, tree.candidates (Pathname.join path name))
termination_by structural entry => entry

end

/-- What was found at a path name that was given as an input. -/
structure Input where
  path : String
  tree : Except PathFault FileTree

/-- The files below an input. -/
def Input.candidates (input : Input) : List Candidate :=
  match input.tree with
  | .error fault => [{ path := input.path, named := true, content := .error fault }]
  | .ok (.file content) => [{ path := input.path, named := true, content := .ok content }]
  | .ok (.unreadable fault) => [{ path := input.path, named := true, content := .error fault }]
  | .ok (.directory entries) => (FileTree.directory entries).candidates input.path

/-! ## Class files -/

/-- The class in a class file. -/
def Candidate.decode (workingDirectory : String) (candidate : Candidate) :
    Except ScanFault Class := do
  let path := candidate.path
  let data ← candidate.content.mapError (.unreadable path)
  (ClassFile.decode data (some (Pathname.fileUri workingDirectory path))).mapError
    (.undecodable path)

/-- A class file without a class is a fault only if it is an input. -/
def scanClass (workingDirectory : String) (candidate : Candidate) : Except ScanFault Scan :=
  match candidate.decode workingDirectory with
  | .ok cls => .ok (.ofClass cls)
  | .error fault =>
    if candidate.named then .error fault
    else .ok (.ofSkipped candidate.path)

/-! ## Archives -/

/-- The entry is a class of the program itself.  Module descriptions and
classes for later versions of the machine do not count. -/
def isClassEntry (name : String) : Bool :=
  Text.endsWith name ".class" && !Text.endsWith name "module-info.class" &&
    !Text.startsWith name "META-INF/versions/"

/-- The names of the entries that may hold classes, in order. -/
def classNames (entries : List Archive.Entry) : List String :=
  ((entries.map (·.name)).filter isClassEntry).mergeSort
    fun left right => (compare left right).isLE

/-- The URI of an entry of an archive. -/
def entryUri (archiveUri name : String) : String :=
  "jar:" ++ archiveUri ++ "!/" ++ name

/-- An entry without a class is skipped. -/
def scanEntry (workingDirectory : String) (unpack : Archive.Unpacker) (path : String)
    (index : Std.HashMap (List UInt8) Archive.Entry) (name : String) : Except ScanFault Scan := do
  let data ← (Archive.contentOf unpack index name).mapError (.badEntry path name)
  let uri := entryUri (Pathname.fileUri workingDirectory path) name
  match ClassFile.decode data (some uri) with
  | .ok cls => return .ofClass cls
  | .error _ => return .ofSkipped (path ++ ":" ++ name)

def scanEntries (workingDirectory : String) (unpack : Archive.Unpacker) (path : String)
    (entries : List Archive.Entry) : Except ScanFault Scan :=
  Scan.join <$> (classNames entries).mapM
    (scanEntry workingDirectory unpack path (Archive.index entries))

def scanArchive (workingDirectory : String) (unpack : Archive.Unpacker) (candidate : Candidate) :
    Except ScanFault Scan := do
  let path := candidate.path
  let data ← candidate.content.mapError (.unopened path)
  let entries ← (Archive.entries data).mapError (.badArchive path)
  scanEntries workingDirectory unpack path entries

/-! ## Scans -/

/-- The content of a file at the path name matters to a scan. -/
def isScanned (path : String) : Bool :=
  Pathname.extension? path == some "class" || Pathname.extension? path == some "jar"

/-- The extension of a file tells what it is. -/
def scanCandidate (workingDirectory : String) (unpack : Archive.Unpacker) (candidate : Candidate) :
    Except ScanFault Scan :=
  match Pathname.extension? candidate.path with
  | some "class" => scanClass workingDirectory candidate
  | some "jar" => scanArchive workingDirectory unpack candidate
  | _ => if candidate.named then .error (.unsupported candidate.path) else .ok .empty

/-- Scans the inputs in the given order. -/
def scan (workingDirectory : String) (inputs : List Input)
    (unpack : Archive.Unpacker := Archive.unpack) : Except ScanFault Scan :=
  Scan.join <$> (inputs.flatMap Input.candidates).mapM (scanCandidate workingDirectory unpack)

/-- The inputs that some path names of a disk stand for. -/
def Disk.inputs (disk : Disk) (paths : List String) : List Input :=
  paths.map fun path => { path, tree := disk.find path }

end BytecodeLint
