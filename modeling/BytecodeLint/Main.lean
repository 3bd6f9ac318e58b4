import BytecodeLint.Run

/-!
# The program

Reads the command line and the files, runs, and writes the report.

The exit code is 0 after a report or a help text, 1 after a run that was
given up, and 2 after a command line that was refused.
-/

namespace BytecodeLint

/-! ## Files -/

/-- The fault behind a failed access to a file. -/
def PathFault.ofError : IO.Error → PathFault
  | .noFileOrDirectory .. => .notFound
  | fault => .other (toString fault)

/-- Reads the tree at a path name.  Only the files that a scan looks at
are read. -/
partial def readTree (path : String) : IO FileTree := do
  let place := (← IO.currentDir) / path
  if ← place.isDir then
    let mut entries := []
    for entry in ← place.readDir do
      let tree ← readTree (Pathname.join path entry.fileName)
      entries := (entry.fileName, tree) :: entries
    return .directory entries
  else if isScanned path then
    try
      return .file (← IO.FS.readBinFile place)
    catch fault =>
      return .unreadable (.ofError fault)
  else
    return .file .empty

/-- What stands at a path name. -/
def readPath (path : String) : IO (Except PathFault FileTree) := do
  if ← ((← IO.currentDir) / path).pathExists then
    return .ok (← readTree path)
  else
    return .error .notFound

/-- Reads all that stands at the path names.  Making files is left to the
writing of the report. -/
def readDisk (paths : List String) : IO Disk := do
  let trees ← paths.mapM fun path => return (path, ← readPath path)
  let workingDirectory := (← IO.currentDir).toString
  return {
    workingDirectory
    find := fun path => (trees.lookup path).getD (.error .notFound)
    create := fun _ => .ok () }

/-! ## Texts -/

def version : String :=
  Sarif.toolName ++ " 0.1.0\n"

def usage : String :=
  "Bytecode idiom detectors for JVM class files and JAR files.\n\n" ++
  "Usage: " ++ Sarif.toolName ++ " [OPTIONS] --input <PATH>\n\n" ++
  "Options:\n" ++
  "      --input <PATH>     Class file, directory of class files, or JAR to analyze\n" ++
  "      --output <PATH>    Report destination; `-` or absent writes to stdout\n" ++
  "      --format <FORMAT>  sarif (default) or json\n" ++
  "      --detector <ID>    Only run the detector with this id (repeatable)\n" ++
  "      --quiet\n" ++
  "      --timing\n" ++
  "  -h, --help             Print help\n" ++
  "  -V, --version          Print version\n"

def timingText (total : Nat) (record : Sarif.RunRecord) (job : Job) (analysis : Analysis) : String :=
  "timing: total_ms=" ++ toString total ++
  " scan_ms=" ++ toString record.scanMilliseconds ++
  " analysis_ms=" ++ toString record.analysisMilliseconds ++
  " classes=" ++ toString job.scan.classCount ++
  " findings=" ++ toString analysis.findings.length

/-! ## The run -/

def giveUp (code : UInt32) (message : String) : IO UInt32 := do
  IO.eprintln ("Error: " ++ message)
  return code

/-- Writes the report, and gives the fault if it has no place. -/
def deliver (destination : Option String) (text : String) : IO (Option RunFault) := do
  match destination with
  | none =>
    IO.print text
    return none
  | some path =>
    try
      IO.FS.writeFile path text
      return none
    catch fault =>
      return some (.unwritable path (.ofError fault))

def perform (words : List String) (options : Options) : IO UInt32 := do
  let start ← IO.monoMsNow
  let disk ← readDisk options.inputs
  match options.prepare disk with
  | .error fault => giveUp 1 fault.message
  | .ok job =>
    let scanned ← IO.monoMsNow
    let analysis ← IO.lazyPure fun _ => job.analysis
    let analyzed ← IO.monoMsNow
    let record : Sarif.RunRecord := {
      arguments := Sarif.toolName :: words
      scanMilliseconds := scanned - start
      analysisMilliseconds := analyzed - scanned }
    match ← deliver options.destination? (job.report analysis record) with
    | some fault => giveUp 1 fault.message
    | none =>
      if options.timing && !options.quiet then
        IO.eprintln (timingText ((← IO.monoMsNow) - start) record job analysis)
      return 0

end BytecodeLint

def main (words : List String) : IO UInt32 := do
  match BytecodeLint.Options.read words with
  | .error .helpWanted =>
    IO.print BytecodeLint.usage
    return 0
  | .error .versionWanted =>
    IO.print BytecodeLint.version
    return 0
  | .error fault => BytecodeLint.giveUp 2 fault.message
  | .ok options => BytecodeLint.perform words options
