import BytecodeLint.Report

/-!
# Options

Reads the words of a command line.

There are four groups.

* `Options` is the result, and `OptionFault` lists the reasons for which a
  command line is refused.
* `Word` is what a word means by itself.
* `Draft` is what the words so far have said.  A value that stands in a
  word of its own stays pending until the next option or the end, and only
  then it is checked.  A word that has no meaning at all is refused at
  once.
* `Options.read`.
-/

namespace BytecodeLint

/-! ## Results -/

/-- What a run is asked to do. -/
structure Options where
  inputs : List String
  output : Option String
  format : ReportFormat
  /-- The ids of the detectors to run.  An empty list means all. -/
  detectors : List String
  quiet : Bool
  timing : Bool
  deriving DecidableEq, Repr

/-- An option that takes a value. -/
inductive ValueOption
  | input
  | output
  | format
  | detector
  deriving DecidableEq, Repr

/-- An option without a value. -/
inductive Switch
  | quiet
  | timing
  | help
  | version
  deriving DecidableEq, Repr

inductive OptionFault
  /-- A word that is no option, or one that belongs to no option. -/
  | unknownWord (word : String)
  | missingValue (option : ValueOption)
  | emptyValue (option : ValueOption)
  | unknownFormat (value : String)
  /-- An option that counts only once was given twice. -/
  | repeatedOption (option : ValueOption)
  | repeatedSwitch (switch : Switch)
  /-- A switch has a value. -/
  | unexpectedValue (word : String)
  | noInput
  /-- The help text is wanted. -/
  | helpWanted
  /-- The version is wanted. -/
  | versionWanted
  deriving DecidableEq, Repr

namespace ValueOption

def name : ValueOption → String
  | input => "input"
  | output => "output"
  | format => "format"
  | detector => "detector"

def all : List ValueOption :=
  [input, output, format, detector]

end ValueOption

namespace Switch

def name : Switch → String
  | quiet => "quiet"
  | timing => "timing"
  | help => "help"
  | version => "version"

def all : List Switch :=
  [quiet, timing, help, version]

/-- The switch with a short name. -/
def ofLetter? : Char → Option Switch
  | 'h' => some help
  | 'V' => some version
  | _ => none

end Switch

def OptionFault.message : OptionFault → String
  | unknownWord word => "unexpected argument '" ++ word ++ "' found"
  | missingValue option | emptyValue option =>
    "a value is required for '--" ++ option.name ++ "' but none was supplied"
  | unknownFormat value => "invalid value '" ++ value ++ "' for '--format'"
  | repeatedOption option =>
    "the argument '--" ++ option.name ++ "' cannot be used multiple times"
  | repeatedSwitch switch =>
    "the argument '--" ++ switch.name ++ "' cannot be used multiple times"
  | unexpectedValue word => "unexpected value in '" ++ word ++ "' found; no more were expected"
  | noInput => "the following required arguments were not provided: --input"
  | helpWanted => "help"
  | versionWanted => "version"

def ReportFormat.name : ReportFormat → String
  | sarif => "sarif"
  | json => "json"

def ReportFormat.ofName? (name : String) : Option ReportFormat :=
  [sarif, json].find? (·.name == name)

/-! ## Words -/

inductive Word
  /-- Two dashes.  No option can follow. -/
  | separator
  | option (option : ValueOption)
  /-- An option with its value in the same word. -/
  | assignment (option : ValueOption) (value : String)
  | switch (switch : Switch)
  | switchWithValue
  /-- A word that does not look like an option. -/
  | plain
  | unknown
  deriving DecidableEq, Repr

namespace Word

/-- A word that begins with two dashes, without them. -/
def ofLongName (text : List Char) : Word :=
  let name := String.ofList (text.takeWhile (· ≠ '='))
  match ValueOption.all.find? (·.name == name), Switch.all.find? (·.name == name),
    text.dropWhile (· ≠ '=') with
  | some o, _, [] => option o
  | some o, _, _ :: value => assignment o (String.ofList value)
  | none, some s, [] => switch s
  | none, some _, _ :: _ => switchWithValue
  | none, none, _ => unknown

/-- A single dash alone is no option.  Of letters behind a dash the first
one decides, because every known letter ends the reading. -/
def ofString (text : String) : Word :=
  match text.toList with
  | ['-', '-'] => separator
  | '-' :: '-' :: rest => ofLongName rest
  | '-' :: letter :: _ =>
    match Switch.ofLetter? letter with
    | some s => switch s
    | none => unknown
  | _ => plain

end Word

/-! ## Drafts -/

/-- What the words so far have said. -/
structure Draft where
  inputs : List String
  output : Option String
  format : Option ReportFormat
  detectors : List String
  quiet : Bool
  timing : Bool
  /-- The option that came last, if its value is not in the draft yet, and
  its value as soon as that is known. -/
  pending : Option (ValueOption × Option String)
  deriving DecidableEq, Repr

namespace Draft

def empty : Draft :=
  { inputs := [], output := none, format := none, detectors := [], quiet := false,
    timing := false, pending := none }

/-- Takes the value of an option. -/
def assign (draft : Draft) : ValueOption → String → Except OptionFault Draft
  | .input, value =>
    if value = "" then .error (.emptyValue .input)
    else .ok { draft with inputs := draft.inputs ++ [value] }
  | .output, value =>
    if draft.output.isSome then .error (.repeatedOption .output)
    else if value = "" then .error (.emptyValue .output)
    else .ok { draft with output := some value }
  | .format, value =>
    if draft.format.isSome then .error (.repeatedOption .format)
    else match ReportFormat.ofName? value with
      | none => .error (.unknownFormat value)
      | some format => .ok { draft with format := some format }
  | .detector, value => .ok { draft with detectors := draft.detectors ++ [value] }

/-- Takes the pending value. -/
def settle (draft : Draft) : Except OptionFault Draft :=
  match draft.pending with
  | none => .ok draft
  | some (option, none) => .error (.missingValue option)
  | some (option, some value) => assign { draft with pending := none } option value

def turnOn (draft : Draft) : Switch → Except OptionFault Draft
  | .quiet =>
    if draft.quiet then .error (.repeatedSwitch .quiet) else .ok { draft with quiet := true }
  | .timing =>
    if draft.timing then .error (.repeatedSwitch .timing) else .ok { draft with timing := true }
  | .help => .error .helpWanted
  | .version => .error .versionWanted

/-- A word that does not look like an option is the value of the option
before it. -/
def takePlain (draft : Draft) (text : String) : Except OptionFault Draft :=
  match draft.pending with
  | some (option, none) => .ok { draft with pending := some (option, some text) }
  | _ => .error (.unknownWord text)

/-- Takes the words in order. -/
def readAll (draft : Draft) : List String → Except OptionFault Draft
  | [] => draft.settle
  | text :: rest =>
    match Word.ofString text with
    | .separator =>
      match rest with
      | [] => draft.settle
      | next :: _ => .error (.unknownWord next)
    | .option option => do
      let draft ← draft.settle
      readAll { draft with pending := some (option, none) } rest
    | .assignment option value => do
      let draft ← draft.settle
      readAll (← draft.assign option value) rest
    | .switch switch => do
      let draft ← draft.settle
      readAll (← draft.turnOn switch) rest
    | .switchWithValue => .error (.unexpectedValue text)
    | .plain => do readAll (← draft.takePlain text) rest
    | .unknown => .error (.unknownWord text)

/-- The options of a draft that has come to its end. -/
def finish (draft : Draft) : Except OptionFault Options :=
  if draft.inputs = [] then
    .error .noInput
  else
    .ok {
      inputs := draft.inputs
      output := draft.output
      format := draft.format.getD .sarif
      detectors := draft.detectors
      quiet := draft.quiet
      timing := draft.timing }

end Draft

/-- Reads the words of a command line behind the name of the program. -/
def Options.read (words : List String) : Except OptionFault Options := do
  (← Draft.empty.readAll words).finish

end BytecodeLint
