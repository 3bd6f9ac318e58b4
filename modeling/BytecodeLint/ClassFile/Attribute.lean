import BytecodeLint.Class
import BytecodeLint.ConstantPool
import BytecodeLint.ClassFile.Reader

/-!
# Attributes of a class file

A class, a field, a method and a piece of code carry attributes.  An
attribute is a name, a length and a content, and the name decides what
the content looks like.  The length is not used to find the end of the
content, so an attribute with an unknown name cannot be skipped.

Only the code of a method and its line numbers are kept.  All other
contents are read and dropped.

There are three groups.

* Annotations and stack maps, which nest or vary in form.
* `Attribute` is what is kept, and `content` reads or skips the content
  for a name.
* `attributes` reads a list of attributes.
-/

namespace BytecodeLint.ClassFile

open Reader

/-! ## Annotations -/

/-- Skips an annotation: its type, and named values. -/
def skipAnnotationItem (value : Reader Unit) : Reader Unit := do
  skip 1 2
  skipCounted do
    skip 1 2
    value

/-- Skips a value in an annotation.  Values nest.  Each one takes at least
one byte, so they cannot nest deeper than there are bytes. -/
def skipElementValue : (depth : Nat) → Reader Unit
  | 0 => skip 1 1
  | depth + 1 => do
    let tag ← number 1
    match Char.ofNat tag with
    | 'B' | 'C' | 'D' | 'F' | 'I' | 'J' | 'S' | 'Z' | 's' | 'c' => skip 1 2
    | 'e' => skip 2 2
    | '@' => skipAnnotationItem (skipElementValue depth)
    | '[' => skipCounted (skipElementValue depth)
    | _ => throw (.unknownElementValue tag)

/-- Skips the place that an annotated type stands at. -/
def skipTypeTarget : Reader Unit := do
  let type ← number 1
  if type ≤ 0x01 ∨ type = 0x16 then
    skip 1 1
  else if type = 0x10 ∨ type = 0x17 ∨ 0x42 ≤ type ∧ type ≤ 0x46 then
    skip 1 2
  else if type = 0x11 ∨ type = 0x12 then
    skip 2 1
  else if 0x13 ≤ type ∧ type ≤ 0x15 then
    pure ()
  else if type = 0x40 ∨ type = 0x41 then
    skipCounted (skip 3 2)
  else if 0x47 ≤ type ∧ type ≤ 0x4b then do
    skip 1 2
    skip 1 1
  else
    throw (.unknownTarget type)

/-- Skips an annotation of a type: where the type stands, which part of
it is meant, and the annotation. -/
def skipTypeAnnotationItem (value : Reader Unit) : Reader Unit := do
  skipTypeTarget
  skip (2 * (← number 1)) 1
  skipAnnotationItem value

/-! ## Stack maps -/

def skipVerificationType : Reader Unit := do
  let tag ← number 1
  if tag ≤ 6 then
    pure ()
  else if tag ≤ 8 then
    skip 1 2
  else
    throw (.unknownVerificationType tag)

def skipStackFrame : Reader Unit := do
  let type ← number 1
  if type ≤ 63 then
    pure ()
  else if type ≤ 127 then
    skipVerificationType
  else if type ≤ 246 then
    throw (.unknownFrame type)
  else if type = 247 then do
    skip 1 2
    skipVerificationType
  else if type ≤ 251 then
    skip 1 2
  else if type ≤ 254 then do
    skip 1 2
    let _ ← times (type - 251) skipVerificationType
  else do
    skip 1 2
    skipCounted skipVerificationType
    skipCounted skipVerificationType

/-! ## Contents -/

/-- What is kept of an attribute. -/
inductive Attribute
  /-- The code of a method, with the offsets of its handlers and its
  tables of line numbers. -/
  | code (maxStack : Nat) (bytes : List UInt8) (handlers : List Nat)
      (lineTables : List (List LineEntry))
  | lineTable (entries : List LineEntry)
  | other
  deriving DecidableEq, Repr

namespace Attribute

def lineTable? : Attribute → Option (List LineEntry)
  | lineTable entries => some entries
  | _ => none

end Attribute

def lineEntry : Reader LineEntry := do
  return { start := ← number 2, line := ← number 2 }

/-- The offset of the handler in an entry of an exception table. -/
def exceptionHandler : Reader Nat := do
  skip 2 2
  let handler ← number 2
  skip 1 2
  return handler

def code (nested : Reader (List Attribute)) : Reader Attribute := do
  let maxStack ← number 2
  skip 1 2
  let bytes ← block (← number 4)
  let handlers ← counted exceptionHandler
  let attributes ← nested
  return .code maxStack bytes handlers (attributes.filterMap Attribute.lineTable?)

/-- Skips the content of the attribute with the given name and length.
`nested` skips attributes inside the content. -/
def skipContent (name : String) (length : Nat) (nested : Reader Unit) : Reader Unit := do
  let value := skipElementValue (← read).size
  match name with
  | "Synthetic" | "Deprecated" => pure ()
  | "ConstantValue" | "SourceFile" | "Signature" | "NestHost" => skip 1 2
  | "EnclosingMethod" => skip 2 2
  | "Exceptions" | "NestMembers" | "PermittedSubclasses" => skipCounted (skip 1 2)
  | "InnerClasses" => skipCounted (skip 4 2)
  | "LocalVariableTable" | "LocalVariableTypeTable" => skipCounted (skip 5 2)
  | "MethodParameters" => skip (2 * (← number 1)) 2
  | "BootstrapMethods" =>
    skipCounted do
      skip 1 2
      skipCounted (skip 1 2)
  | "SourceDebugExtension" => do
    let _ ← block length
  | "StackMapTable" => skipCounted skipStackFrame
  | "Record" =>
    skipCounted do
      skip 2 2
      nested
  | "RuntimeVisibleAnnotations" => do
    requireBlock length
    skipCounted (skipAnnotationItem value)
  | "RuntimeInvisibleAnnotations" => skipCounted (skipAnnotationItem value)
  | "AnnotationDefault" => do
    requireBlock length
    value
  | "RuntimeVisibleParameterAnnotations" | "RuntimeInvisibleParameterAnnotations" => do
    let _ ← times (← number 1) (skipCounted (skipAnnotationItem value))
  | "RuntimeVisibleTypeAnnotations" | "RuntimeInvisibleTypeAnnotations" =>
    skipCounted (skipTypeAnnotationItem value)
  | _ => throw (.unknownAttribute name)

/-- Reads the content of the attribute with the given name and length.
`nested` reads attributes inside the content. -/
def content (name : String) (length : Nat) (nested : Reader (List Attribute)) :
    Reader Attribute :=
  match name with
  | "Code" => code nested
  | "LineNumberTable" => return .lineTable (← counted lineEntry)
  | _ => do
    skipContent name length (discard nested)
    return .other

/-! ## Lists of attributes -/

/-- The name of an attribute, by its index. -/
def attributeName (pool : ConstantPool) (index : Nat) : Reader String :=
  match pool[index]? with
  | some (.utf8 name) => return name
  | _ => throw (.missingElement index)

/-- Reads a list of attributes.  Attributes nest.  Each one takes several
bytes, so they cannot nest deeper than there are bytes. -/
def attributes (pool : ConstantPool) : (depth : Nat) → Reader (List Attribute)
  | 0 => do
    skip 1 2
    return []
  | depth + 1 =>
    counted do
      let name ← attributeName pool (← number 2)
      let length ← number 4
      content name length (attributes pool depth)

end BytecodeLint.ClassFile
