import BytecodeLint.Bytecode.Decode
import BytecodeLint.ClassFile.Image

/-!
# Class files

Decodes the bytes of a class file into a class.

There are three groups.

* `ClassFault` lists the reasons for which bytes are refused, from the
  outside in.
* The parts of a class.  `sortedLines` puts the tables of line numbers of
  a method together.
* `ClassFile.decode`.
-/

namespace BytecodeLint

open ClassFile

/-! ## Faults -/

/-- Why bytes are no class file. -/
inductive ClassFault
  /-- The bytes end within the magic number. -/
  | noHeader (fault : CodeFault)
  | badMagic
  /-- The bytes end within the version. -/
  | noVersion (fault : CodeFault)
  | badImage (fault : ImageFault)
  | noName (fault : PoolFault)
  | badField (part : MemberPart) (fault : PoolFault)
  | badMethod (part : MemberPart) (fault : PoolFault)
  /-- The code of the method with the given name and descriptor. -/
  | badCode (signature : String) (fault : CodeFault)
  deriving DecidableEq, Repr

def MemberPart.word : MemberPart → String
  | owner => "owner"
  | name => "name"
  | descriptor => "descriptor"

def ClassFault.message : ClassFault → String
  | noHeader fault => "class file header: " ++ fault.message
  | badMagic => "invalid class file magic"
  | noVersion fault => "class file version: " ++ fault.message
  | badImage fault => "failed to parse class file bytes: I/O Error: " ++ fault.message
  | noName fault => "resolve class name: " ++ fault.message
  | badField part fault =>
    "parse fields: resolve field " ++ part.word ++ ": " ++ fault.message
  | badMethod part fault =>
    "parse method bytecode: resolve method " ++ part.word ++ ": " ++ fault.message
  | badCode signature fault =>
    "parse method bytecode: parse bytecode of " ++ signature ++ ": " ++ fault.message

namespace ClassFile

/-! ## Parts -/

/-- The line entries of all tables of a method, by ascending start.
Entries with the same start keep their order. -/
def sortedLines (tables : List (List LineEntry)) : List LineEntry :=
  tables.flatten.mergeSort fun left right => left.start ≤ right.start

/-- The offsets of the handlers, ascending and without repetition. -/
def sortedHandlers (handlers : List Nat) : List Nat :=
  handlers.eraseDups.mergeSort

def field (pool : ConstantPool) (image : MemberImage) : Except ClassFault Field := do
  let name ← (pool.text image.name).mapError (.badField .name)
  let descriptor ← (pool.text image.descriptor).mapError (.badField .descriptor)
  return { name, descriptor, isStatic := image.isStatic }

/-- A method.  Only its first code attribute counts, and without one the
method has no body. -/
def method (pool : ConstantPool) (image : MemberImage) : Except ClassFault Method := do
  let name ← (pool.text image.name).mapError (.badMethod .name)
  let descriptor ← (pool.text image.descriptor).mapError (.badMethod .descriptor)
  let codes := image.attributes.filterMap fun
    | .code maxStack bytes handlers lineTables => some (maxStack, bytes, handlers, lineTables)
    | _ => none
  match codes.head? with
  | none => return { name, descriptor, maxStack := none, code := [], lines := [], handlers := [] }
  | some (maxStack, bytes, handlers, lineTables) =>
    let code ← (Bytecode.decode pool bytes).mapError (.badCode (name ++ descriptor))
    return {
      name, descriptor, maxStack := some maxStack, code
      lines := sortedLines lineTables
      handlers := sortedHandlers handlers }

/-- The major version of a class file, behind the magic number. -/
def majorVersion (data : ByteArray) : Except ClassFault Nat := do
  let header := (data.extract 0 8).toList
  let magic ← (Bytecode.readUnsigned 4 0 header).mapError .noHeader
  if magic ≠ 0xcafebabe then
    throw .badMagic
  (Bytecode.readUnsigned 2 6 header).mapError .noVersion

/-- Decodes a class file that was found at the given place. -/
def decode (data : ByteArray) (uri : Option String) : Except ClassFault Class := do
  let majorVersion ← majorVersion data
  let image ← (ClassImage.read data).mapError .badImage
  let name ← (image.pool.className image.thisClass).mapError .noName
  let fields ← image.fields.mapM (field image.pool)
  let methods ← image.methods.mapM (method image.pool)
  return { name, majorVersion, fields, methods, uri }

end ClassFile

end BytecodeLint
