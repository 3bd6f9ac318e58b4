import BytecodeLint.Utf8

/-!
# Texts in class files

The texts of a constant pool are written in a variant of UTF-8.  It
spells the character 0 with two bytes, and it spells a character outside
the basic plane as two surrogates with three bytes each.

`decodeText` is lenient.  Bytes that are proper UTF-8 are read as such.
Otherwise `decodeUnits` reads the variant, and it puts a question mark
for what it cannot read.
-/

namespace BytecodeLint.ClassFile

open Utf8 (isContinuation payload)

/-- The character of a code point, or a question mark for a surrogate. -/
def charOrMark (code : Nat) : Char :=
  if code.isValidChar then Char.ofNat code else '?'

/-- The code point of a sequence of three bytes. -/
def threeByteCode (first second third : UInt8) : Nat :=
  (first.toNat % 16) * 4096 + payload second * 64 + payload third

/-- The character that two surrogates spell, if the bytes are a high one
and a low one. -/
def surrogatePair? : List UInt8 → Option Char
  | first :: second :: third :: fourth :: fifth :: sixth :: _ =>
    if first = 0xed ∧ 0xa0 ≤ second ∧ second ≤ 0xaf ∧ isContinuation third ∧
        fourth = 0xed ∧ 0xb0 ≤ fifth ∧ fifth ≤ 0xbf ∧ isContinuation sixth then
      let high := threeByteCode first second third - 0xd800
      let low := threeByteCode fourth fifth sixth - 0xdc00
      some (Char.ofNat (0x10000 + high * 0x400 + low))
    else
      none
  | _ => none

/-- The character at the start of the bytes, and the number of bytes that
it takes. -/
def decodeUnit (bytes : List UInt8) : Char × Nat :=
  match surrogatePair? bytes with
  | some c => (c, 6)
  | none =>
    match bytes with
    | [] => ('?', 1)
    | first :: rest =>
      let continued := (rest.head?.map isContinuation).getD false
      if first < 0x80 then
        (Char.ofNat first.toNat, 1)
      else if 0xc0 ≤ first && first ≤ 0xdf && continued then
        match rest with
        | second :: _ => (charOrMark ((first.toNat % 32) * 64 + payload second), 2)
        | [] => ('?', 1)
      else if 0xe0 ≤ first && first ≤ 0xef && continued then
        match rest with
        | second :: third :: _ =>
          if isContinuation third then (charOrMark (threeByteCode first second third), 3)
          else ('?', 2)
        | _ => ('?', 2)
      else
        ('?', 1)

/-- A character takes at least one byte. -/
theorem decodeUnit_pos (bytes : List UInt8) : 0 < (decodeUnit bytes).2 := by
  unfold decodeUnit
  repeat' split
  all_goals simp
  all_goals repeat' split
  all_goals simp

/-- Reads character after character. -/
def decodeUnits (bytes : List UInt8) : List Char :=
  match bytes with
  | [] => []
  | first :: rest =>
    let unit := decodeUnit (first :: rest)
    unit.1 :: decodeUnits ((first :: rest).drop unit.2)
termination_by bytes.length
decreasing_by
  have := decodeUnit_pos (first :: rest)
  simp only [List.length_drop, List.length_cons]
  omega

/-- The text that the bytes of a constant pool entry spell. -/
def decodeText (bytes : List UInt8) : String :=
  match String.fromUTF8? (ByteArray.mk bytes.toArray) with
  | some text => text
  | none => String.ofList (decodeUnits bytes)

end BytecodeLint.ClassFile
