/-!
# Lenient UTF-8

`decodeLenient` reads bytes as UTF-8 whatever they are.  A sequence of
bytes that could start a character but does not complete one becomes a
single replacement character.  The sequence is taken as long as it can
be, so the byte that breaks it starts the next character.

For the bytes of a text the result is the text.
-/

namespace BytecodeLint.Utf8

/-! ## Bytes -/

/-- The byte continues a character. -/
def isContinuation (byte : UInt8) : Bool :=
  0x80 ≤ byte && byte ≤ 0xbf

/-- The six bits that a continuation byte carries. -/
def payload (byte : UInt8) : Nat :=
  byte.toNat % 64

/-- The byte may be the second one of a character.  Behind some first
bytes fewer are allowed, because a character has only one spelling and
surrogates and numbers beyond the last character have none. -/
def isSecond (first second : UInt8) : Bool :=
  let least : UInt8 := if first = 0xe0 then 0xa0 else if first = 0xf0 then 0x90 else 0x80
  let greatest : UInt8 := if first = 0xed then 0x9f else if first = 0xf4 then 0x8f else 0xbf
  least ≤ second && second ≤ greatest

/-- The number of bytes of a character, by the first of them. -/
def width? (first : UInt8) : Option Nat :=
  if first < 0x80 then some 1
  else if 0xc2 ≤ first && first ≤ 0xdf then some 2
  else if 0xe0 ≤ first && first ≤ 0xef then some 3
  else if 0xf0 ≤ first && first ≤ 0xf4 then some 4
  else none

/-! ## Characters -/

/-- The bytes behind the first one that belong to the same character, at
most `count` of them. -/
def tail (first : UInt8) (rest : List UInt8) (count : Nat) : List UInt8 :=
  match count, rest with
  | 0, _ => []
  | _, [] => []
  | count + 1, second :: rest =>
    if isSecond first second then second :: (rest.take count).takeWhile isContinuation else []

/-- The bits of the first byte that belong to the number of a character
with `width` bytes. -/
def leading (first : UInt8) (width : Nat) : Nat :=
  match width with
  | 1 => first.toNat
  | 2 => first.toNat % 32
  | 3 => first.toNat % 16
  | _ => first.toNat % 8

/-- The character that a first byte and the bytes behind it spell, and
the number of bytes behind the first one that were used. -/
def character (first : UInt8) (rest : List UInt8) : Char × Nat :=
  match width? first with
  | none => ('\ufffd', 0)
  | some width =>
    let used := tail first rest (width - 1)
    if used.length + 1 = width then
      let code := used.foldl (fun code byte => code * 64 + payload byte) (leading first width)
      (Char.ofNat code, used.length)
    else
      ('\ufffd', used.length)

/-- The text that the bytes spell, with a replacement character for every
sequence that spells none. -/
def decodeCharacters : List UInt8 → List Char
  | [] => []
  | first :: rest =>
    let next := character first rest
    next.1 :: decodeCharacters (rest.drop next.2)
termination_by bytes => bytes.length
decreasing_by
  simp only [List.length_drop, List.length_cons]
  omega

def decodeLenient (bytes : List UInt8) : String :=
  String.ofList (decodeCharacters bytes)

end BytecodeLint.Utf8
