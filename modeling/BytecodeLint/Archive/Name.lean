import BytecodeLint.Utf8

/-!
# Names in archives

A header tells how its texts are spelled.  They are UTF-8, or every byte
stands for one character of the code page 437.
-/

namespace BytecodeLint.Archive

/-- The characters that the bytes from 128 on stand for. -/
def codePage : String :=
  "ÇüéâäàåçêëèïîìÄÅ" ++
  "ÉæÆôöòûùÿÖÜ¢£¥₧ƒ" ++
  "áíóúñÑªº¿⌐¬½¼¡«»" ++
  "░▒▓│┤╡╢╖╕╣║╗╝╜╛┐" ++
  "└┴┬├─┼╞╟╚╔╩╦╠═╬╧" ++
  "╨╤╥╙╘╒╓╫╪┘┌█▄▌▐▀" ++
  "αßΓπΣσµτΦΘΩδ∞φε∩" ++
  "≡±≥≤⌠⌡÷≈°∙·√ⁿ²■\u00a0"

/-- The character that a byte stands for. -/
def codePageCharacter (byte : UInt8) : Char :=
  if byte < 128 then Char.ofNat byte.toNat
  else codePage.toList.getD (byte.toNat - 128) '?'

/-- The text that some bytes spell. -/
def decodeText (unicode : Bool) (bytes : List UInt8) : String :=
  if unicode then Utf8.decodeLenient bytes
  else String.ofList (bytes.map codePageCharacter)

end BytecodeLint.Archive
