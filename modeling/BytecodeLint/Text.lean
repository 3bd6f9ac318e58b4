/-!
# Beginnings and ends of texts

Tests and cuts at the two ends of a text, by its characters.
-/

namespace BytecodeLint.Text

def startsWith (text start : String) : Bool :=
  start.toList.isPrefixOf text.toList

def endsWith (text last : String) : Bool :=
  last.toList.isSuffixOf text.toList

/-- The text after the given start. -/
def stripStart? (text start : String) : Option String :=
  (start.toList.isPrefixOf? text.toList).map String.ofList

end BytecodeLint.Text
