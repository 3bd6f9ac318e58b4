import BytecodeLint.Detector

/-!
# Comparisons with a literal argument

`s.equals("literal")` fails when `s` is null, and `"literal".equals(s)`
does not.  The detector reports a string comparison whose argument is a
literal.
-/

namespace BytecodeLint.LiteralComparison

def literalArgument : Rule where
  id := "LSC_LITERAL_STRING_COMPARISON"
  name := "Literal string comparison"
  description := "String comparison called on a variable with a literal argument; " ++
    "calling it on the literal is null-safe"
  priority := .low

/-- The methods of a string that compare it with their one argument. -/
def comparisonMethods : List (String × String) :=
  [ ("equals", "(Ljava/lang/Object;)Z")
  , ("compareTo", "(Ljava/lang/String;)I")
  , ("equalsIgnoreCase", "(Ljava/lang/String;)Z") ]

/-- The step calls a comparison of strings. -/
def callsComparison (step : Step) : Bool :=
  step.opcode == .invokevirtual && step.instruction.call?.any fun site =>
    site.owner == "java/lang/String" && comparisonMethods.contains (site.name, site.descriptor)

/-- A string literal is on top of the stack. -/
def hasLiteralArgument (step : Step) : Bool :=
  ((step.peek? 0).bind Slot.string?).isSome

def detector : Detector where
  id := "LSC"
  name := "Literal string comparison"
  slug := "literal_string_comparison"
  rules := [literalArgument]
  State := Unit
  accepts _ opcodes := opcodes.containsAny [.ldc, .ldcW]
  start _ := some ()
  visit step := pure <|
    if callsComparison step && hasLiteralArgument step then
      [step.finding literalArgument none]
    else
      []

end BytecodeLint.LiteralComparison
