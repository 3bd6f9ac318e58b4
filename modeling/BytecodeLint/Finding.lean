/-!
# Findings

What an analysis reports.  A finding says that a rule applies at a place
in the code.  A diagnostic says that a part of the analysis was given up.

`sortFindings` puts findings into the order of every report: by rule,
class, method name, method descriptor and offset.  Findings that agree in
all five keep their order.
-/

namespace BytecodeLint

/-! ## Findings -/

inductive Priority
  | normal
  | low
  deriving DecidableEq, Repr

/-- The member that a finding is about. -/
inductive Subject
  | field (owner name descriptor : String)
  | localVar (index : Nat)
  deriving DecidableEq, Repr

def Subject.text : Subject → String
  | field owner name _ => "field " ++ owner ++ "." ++ name
  | localVar index => "local variable " ++ toString index

/-- A place in the code of a method. -/
structure Location where
  className : String
  methodName : String
  methodDescriptor : String
  offset : Nat
  line : Option Nat
  /-- Where the class was read from. -/
  uri : Option String
  deriving DecidableEq, Repr

structure Finding where
  ruleId : String
  priority : Priority
  location : Location
  subject : Option Subject
  deriving DecidableEq, Repr

/-! ## Order -/

namespace Finding

/-- The order of reports, by rule, class, method name, method descriptor
and offset. -/
def order : Finding → Finding → Ordering :=
  compareLex (compareOn (·.ruleId)) <|
  compareLex (compareOn (·.location.className)) <|
  compareLex (compareOn (·.location.methodName)) <|
  compareLex (compareOn (·.location.methodDescriptor)) <|
  compareOn (·.location.offset)

instance : Std.TransCmp order := by
  unfold order
  infer_instance

end Finding

/-- Sorts findings into the order of reports. -/
def sortFindings (findings : List Finding) : List Finding :=
  findings.mergeSort fun left right => (left.order right).isLE

/-! ## Diagnostics -/

/-- A part of an analysis that was given up. -/
structure Diagnostic where
  className : String
  /-- The name and descriptor of the method. -/
  method : Option String
  /-- The detector that failed.  Without one, the method was given up for
  all detectors. -/
  detector : Option String
  offset : Option Nat
  message : String
  deriving DecidableEq, Repr

end BytecodeLint
