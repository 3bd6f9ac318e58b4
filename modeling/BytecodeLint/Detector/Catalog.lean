import BytecodeLint.Detector.Boxing
import BytecodeLint.Detector.DiscardedObject
import BytecodeLint.Detector.LiteralComparison
import BytecodeLint.Detector.MemoryBloat
import BytecodeLint.Detector.SelfAssignment

/-!
# The catalog of detectors

All detectors of the library, by ascending id, and the selection of some
of them by their ids.
-/

namespace BytecodeLint

def catalog : List Detector :=
  [ LiteralComparison.detector
  , Boxing.detector
  , MemoryBloat.detector
  , DiscardedObject.detector
  , SelfAssignment.detector ]

/-- An id that no detector has. -/
structure UnknownDetector where
  id : String
  deriving DecidableEq, Repr

def UnknownDetector.message (unknown : UnknownDetector) : String :=
  "unknown detector id: " ++ unknown.id ++
    " (known: " ++ ", ".intercalate (catalog.map (·.id)) ++ ")"

/-- The detectors with the given ids, in the order of the catalog.  An
empty list selects all of them. -/
def selectDetectors (ids : List String) : Except UnknownDetector (List Detector) :=
  if ids = [] then
    .ok catalog
  else
    match ids.find? fun id => !catalog.any (·.id == id) with
    | some id => .error ⟨id⟩
    | none => .ok (catalog.filter fun detector => ids.contains detector.id)

end BytecodeLint
