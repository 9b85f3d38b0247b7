import SchemaForms.Schema.Error
import SchemaForms.Text.Blank
import SchemaForms.Text.Decimal
import SchemaForms.Xml.Element

/-!
How often a particle may occur. Both bounds are one where they are not given. Bounds fit a 64-bit
word, and the upper one may be absent.
-/

namespace SchemaForms

inductive MaxOccurs where
  | unbounded
  | count (number : Nat)
  deriving DecidableEq, Repr, Inhabited

structure Occurs where
  min : Nat
  max : MaxOccurs
  deriving DecidableEq, Repr, Inhabited

namespace MaxOccurs

def isMany : MaxOccurs → Bool
  | unbounded => true
  | count number => 1 < number

/-- Whether so many occurrences leave room for one more. -/
def admitsMore (max : MaxOccurs) (occurrences : Nat) : Bool :=
  match max with
  | unbounded => true
  | count number => occurrences < number

def text : MaxOccurs → String
  | unbounded => "unbounded"
  | count number => toString number

end MaxOccurs

namespace Occurs

def once : Occurs := ⟨1, .count 1⟩

def isOptional (occurs : Occurs) : Bool := occurs.min = 0

def isMany (occurs : Occurs) : Bool := occurs.max.isMany

def readCount (written : String) : Except SchemaError Nat :=
  match Text.unsigned? (Text.trimChars written.toList) with
  | some number => .ok number
  | none => .error (.invalidValue written "xs:nonNegativeInteger")

def readMax (written : String) : Except SchemaError MaxOccurs :=
  if Text.trim written = "unbounded" then .ok .unbounded
  else (readCount written).map .count

def ofElement (particle : Xml.Element) : Except SchemaError Occurs := do
  let min ← (particle.attribute? "minOccurs").elim (.ok 1) readCount
  let max ← (particle.attribute? "maxOccurs").elim (.ok (.count 1)) readMax
  return ⟨min, max⟩

end Occurs

end SchemaForms
