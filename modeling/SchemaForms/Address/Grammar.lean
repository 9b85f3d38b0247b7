import SchemaForms.Address.Basic
import SchemaForms.Text.Decimal
import SchemaForms.Text.Quoted
import SchemaForms.Text.WordChar

/-!
The written form of addresses. A segment is an optional at sign, a name with an optional prefix
and, for an element, an optional index in brackets: a position without sign or a variable after a
dollar sign. Names and variables begin with an ASCII letter or an underscore and go on with word
characters; names may also hold dots and hyphens.
-/

namespace SchemaForms

inductive AddressError where
  | notAbsolute (source : String)
  | invalidSegment (segment : String)
  | attributeNotLast (source : String)
  deriving DecidableEq, Repr

namespace AddressError

def message : AddressError → String
  | notAbsolute source => "address " ++ Text.quoted source ++ " is not absolute"
  | invalidSegment segment => "invalid address segment " ++ Text.quoted segment
  | attributeNotLast source => "attribute segment " ++ Text.quoted source ++ " must be last"

end AddressError

namespace Address

def startsName (c : Char) : Bool := c.isAlpha || c == '_'

def continuesName (c : Char) : Bool := Text.isWordChar c || c == '.' || c == '-'

/-- The longest identifier at the front and what follows it. -/
def readIdentifier? (continues : Char → Bool) : List Char → Option (String × List Char)
  | [] => none
  | c :: cs =>
    if startsName c then
      some (String.ofList (c :: cs.takeWhile continues), cs.dropWhile continues)
    else none

def readName? (cs : List Char) : Option (PrefixedName × List Char) := do
  let (first, rest) ← readIdentifier? continuesName cs
  match rest with
  | ':' :: rest =>
    let (second, rest) ← readIdentifier? continuesName rest
    return (⟨some first, second⟩, rest)
  | _ => return (.unprefixed first, rest)

/-- The inside of the brackets. Positions start at one and fit a 64-bit word. -/
def readIndex? : List Char → Option Index
  | '$' :: cs =>
    match readIdentifier? Text.isWordChar cs with
    | some (name, []) => some (.var name)
    | _ => none
  | cs =>
    match Text.digitsValue? cs with
    | some number => if 0 < number ∧ number ≤ Text.maxWord then some (.position number) else none
    | none => none

def readBrackets? : List Char → Option (Option Index)
  | [] => some none
  | '[' :: cs =>
    match cs.getLast? with
    | some ']' => (readIndex? cs.dropLast).map some
    | _ => none
  | _ => none

def readSegment? : List Char → Option Segment
  | '@' :: cs =>
    match readName? cs with
    | some (name, []) => some (.attr name)
    | _ => none
  | cs =>
    match readName? cs with
    | some (name, rest) => (readBrackets? rest).map (.element name ·)
    | none => none

/-- Whether an attribute comes too early is asked before the segment after it is read. -/
def readSegments (source : String) : List (List Char) → Except AddressError (List Segment)
  | [] => .ok []
  | raw :: rest =>
    match readSegment? raw with
    | none => .error (.invalidSegment (String.ofList raw))
    | some segment =>
      if segment.isAttribute && !rest.isEmpty then .error (.attributeNotLast source)
      else (readSegments source rest).map (segment :: ·)

def parse (source : String) : Except AddressError Address :=
  match source.toList with
  | '/' :: cs => (readSegments source (Text.pieces (· == '/') cs)).map Address.mk
  | _ => .error (.notAbsolute source)

end Address

end SchemaForms
