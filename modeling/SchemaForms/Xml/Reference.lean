import SchemaForms.Xml.Markup

/-!
References in text and in attribute values, and the two ways in which written characters become
values. In text, a written carriage return becomes a line feed and takes a line feed after it
along. In an attribute value, written tabs and line ends become spaces. A character given by its
number or by its name outside of any entity is left alone, and in text so is the written character
right after it.
-/

namespace SchemaForms.Xml

inductive Piece where
  | written (c : Char)
  | numbered (c : Char)
  | entity (name : String)
  deriving DecidableEq, Repr, Inhabited

def digitValue? (base : Nat) (c : Char) : Option Nat :=
  let value :=
    if c.isDigit then some (c.toNat - '0'.toNat)
    else if 'a' ≤ c ∧ c ≤ 'f' then some (c.toNat - 'a'.toNat + 10)
    else if 'A' ≤ c ∧ c ≤ 'F' then some (c.toNat - 'A'.toNat + 10)
    else none
  value.filter (· < base)

/-- A number that names no character stands for the replacement character, unless it exceeds 32
bits. -/
def characterOf? (base : Nat) (digits : List Char) : Option Char := do
  if digits.isEmpty then none
  let values ← digits.mapM (digitValue? base)
  let number := values.foldl (fun number value => base * number + value) 0
  if 0x100000000 ≤ number then none
  let c := if number.isValidChar then Char.ofNat number else '\ufffd'
  if isDocumentChar c then some c else none

def namedCharacter? (name : String) : Option Char :=
  match name with
  | "quot" => some '"'
  | "amp" => some '&'
  | "apos" => some '\''
  | "lt" => some '<'
  | "gt" => some '>'
  | _ => none

/-- A reference after its ampersand. -/
def readReference? (cs : List Char) : Option (Piece × List Char) := do
  let (piece, rest) ← match cs with
    | '#' :: 'x' :: rest => do
      let digits := rest.takeWhile fun c => (digitValue? 16 c).isSome
      pure (.numbered (← characterOf? 16 digits), rest.drop digits.length)
    | '#' :: rest => do
      let digits := rest.takeWhile fun c => (digitValue? 10 c).isSome
      pure (.numbered (← characterOf? 10 digits), rest.drop digits.length)
    | _ => do
      let (name, rest) ← readName? cs
      match namedCharacter? name with
      | some c => pure (.numbered c, rest)
      | none => pure (.entity name, rest)
  let rest ← after? ";" rest
  return (piece, rest)

def readPieces? (cs : List Char) : Option (List Piece) :=
  match cs with
  | [] => some []
  | c :: following =>
    if c == '&' then
      match readReference? following with
      | some (piece, rest) =>
        if rest.length ≤ following.length then (readPieces? rest).map (piece :: ·) else none
      | none => none
    else (readPieces? following).map (.written c :: ·)
termination_by cs.length
decreasing_by all_goals simp only [List.length_cons]; omega

/-- Adds a written character to a text whose characters are held last first. -/
def addWritten (isLast : Bool) (c : Char) (reversed : List Char) : List Char :=
  let ended := match reversed with
    | '\r' :: earlier => if c == '\n' then earlier else '\n' :: earlier
    | _ => reversed
  if isLast && c == '\r' then '\n' :: ended else c :: ended

/-- A line end or a tab in an attribute value. -/
def spaced (c : Char) : Char := if c == '\n' || c == '\r' || c == '\t' then ' ' else c

end SchemaForms.Xml
