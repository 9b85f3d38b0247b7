/-!
Counts in decimal, as a 64-bit word: digits with an optional plus sign, refused where the value
does not fit. Leading zeros are allowed.
-/

namespace SchemaForms.Text

def maxWord : Nat := 0xffffffffffffffff

/-- The value of a nonempty run of ASCII digits. -/
def digitsValue? (cs : List Char) : Option Nat :=
  if !cs.isEmpty && cs.all Char.isDigit then
    some (cs.foldl (fun value c => 10 * value + (c.toNat - '0'.toNat)) 0)
  else none

def unsigned? (cs : List Char) : Option Nat :=
  let digits := match cs with
    | '+' :: rest => rest
    | _ => cs
  (digitsValue? digits).filter (· ≤ maxWord)

end SchemaForms.Text
