import SchemaForms.Address.Basic
import SchemaForms.Text.Decimal

/-!
Fresh variables. The first variable for a leaf is its flattened name followed by Index. Where the
address already holds variables with that beginning, the number after the largest one in use is
appended. Variables are compared and not names, because different names can flatten alike.
-/

namespace SchemaForms.Address

def variableStem (leaf : PrefixedName) : String := leaf.flattened ++ "Index"

/-- The number that a variable has after the stem; no number counts as zero. -/
def suffixNumber? (stem name : String) : Option Nat :=
  match stem.toList.isPrefixOf? name.toList with
  | none => none
  | some [] => some 0
  | some digits => Text.unsigned? digits

def freshVariable (address : Address) : String :=
  match address.leafName? with
  | none => "Index"
  | some leaf =>
    let stem := variableStem leaf
    match (address.vars.filterMap (suffixNumber? stem)).max? with
    | none => stem
    | some number => stem ++ toString (number + 1)

end SchemaForms.Address
