/-!
Sets of characters given by ranges of code points, both ends included.
-/

namespace SchemaForms.Text

def inRanges (ranges : List (Nat × Nat)) (c : Char) : Bool :=
  ranges.any fun range => range.1 ≤ c.toNat && c.toNat ≤ range.2

end SchemaForms.Text
