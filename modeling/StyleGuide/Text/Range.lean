/-! # Ranges of characters

A character class beyond ASCII is a table of ranges of code points in ascending order.
-/

namespace StyleGuide.Text

/-- Ranges of code points, both ends included. -/
abbrev RangeTable := Array (Nat × Nat)

namespace RangeTable

/-- Whether the character lies in one of the ranges. -/
def covers (table : RangeTable) (c : Char) : Bool :=
  table.any fun range => range.1 ≤ c.toNat && c.toNat ≤ range.2

end RangeTable

end StyleGuide.Text
