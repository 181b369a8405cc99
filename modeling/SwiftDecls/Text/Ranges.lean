/-!
# Character properties as ranges of code points

A property of characters is a list of closed ranges, and `inRanges` asks whether a character has
the property.
-/

set_option autoImplicit false

namespace SwiftDecls.Text

/-- The character lies in one of the closed ranges. -/
def inRanges (ranges : List (Nat × Nat)) (c : Char) : Bool :=
  ranges.any fun r => r.1 ≤ c.toNat && c.toNat ≤ r.2

end SwiftDecls.Text
