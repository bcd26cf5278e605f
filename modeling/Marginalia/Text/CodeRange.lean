import Marginalia.Text.Basic

/-!
Sets of characters given by ranges of code points, as the properties of characters are published.
-/

namespace Marginalia.Text

/-- First and last code point, both included. -/
abbrev CodeRange := Nat × Nat

def inRanges (ranges : List CodeRange) (c : Char) : Bool :=
  ranges.any fun r => r.1 ≤ c.toNat && c.toNat ≤ r.2

end Marginalia.Text
