/-!
# Ranges of characters

A property of characters is kept as the closed ranges of code points that have it, in ascending
order.
-/

namespace Lox

/-- Closed ranges of code points. -/
abbrev CodeRanges := List (Nat × Nat)

/-- The character lies in one of the ranges. -/
def CodeRanges.covers (ranges : CodeRanges) (c : Char) : Bool :=
  ranges.any fun (first, last) => first ≤ c.toNat && c.toNat ≤ last

end Lox
