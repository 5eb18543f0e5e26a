/-!
# Ranges of code points

A class of characters is given by closed ranges of code points, listed in ascending order.
-/

namespace ScriptCore

/-- Closed ranges of code points. -/
abbrev CodeRanges := List (Nat × Nat)

namespace CodeRanges

/-- The code point of the character is in one of the ranges. -/
def has (ranges : CodeRanges) (c : Char) : Bool :=
  ranges.any fun r => r.1 ≤ c.toNat && c.toNat ≤ r.2

end CodeRanges
end ScriptCore
