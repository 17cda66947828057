/-!
# Sets of characters

A set of characters is a list of closed intervals of code points. Membership is a search through
the list, so the order of the intervals carries no meaning; the tables of this library list them
in ascending order.
-/

namespace WhereClause

/-- **A set of characters**, given by closed intervals of code points. -/
structure CharSet where
  /-- The first and last code point of each interval. -/
  ranges : List (Nat × Nat)

/-- A character is in the set when one of the intervals holds its code point. -/
def CharSet.contains (s : CharSet) (c : Char) : Bool :=
  s.ranges.any fun r => r.1 ≤ c.toNat && c.toNat ≤ r.2

end WhereClause
