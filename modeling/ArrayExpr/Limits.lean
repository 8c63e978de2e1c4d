/-!
# Limits

Trees are read and compared by recursion, and only so many calls may be in progress at once. The program sets this
`recursionLimit` for itself. What it leaves for the groups of an expression (`nestingLimit`) and for the levels of two
trees that are compared (`comparisonLimit`) is counted here as if no other calls were in progress, so that a run may
meet its limits a few levels earlier.
-/

namespace ArrayExpr

/-- The number of calls that may be in progress at once. -/
def recursionLimit : Nat := 5000

/-- The number of groups that may be open at once. Each takes three calls, one for each rule of the grammar. -/
def nestingLimit : Nat := recursionLimit / 3

/-- The number of levels to which two trees can be compared. Each takes four calls, one for the nodes and three on the
way through their lists of children. -/
def comparisonLimit : Nat := recursionLimit / 4

end ArrayExpr
