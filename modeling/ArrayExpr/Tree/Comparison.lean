import ArrayExpr.Limits
import ArrayExpr.Tree.Walk

/-!
# Comparing trees level by level

Two trees are compared by recursion, and if they agree further down than calls may be in progress, there is no answer
(`sameWithin`). Children are compared from left to right up to the first difference. A tree is looked for along the walk
of another one, up to the first part that is the same or cannot be compared (`containsWithin`). Both trees are taken to
be built on their own: parts that they share would not be looked into.
-/

namespace ArrayExpr.Tree

/-- Why there is no answer. -/
inductive ComparisonError where
  /-- The trees agree down to a level that cannot be reached. -/
  | tooManyLevels
  deriving DecidableEq, Repr

/-- What is said of a comparison without an answer. -/
def ComparisonError.message : ComparisonError → String
  | tooManyLevels => "maximum recursion depth exceeded in comparison"

mutual

/-- The trees agree in all but places, if that is found out within so many levels. -/
def sameWithin : Nat → Tree → Tree → Except ComparisonError Bool
  | 0, _, _ => .error .tooManyLevels
  | limit + 1, node rule children _, node rule' children' _ =>
    if rule == rule' then sameAllWithin limit children children' else .ok false
  | _ + 1, leaf role token _, leaf role' token' _ => .ok (role == role' && token.same token')
  | _ + 1, _, _ => .ok false

/-- The trees of two lists agree one by one, if that is found out within so many levels. -/
def sameAllWithin : Nat → List Tree → List Tree → Except ComparisonError Bool
  | _, [], [] => .ok true
  | limit, t :: ts, u :: us =>
    match sameWithin limit t u with
    | .ok true => sameAllWithin limit ts us
    | other => other
  | _, _, _ => .ok false

end

/-- Some part of the tree is the same as another tree, if each part before it can be told from that tree. -/
def containsWithin (limit : Nat) (t other : Tree) : Except ComparisonError Bool :=
  t.walk.anyM (·.sameWithin limit other)

end ArrayExpr.Tree
