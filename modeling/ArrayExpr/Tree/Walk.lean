import ArrayExpr.Tree.Basic

/-!
# Walking a tree

`walk` lists a tree and all parts below it, each before its own parts and those before what stands to its right. It
keeps the trees still to be visited in a list, so that a deep tree needs no deep recursion. The leaves of a tree
(`leaves`), its parts (`contains`) and their number (`count`) are read off the walk.
-/

namespace ArrayExpr.Tree

/-- Visits the pending trees from left to right, each followed by its parts. -/
def walkAll : List Tree → List Tree
  | [] => []
  | t :: pending => t :: walkAll (t.children ++ pending)
termination_by pending => sizeAll pending
decreasing_by
  simp only [sizeAll, sizeAll_append, size_eq t]
  omega

/-- The tree and all its parts, in the order in which they begin. -/
def walk (t : Tree) : List Tree := walkAll [t]

/-- The tokens of the leaves, from left to right. -/
def leaves (t : Tree) : List Token := t.walk.filterMap token?

/-- The number of parts, the tree itself included. -/
def count (t : Tree) : Nat := t.walk.length

/-- Some part of the tree is the same as another tree. -/
def contains (t other : Tree) : Bool := t.walk.any (·.same other)

/-- The part that a path of child numbers leads to. -/
def descendant? (t : Tree) : List Nat → Option Tree
  | [] => some t
  | i :: path => t.children[i]?.bind (descendant? · path)

end ArrayExpr.Tree
