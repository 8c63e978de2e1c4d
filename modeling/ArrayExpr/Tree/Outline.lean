import ArrayExpr.Tree.Basic

/-!
# Outlines

The outline of a tree has a line for each part, indented below the part that holds it:

    -- Expression
        |-- Term
        |   -- Factor
        |       -- ID('a')
        |-- '+'
        -- Term
            -- Factor
                -- ID('b')

A last child hangs on a branch of its own, and the others on a stem that runs on to their next sibling. Like a walk,
the drawing keeps what is still to be drawn in a list.
-/

namespace ArrayExpr.Tree

/-- A part to be drawn, its indentation, and whether it is the last child. -/
structure Branch where
  tree : Tree
  indent : String
  isLast : Bool

namespace Branch

/-- The branches of siblings at one indentation. -/
def siblings (indent : String) : List Tree → List Branch
  | [] => []
  | [t] => [⟨t, indent, true⟩]
  | t :: u :: rest => ⟨t, indent, false⟩ :: siblings indent (u :: rest)

/-- The indentation of what hangs below. -/
def inner (b : Branch) : String := b.indent ++ if b.isLast then "    " else "|   "

/-- The branches below. -/
def below (b : Branch) : List Branch := siblings b.inner b.tree.children

/-- The line of a branch. -/
def line (b : Branch) : String := b.indent ++ (if b.isLast then "-- " else "|-- ") ++ b.tree.label

theorem map_tree_siblings (indent : String) : ∀ ts : List Tree, (siblings indent ts).map tree = ts
  | [] => rfl
  | [_] => rfl
  | t :: u :: rest => by
    simp only [siblings, List.map_cons, map_tree_siblings indent (u :: rest)]

end Branch

/-- The lines of the pending branches, each followed by those of the branches below it. -/
def drawAll : List Branch → List String
  | [] => []
  | b :: pending => b.line :: drawAll (b.below ++ pending)
termination_by pending => sizeAll (pending.map Branch.tree)
decreasing_by
  simp only [List.map_append, List.map_cons, Branch.below, Branch.map_tree_siblings, sizeAll, sizeAll_append,
    size_eq b.tree]
  omega

/-- The lines of the outline. -/
def outlineLines (t : Tree) : List String := drawAll [⟨t, "", true⟩]

/-- The tree drawn with a line for each part. -/
def outline (t : Tree) : String := "\n".intercalate t.outlineLines

end ArrayExpr.Tree
