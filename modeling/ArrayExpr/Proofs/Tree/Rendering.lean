import Mathlib.Data.List.Forall2
import ArrayExpr.Proofs.Tree.Preorder
import ArrayExpr.Tree.Outline

/-!
# Renderings

A rendering writes a tree by recursion: the line of its label, and then its children with a longer indentation.
`drawAll` keeps branches of several levels in one list instead. At every step it still has to write the renderings of
these branches, one after the other, each with its own indentation and mark (`drawAll_eq_flatMap`), so that an outline
is a rendering (`outlineLines_eq_rendering`). Line by line it names the parts that the walk visits
(`forall₂_rendering_walk`).
-/

namespace ArrayExpr.Tree

mutual

/-- The lines of a tree with an indentation, drawn as the last child or as another one. -/
def rendering (indent : String) (isLast : Bool) : Tree → List String
  | node rule children span =>
    (indent ++ (if isLast then "-- " else "|-- ") ++ (node rule children span).label) ::
      renderings (indent ++ if isLast then "    " else "|   ") children
  | leaf role token span => [indent ++ (if isLast then "-- " else "|-- ") ++ (leaf role token span).label]

/-- The lines of siblings with an indentation. -/
def renderings (indent : String) : List Tree → List String
  | [] => []
  | t :: ts => rendering indent ts.isEmpty t ++ renderings indent ts

end

/-- The lines of a branch. -/
def Branch.rendering (b : Branch) : List String := b.tree.rendering b.indent b.isLast

theorem Branch.rendering_eq (b : Branch) : b.rendering = b.line :: renderings b.inner b.tree.children := by
  obtain ⟨t, indent, isLast⟩ := b
  cases t with
  | node => rw [Branch.rendering, Tree.rendering, Branch.line, Branch.inner, children]
  | leaf => rw [Branch.rendering, Tree.rendering, Branch.line, children, renderings]

/-- The branches of siblings have the lines of the siblings. -/
theorem flatMap_siblings (indent : String) : ∀ ts : List Tree,
    (Branch.siblings indent ts).flatMap Branch.rendering = renderings indent ts
  | [] => by rw [Branch.siblings, List.flatMap_nil, renderings]
  | [t] => by
    rw [Branch.siblings, List.flatMap_singleton, renderings, renderings, List.append_nil]
    rfl
  | t :: u :: rest => by
    rw [Branch.siblings, List.flatMap_cons, flatMap_siblings indent (u :: rest), renderings]
    rfl

theorem drawAll_eq_flatMap (pending : List Branch) : drawAll pending = pending.flatMap Branch.rendering := by
  fun_induction drawAll pending with
  | case1 => rfl
  | case2 b pending ih =>
    rw [ih, List.flatMap_append, Branch.below, flatMap_siblings, List.flatMap_cons, b.rendering_eq, List.cons_append]

theorem outlineLines_eq_rendering (t : Tree) : t.outlineLines = t.rendering "" true := by
  rw [outlineLines, drawAll_eq_flatMap, List.flatMap_singleton]
  rfl

/-! ## Lines and parts -/

/-- The line ends with the label of the part. -/
def EndsWith (line : String) (part : Tree) : Prop := ∃ front, line = front ++ part.label

/-- The lines of siblings name their parts if those of every sibling do. -/
theorem forall₂_renderings {indent : String} : ∀ {ts : List Tree},
    (∀ t ∈ ts, ∀ isLast, List.Forall₂ EndsWith (t.rendering indent isLast) t.walk) →
    List.Forall₂ EndsWith (renderings indent ts) (ts.flatMap walk)
  | [], _ => by
    rw [renderings, List.flatMap_nil]
    exact .nil
  | t :: ts, h => by
    rw [renderings, List.flatMap_cons]
    exact List.rel_append (h t List.mem_cons_self _) (forall₂_renderings fun u hu => h u (List.mem_cons_of_mem t hu))

/-- The lines of a tree name its parts in the order of the walk. -/
theorem forall₂_rendering_walk (t : Tree) (indent : String) (isLast : Bool) :
    List.Forall₂ EndsWith (t.rendering indent isLast) t.walk := by
  induction t using byChildren generalizing indent isLast with
  | step t ih =>
    have heq : t.rendering indent isLast = _ := Branch.rendering_eq ⟨t, indent, isLast⟩
    rw [heq, walk_eq]
    exact .cons ⟨_, rfl⟩ (forall₂_renderings fun child hchild => ih child hchild _)

end ArrayExpr.Tree
