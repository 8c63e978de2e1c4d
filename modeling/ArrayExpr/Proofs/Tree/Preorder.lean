import ArrayExpr.Tree.Walk

/-!
# The walk is the preorder

`walk` visits a list of pending trees. Here it is given the shape of the tree: the walk of a tree is the tree itself
and after it the walks of its children (`walk_eq`), and the leaves of a node are those of its children (`leaves_node`).
The induction principles `Tree.byParts` and `Tree.byChildren` go from the children of a node to the node.
-/

namespace ArrayExpr.Tree

/-- What holds of a node whenever it holds of all its children, and of every leaf, holds of every tree. -/
@[induction_eliminator]
theorem byParts {P : Tree → Prop}
    (node : ∀ rule children span, (∀ child ∈ children, P child) → P (.node rule children span))
    (leaf : ∀ role token span, P (.leaf role token span)) (t : Tree) : P t :=
  @Tree.rec P (fun ts => ∀ t ∈ ts, P t) node leaf (fun _ h => nomatch h)
    (fun _ _ hhead htail _ h => (List.mem_cons.mp h).elim (fun he => he ▸ hhead) (htail _)) t

/-- What holds of a tree whenever it holds of all its children holds of every tree. -/
theorem byChildren {P : Tree → Prop} (step : ∀ t : Tree, (∀ child ∈ t.children, P child) → P t) (t : Tree) : P t := by
  induction t with
  | node rule parts span ih => exact step _ ih
  | leaf role token span => exact step _ fun _ h => nomatch h

/-! ## Walks -/

theorem walkAll_append (ts us : List Tree) : walkAll (ts ++ us) = walkAll ts ++ walkAll us := by
  fun_induction walkAll ts with
  | case1 => rfl
  | case2 t pending ih =>
    rw [List.cons_append, walkAll, ← List.append_assoc, ih]
    rfl

theorem walkAll_eq_flatMap : ∀ ts : List Tree, walkAll ts = ts.flatMap walk
  | [] => by rw [walkAll, List.flatMap_nil]
  | t :: ts => by
    rw [← List.singleton_append, walkAll_append, walkAll_eq_flatMap ts]
    rfl

/-- **The walk of a tree**: the tree, and then the walks of its children from left to right. -/
theorem walk_eq (t : Tree) : t.walk = t :: t.children.flatMap walk := by
  rw [walk, walkAll, List.append_nil, walkAll_eq_flatMap]

theorem mem_walk_self (t : Tree) : t ∈ t.walk := by
  rw [walk_eq]
  exact List.mem_cons_self

theorem mem_walk_iff {t part : Tree} : part ∈ t.walk ↔ part = t ∨ ∃ child ∈ t.children, part ∈ child.walk := by
  rw [walk_eq, List.mem_cons, List.mem_flatMap]

theorem mem_walk_node {rule : Nonterminal} {children : List Tree} {span : Option Span} {t : Tree} :
    t ∈ (node rule children span).walk ↔ t = node rule children span ∨ ∃ child ∈ children, t ∈ child.walk :=
  mem_walk_iff

@[simp] theorem walk_leaf (role : Role) (token : Token) (span : Span) :
    (leaf role token span).walk = [leaf role token span] := by
  rw [walk_eq]
  rfl

/-! ## Leaves -/

/-- The tokens of a tree are those of the leaves in its walk. -/
theorem mem_leaves_iff {t : Tree} {token : Token} :
    token ∈ t.leaves ↔ ∃ role span, leaf role token span ∈ t.walk := by
  rw [leaves, List.mem_filterMap]
  constructor
  · rintro ⟨part, hpart, htoken⟩
    cases part with
    | node => cases htoken
    | leaf role token' span =>
      cases htoken
      exact ⟨role, span, hpart⟩
  · rintro ⟨role, span, hleaf⟩
    exact ⟨_, hleaf, rfl⟩

@[simp] theorem leaves_node (rule : Nonterminal) (children : List Tree) (span : Option Span) :
    (node rule children span).leaves = children.flatMap leaves := by
  rw [leaves, walk_eq]
  simp only [List.filterMap_cons, token?, Tree.children, List.filterMap_flatMap]
  rfl

@[simp] theorem leaves_leaf (role : Role) (token : Token) (span : Span) : (leaf role token span).leaves = [token] := by
  rw [leaves, walk_leaf]
  rfl

@[simp] theorem leaves_identifier (token : Token) : (identifier token).leaves = [token] := leaves_leaf ..

@[simp] theorem leaves_literal (token : Token) : (literal token).leaves = [token] := leaves_leaf ..

/-- The leaves of a part are a contiguous piece of the leaves of the tree. -/
theorem leaves_infix_of_mem_walk {t part : Tree} (h : part ∈ t.walk) : part.leaves <:+: t.leaves := by
  induction t with
  | node rule children span ih =>
    rcases mem_walk_node.mp h with rfl | ⟨child, hchild, hpart⟩
    · exact List.infix_rfl
    · obtain ⟨before, after, rfl⟩ := List.append_of_mem hchild
      refine (ih child hchild hpart).trans ⟨before.flatMap leaves, after.flatMap leaves, ?_⟩
      rw [leaves_node, List.flatMap_append, List.flatMap_cons, List.append_assoc]
  | leaf role token span =>
    rw [walk_leaf, List.mem_singleton] at h
    subst h
    exact List.infix_rfl

end ArrayExpr.Tree
