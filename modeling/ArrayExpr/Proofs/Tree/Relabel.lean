import Mathlib.Data.List.Basic
import ArrayExpr.Proofs.Tree.Preorder

/-!
# Trees over other tokens

`mapTokens f` builds a tree again over the tokens that `f` gives for its own, and takes the place of every part from the
parts below, as the constructors do. With tokens that stand nowhere (`Token.unplaced`) this forgets all places: two
trees are the same exactly if that leaves them equal (`same_iff`), so sameness is an equivalence, and the leaves of
trees that are the same have the same contents (`content_leaves_of_same`).
-/

namespace ArrayExpr

namespace Token

/-- The token without its place. -/
def unplaced (t : Token) : Token := { t with span := .nowhere }

@[simp] theorem kind_unplaced (t : Token) : t.unplaced.kind = t.kind := rfl

theorem unplaced_eq_iff {a b : Token} : a.unplaced = b.unplaced ↔ a.content = b.content := by
  simp only [unplaced, content, mk.injEq, Prod.mk.injEq, and_true]

theorem map_unplaced_eq_iff : ∀ ts us : List Token,
    ts.map unplaced = us.map unplaced ↔ ts.map content = us.map content
  | [], [] | [], _ :: _ | _ :: _, [] => by simp
  | t :: ts, u :: us => by
    simp only [List.map_cons, List.cons.injEq, unplaced_eq_iff, map_unplaced_eq_iff ts us]

end Token

namespace Tree

mutual

/-- The tree built again over the tokens that a function gives for its own. -/
def mapTokens (f : Token → Token) : Tree → Tree
  | node rule children _ => branch rule (mapTokensAll f children)
  | leaf role token _ => ofToken role (f token)

/-- The trees of a list built again. -/
def mapTokensAll (f : Token → Token) : List Tree → List Tree
  | [] => []
  | t :: ts => mapTokens f t :: mapTokensAll f ts

end

variable (f g : Token → Token)

theorem mapTokensAll_eq_map : ∀ ts : List Tree, mapTokensAll f ts = ts.map (mapTokens f)
  | [] => rfl
  | t :: ts => by rw [mapTokensAll, mapTokensAll_eq_map ts, List.map_cons]

@[simp] theorem mapTokens_node (rule : Nonterminal) (children : List Tree) (span : Option Span) :
    (node rule children span).mapTokens f = branch rule (children.map (mapTokens f)) := by
  rw [mapTokens, mapTokensAll_eq_map]

@[simp] theorem mapTokens_branch (rule : Nonterminal) (children : List Tree) :
    (branch rule children).mapTokens f = branch rule (children.map (mapTokens f)) :=
  mapTokens_node f rule children _

@[simp] theorem mapTokens_leaf (role : Role) (token : Token) (span : Span) :
    (leaf role token span).mapTokens f = ofToken role (f token) := rfl

theorem mapTokens_mapTokens (t : Tree) : (t.mapTokens f).mapTokens g = t.mapTokens (g ∘ f) := by
  induction t with
  | node rule children span ih =>
    rw [mapTokens_node, mapTokens_branch, mapTokens_node, List.map_map]
    exact congrArg (branch rule) (List.map_congr_left ih)
  | leaf role token span => rfl

@[simp] theorem leaves_mapTokens (t : Tree) : (t.mapTokens f).leaves = t.leaves.map f := by
  induction t with
  | node rule children span ih =>
    rw [mapTokens_node, branch, leaves_node, leaves_node, List.flatMap_map, List.map_flatMap]
    exact List.flatMap_congr ih
  | leaf role token span => rw [mapTokens_leaf, ofToken, leaves_leaf, leaves_leaf, List.map_singleton]

/-- Paths lead to the same parts, built again. -/
theorem descendant?_mapTokens (t : Tree) (path : List Nat) :
    (t.mapTokens f).descendant? path = (t.descendant? path).map (mapTokens f) := by
  have hchildren : ∀ u : Tree, (u.mapTokens f).children = u.children.map (mapTokens f) := by
    intro u
    cases u with
    | node rule children span => rw [mapTokens_node]; rfl
    | leaf role token span => rfl
  induction path generalizing t with
  | nil => rfl
  | cons i path ih =>
    rw [descendant?, descendant?, hchildren, List.getElem?_map]
    cases t.children[i]? with
    | none => rfl
    | some child => exact ih child

/-! ## Sameness -/

/-- Nodes over the same rule and children are equal, and over others they are not. -/
theorem branch_inj {rule rule' : Nonterminal} {children children' : List Tree} :
    branch rule children = branch rule' children' ↔ rule = rule' ∧ children = children' := by
  constructor
  · intro h
    injection h with hrule hchildren
    exact ⟨hrule, hchildren⟩
  · rintro ⟨rfl, rfl⟩
    rfl

/-- Trees agree one by one exactly if they do after any change that shows whether two of them agree. -/
theorem sameAll_iff_map_eq {h : Tree → Tree} : ∀ {ts us : List Tree},
    (∀ t ∈ ts, ∀ u, t.same u = true ↔ h t = h u) → (sameAll ts us = true ↔ ts.map h = us.map h)
  | [], [], _ | [], _ :: _, _ | _ :: _, [], _ => by simp [sameAll]
  | t :: ts, u :: us, ht => by
    rw [sameAll, Bool.and_eq_true, ht t List.mem_cons_self u,
      sameAll_iff_map_eq fun t' ht' => ht t' (List.mem_cons_of_mem _ ht')]
    simp only [List.map_cons, List.cons.injEq]

/-- **Sameness is equality without places.** -/
theorem same_iff (t u : Tree) : t.same u = true ↔ t.mapTokens Token.unplaced = u.mapTokens Token.unplaced := by
  induction t generalizing u with
  | node rule children span ih =>
    cases u with
    | node rule' children' span' =>
      rw [same, Bool.and_eq_true, beq_iff_eq, sameAll_iff_map_eq ih, mapTokens_node, mapTokens_node, branch_inj]
    | leaf role' token' span' => simp [same, branch, ofToken]
  | leaf role token span =>
    cases u with
    | node rule' children' span' => simp [same, branch, ofToken]
    | leaf role' token' span' =>
      simp only [same, Token.same, Bool.and_eq_true, beq_iff_eq, mapTokens_leaf, ofToken, leaf.injEq,
        Token.unplaced_eq_iff]
      simp [Token.unplaced]

theorem same_refl (t : Tree) : t.same t = true := (same_iff t t).mpr rfl

theorem same_symm {t u : Tree} (h : t.same u = true) : u.same t = true :=
  (same_iff u t).mpr ((same_iff t u).mp h).symm

theorem same_trans {t u v : Tree} (htu : t.same u = true) (huv : u.same v = true) : t.same v = true :=
  (same_iff t v).mpr (((same_iff t u).mp htu).trans ((same_iff u v).mp huv))

theorem content_leaves_of_same {t u : Tree} (h : t.same u = true) :
    t.leaves.map Token.content = u.leaves.map Token.content := by
  rw [← Token.map_unplaced_eq_iff, ← leaves_mapTokens, ← leaves_mapTokens, (same_iff t u).mp h]

end Tree

end ArrayExpr
