import ArrayExpr.Proofs.Tree.Preorder

/-!
# Positions

A part of a tree stands at a position: the child numbers on the way down to it. `positions` lists the positions by
recursion on the tree. They are those from which `descendant?` finds a part (`mem_positions_iff`), and they are in
lexicographic order, so that none is listed twice (`pairwise_positions`). The walk is the list of the parts at these
positions (`enumerates_walk`). It takes one step for each of them and stops (`length_walk`).
-/

namespace ArrayExpr.Tree

mutual

/-- The positions of the parts of a tree, the root first. -/
def positions : Tree → List (List Nat)
  | node _ children _ => [] :: positionsFrom 0 children
  | leaf .. => [[]]

/-- The positions of the parts of siblings, the first of which is the child of some number. -/
def positionsFrom (i : Nat) : List Tree → List (List Nat)
  | [] => []
  | t :: ts => (positions t).map (i :: ·) ++ positionsFrom (i + 1) ts

end

theorem positions_eq (t : Tree) : t.positions = [] :: positionsFrom 0 t.children := by
  cases t with
  | node => rw [positions, children]
  | leaf => rw [positions, children, positionsFrom]

/-! ## Parts at positions -/

/-- A position below siblings is that of a sibling and one in it. -/
theorem mem_positionsFrom {path : List Nat} : ∀ {i : Nat} {ts : List Tree}, path ∈ positionsFrom i ts ↔
    ∃ j child inner, ts[j]? = some child ∧ path = (i + j) :: inner ∧ inner ∈ child.positions
  | i, [] => by simp [positionsFrom]
  | i, t :: ts => by
    rw [positionsFrom, List.mem_append, List.mem_map, mem_positionsFrom]
    constructor
    · rintro (⟨inner, hinner, rfl⟩ | ⟨j, child, inner, hchild, rfl, hinner⟩)
      · exact ⟨0, t, inner, rfl, rfl, hinner⟩
      · exact ⟨j + 1, child, inner, hchild, by rw [Nat.add_right_comm, Nat.add_assoc], hinner⟩
    · rintro ⟨j, child, inner, hchild, rfl, hinner⟩
      cases j with
      | zero =>
        cases hchild
        exact Or.inl ⟨inner, hinner, rfl⟩
      | succ j => exact Or.inr ⟨j, child, inner, hchild, by rw [Nat.add_right_comm, Nat.add_assoc], hinner⟩

/-- **The positions are those of parts.** -/
theorem mem_positions_iff {t : Tree} {path : List Nat} : path ∈ t.positions ↔ (t.descendant? path).isSome := by
  -- on the path, on which the way down recurses
  induction path generalizing t with
  | nil => simp [positions_eq, descendant?]
  | cons i path ih =>
    rw [positions_eq, List.mem_cons, mem_positionsFrom, descendant?]
    constructor
    · rintro (hroot | ⟨j, child, inner, hchild, hpath, hinner⟩)
      · cases hroot
      · obtain ⟨rfl, rfl⟩ := List.cons.inj hpath
        rw [Nat.zero_add, hchild]
        exact ih.mp hinner
    · intro hpart
      cases hchild : t.children[i]? with
      | none =>
        rw [hchild] at hpart
        cases hpart
      | some child =>
        rw [hchild] at hpart
        exact Or.inr ⟨i, child, path, hchild, by rw [Nat.zero_add], ih.mpr hpart⟩

/-! ## Order -/

/-- Positions of siblings are in order if those of every sibling are. -/
theorem pairwise_positionsFrom : ∀ {i : Nat} {ts : List Tree}, (∀ t ∈ ts, t.positions.Pairwise (· < ·)) →
    (positionsFrom i ts).Pairwise (· < ·)
  | _, [], _ => by simp [positionsFrom]
  | i, t :: ts, h => by
    rw [positionsFrom, List.pairwise_append]
    refine ⟨?_, pairwise_positionsFrom fun u hu => h u (List.mem_cons_of_mem t hu), ?_⟩
    · exact List.Pairwise.map _ (fun _ _ hlt => List.cons_lt_cons_self.mpr hlt) (h t List.mem_cons_self)
    · intro path hpath path' hpath'
      obtain ⟨inner, _, rfl⟩ := List.mem_map.mp hpath
      obtain ⟨j, _, inner', _, rfl, _⟩ := mem_positionsFrom.mp hpath'
      exact List.cons_lt_cons_iff.mpr (Or.inl (by omega))

/-- The positions are in order: each stands before those below it, and these before those to its right. -/
theorem pairwise_positions (t : Tree) : t.positions.Pairwise (· < ·) := by
  induction t using byChildren with
  | step t ih =>
    rw [positions_eq, List.pairwise_cons]
    refine ⟨fun path hpath => ?_, pairwise_positionsFrom ih⟩
    obtain ⟨_, _, _, _, rfl, _⟩ := mem_positionsFrom.mp hpath
    exact List.nil_lt_cons _ _

/-! ## Walks -/

/-- The walks of siblings lead through the parts at their positions, as seen from their parent. -/
theorem flatMap_walk_eq_map {find : List Nat → Option Tree} : ∀ {i : Nat} {ts : List Tree},
    (∀ j path, find ((i + j) :: path) = ts[j]?.bind (descendant? · path)) →
    (∀ t ∈ ts, t.walk.map some = t.positions.map t.descendant?) →
    (ts.flatMap walk).map some = (positionsFrom i ts).map find
  | _, [], _, _ => by simp [positionsFrom]
  | i, t :: ts, hfind, hwalk => by
    have hfirst : find ∘ (i :: ·) = t.descendant? := funext (hfind 0)
    have hothers : ∀ j path, find ((i + 1 + j) :: path) = ts[j]?.bind (descendant? · path) := by
      intro j path
      rw [Nat.add_right_comm, Nat.add_assoc]
      exact hfind (j + 1) path
    rw [List.flatMap_cons, positionsFrom, List.map_append, List.map_append, List.map_map, hfirst,
      hwalk t List.mem_cons_self,
      flatMap_walk_eq_map hothers fun u hu => hwalk u (List.mem_cons_of_mem t hu)]

theorem map_some_walk (t : Tree) : t.walk.map some = t.positions.map t.descendant? := by
  induction t using byChildren with
  | step t ih =>
    have hfind : ∀ j path, t.descendant? ((0 + j) :: path) = t.children[j]?.bind (descendant? · path) := by
      intro j path
      rw [Nat.zero_add, descendant?]
    rw [walk_eq, positions_eq, List.map_cons, List.map_cons, flatMap_walk_eq_map hfind ih, descendant?]

/-- Each pending tree is visited with all its parts, one part in a step. -/
theorem length_walkAll (pending : List Tree) : (walkAll pending).length = sizeAll pending := by
  fun_induction walkAll pending with
  | case1 => rfl
  | case2 t pending ih =>
    rw [List.length_cons, ih, sizeAll_append, sizeAll, size_eq]
    omega

theorem length_walk (t : Tree) : t.walk.length = t.size := by
  rw [walk, length_walkAll, sizeAll, sizeAll, Nat.add_zero]

/-- The parts are those of the tree, each once: they stand at the given positions, which are all positions in the
tree in lexicographic order. -/
structure Enumerates (t : Tree) (paths : List (List Nat)) (parts : List Tree) : Prop where
  ordered : paths.Pairwise (· < ·)
  mem_iff : ∀ path, path ∈ paths ↔ (t.descendant? path).isSome
  parts_eq : parts.map some = paths.map t.descendant?

/-- A walk visits each part once. -/
theorem enumerates_walk (t : Tree) : t.Enumerates t.positions t.walk :=
  ⟨pairwise_positions t, fun _ => mem_positions_iff, map_some_walk t⟩

end ArrayExpr.Tree
