import ArrayExpr.Proofs.Composition
import ArrayExpr.Proofs.Tree.Comparison

/-!
# Copies of deep trees

Each group in a program adds three levels to its tree (`HasTree.parenthesized`), one for each rule of the grammar, and a
program may have more groups than its tree can be compared in. Then the tree is not found in a copy of itself, although
containment is reflexive where no limit is met (`containment_within_levels`).
-/

namespace ArrayExpr

open Token ArrayExpr.Tree

/-- The program in parentheses, so many of them. -/
def parenthesized (program : String) : Nat → String
  | 0 => program
  | n + 1 => "(" ++ parenthesized program n ++ ")"

/-- The tree of a program in parentheses. -/
def Tree.group (t : Tree) : Tree :=
  .branch .expression [.branch .term [.branch .factor [.literal (ofKind .openRound), t, .literal (ofKind .closeRound)]]]

variable {limit : Nat} {program : String} {t : Tree}

theorem Tree.height_group (t : Tree) : t.group.height = 3 + t.height := by
  have hpos := t.one_le_height
  simp only [group, branch, literal, ofToken, height, heightAll]
  omega

/-- Parentheses around a program add three levels each. -/
theorem HasTree.parenthesized (h : HasTree limit program t) {n : Nat} (hn : nesting t.leaves + n ≤ limit) :
    ∃ u, HasTree limit (parenthesized program n) u ∧ nesting u.leaves = nesting t.leaves + n ∧
      u.height = 3 * n + t.height := by
  induction n with
  | zero => exact ⟨t, h, rfl, by omega⟩
  | succ n ih =>
    obtain ⟨u, hu, hnesting, hheight⟩ := ih (by omega)
    have hleaves : u.group.leaves = ofKind .openRound :: (u.leaves ++ [ofKind .closeRound]) := by simp [group]
    refine ⟨u.group, hu.parentheses (by omega), ?_, ?_⟩
    · have hdeeper := (hu.yields_enclosed .round).2
      rw [hleaves]
      exact hdeeper.trans (by omega)
    · rw [u.height_group]
      omega

end ArrayExpr
