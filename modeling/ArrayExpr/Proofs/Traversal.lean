import ArrayExpr.Proofs.Outline
import ArrayExpr.Proofs.Text.Lines
import ArrayExpr.Proofs.Tree.Position
import ArrayExpr.Proofs.Tree.Rendering

/-!
# Traversals are recursions

A walk and an outline are made with a list of what is still to be done. Both are what recursion on the tree makes of it
(`traversals_eq_recursions`): the walk lists the parts at all positions, and the outline is the rendering. Since a label
holds only characters that can be shown, the lines of an outline are found again in its text (`Tree.lines_outline`), and
there is one for each part of the walk.
-/

namespace ArrayExpr

/-- What can be shown ends no line. -/
theorem Text.isLineBreak_of_isPrintable {c : Char} (h : isPrintable c = true) : isLineBreak c = false := by
  have hbreaks : lineBreaks.all (!isPrintable ·) = true := by decide +kernel
  cases hbreak : isLineBreak c with
  | false => rfl
  | true =>
    have hnot := List.all_eq_true.mp hbreaks c (List.contains_iff_mem.mp hbreak)
    rw [h] at hnot
    cases hnot

namespace Tree

theorem ne_nil_of_mem_outlineLines {t : Tree} {line : String} (h : line ∈ t.outlineLines) : line.toList ≠ [] := by
  rw [outlineLines_eq] at h
  obtain ⟨path, isLast, part, -, rfl⟩ := exists_of_mem_drawing h
  rw [String.toList_ofList, lineAt]
  cases isLast <;> simp [twig]

/-- The text of an outline has the lines of the outline. -/
theorem lines_outline (t : Tree) : Text.lines t.outline.toList = t.outlineLines.map String.toList := by
  rw [outline, String.toList_intercalate]
  apply Text.lines_intercalate
  · exact List.forall_mem_map.mpr fun _ => ne_nil_of_mem_outlineLines
  · refine List.forall_mem_map.mpr fun line hline c hc => ?_
    exact Text.isLineBreak_of_isPrintable (isPrintable_of_mem_outlineLines hline c hc)

theorem forall₂_lines_outline (t : Tree) :
    List.Forall₂ (fun line part => part.label.toList <:+ line) (Text.lines t.outline.toList) t.walk := by
  rw [lines_outline, outlineLines_eq_rendering, List.forall₂_map_left_iff]
  refine (forall₂_rendering_walk t "" true).imp fun line part ⟨front, hline⟩ => ⟨front.toList, ?_⟩
  rw [hline, String.toList_append]

/-- **Traversals are recursions.** The walk of a tree is the tree itself and then the walks of its children from left to
right. It ends after as many steps as the tree has parts, and it is the list of the parts at all positions in the tree,
in lexicographic order and each once. The outline is the rendering of the tree. It has a line for each part of the walk,
in the same order, and this line ends with the label of the part. -/
theorem traversals_eq_recursions (t : Tree) :
    (t.walk = t :: t.children.flatMap walk ∧ t.walk.length = t.size ∧ t.Enumerates t.positions t.walk) ∧
    t.outline = "\n".intercalate (t.rendering "" true) ∧
    (Text.lines t.outline.toList).length = t.walk.length ∧
    List.Forall₂ (fun line part => part.label.toList <:+ line) (Text.lines t.outline.toList) t.walk := by
  refine ⟨⟨walk_eq t, length_walk t, enumerates_walk t⟩, ?_, (forall₂_lines_outline t).length_eq,
    forall₂_lines_outline t⟩
  rw [outline, outlineLines_eq_rendering]

end Tree

end ArrayExpr
