import Mathlib.Data.List.Basic
import Mathlib.Data.Nat.Digits.Defs

/-!
# Texts of one line

A text is a line if it has no line feed (`Text.IsLine`). Lines that are put below one another can be told apart again
(`Text.splitOn_intercalate`).
-/

namespace ArrayExpr.Text

/-- The text has no line feed. -/
def IsLine (text : String) : Prop := '\n' ∉ text.toList

instance (text : String) : Decidable (IsLine text) := inferInstanceAs (Decidable (¬ _))

theorem splitOn_intercalate {rows : List String} (hne : rows ≠ []) (h : ∀ row ∈ rows, IsLine row) :
    ("\n".intercalate rows).toList.splitOn '\n' = rows.map String.toList := by
  rw [String.toList_intercalate]
  exact List.splitOn_intercalate '\n' (List.forall_mem_map.mpr h) (by simpa using hne)

@[simp] theorem isLine_append (a b : String) : IsLine (a ++ b) ↔ IsLine a ∧ IsLine b := by
  simp [IsLine, String.toList_append, not_or]

@[simp] theorem isLine_ofList (cs : List Char) : IsLine (String.ofList cs) ↔ '\n' ∉ cs := by
  rw [IsLine, String.toList_ofList]

theorem isLine_of_chars {text : String} {cs : List Char} (h : text = String.ofList cs) (hcs : '\n' ∉ cs) :
    IsLine text := h ▸ (isLine_ofList cs).mpr hcs

@[simp] theorem isLine_repr (n : Nat) : IsLine n.repr := by
  rw [Nat.repr, isLine_ofList]
  intro h
  exact absurd (Nat.isDigit_of_mem_toDigits (by decide) (by decide) h) (by decide)

@[simp] theorem isLine_int (n : Int) : IsLine (toString n) := by
  show IsLine n.repr
  rw [Int.repr_eq_if]
  split
  · exact isLine_repr n.toNat
  · exact (isLine_append _ _).mpr ⟨by decide, isLine_repr _⟩

end ArrayExpr.Text
