import ArrayExpr.Text.Ranges

/-!
# Blank characters

A character is blank if it is white space in a line of text: the tabulation and line controls, the spaces of all
widths, and the separators of lines and paragraphs. The zero-width space and the information separators are not blank.
-/

namespace ArrayExpr.Text

/-- The code points of the blank characters. -/
def blanks : Ranges :=
  [(0x0009, 0x000D), (0x0020, 0x0020), (0x0085, 0x0085), (0x00A0, 0x00A0), (0x1680, 0x1680),
   (0x2000, 0x200A), (0x2028, 0x2029), (0x202F, 0x202F), (0x205F, 0x205F), (0x3000, 0x3000)]

/-- The character is white space. -/
def isBlank (c : Char) : Bool := blanks.contains c.toNat

theorem blanks_ascending : blanks.ascendingFrom 0 = true := by decide

end ArrayExpr.Text
