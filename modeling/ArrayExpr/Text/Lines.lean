/-!
# Lines of a text

`lines` cuts a text at its line breaks. A break ends a line and does not begin one: a text that ends in a break has no
empty line after it, and the empty text has no line. A carriage return and the line feed after it are one break.
-/

namespace ArrayExpr.Text

/-- The characters at which a line ends. -/
def lineBreaks : List Char :=
  ['\n', '\x0b', '\x0c', '\r', '\x1c', '\x1d', '\x1e', '\u0085', '\u2028', '\u2029']

/-- The character ends a line. -/
def isLineBreak (c : Char) : Bool := lineBreaks.contains c

/-- Puts a character in front of the first line, which it begins if there is none. -/
def extendFirst (c : Char) : List (List Char) → List (List Char)
  | [] => [[c]]
  | line :: rest => (c :: line) :: rest

/-- The lines of a text, without the breaks between them. -/
def lines : List Char → List (List Char)
  | [] => []
  | '\r' :: '\n' :: rest => [] :: lines rest
  | c :: rest => if isLineBreak c then [] :: lines rest else extendFirst c (lines rest)

@[simp] theorem lines_nil : lines [] = [] := rfl

@[simp] theorem lines_return_feed (rest : List Char) : lines ('\r' :: '\n' :: rest) = [] :: lines rest := rfl

theorem lines_cons_of_not_break {c : Char} (h : isLineBreak c = false) (rest : List Char) :
    lines (c :: rest) = extendFirst c (lines rest) := by
  have hr : c ≠ '\r' := by
    rintro rfl
    exact absurd h (by decide)
  rw [lines.eq_3 _ _ (fun _ h' => absurd h' hr), h]
  rfl

example : lines ['a', '\r', '\n', '\n', 'b', '\n'] = [['a'], [], ['b']] := by decide

end ArrayExpr.Text
