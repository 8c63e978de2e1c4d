/-!
# Places in a program

A `Span` names the lines and columns that something occupies. Lines count from 1 and columns from 0, the end column is
the first one not covered, and a span need not lie in any program. `join` is the span of what begins with one part and
ends with another.
-/

namespace ArrayExpr

/-- From a column of one line up to a column of another. -/
structure Span where
  startLine : Int
  endLine : Int
  startCol : Int
  endCol : Int
  deriving DecidableEq, Repr

namespace Span

/-- From one column up to another of the same line. -/
def onLine (line start stop : Int) : Span := ⟨line, line, start, stop⟩

/-- The place of what stands in no program. -/
def nowhere : Span := onLine (-1) 0 (-1)

/-- The span begins and ends on different lines. -/
def isMultiline (s : Span) : Bool := s.startLine != s.endLine

/-- The span of two parts. Of parts that begin on different lines, the earlier one gives the start column and the later
one the end column; of parts that begin on the same line, the columns reach from the least to the greatest. -/
def join (a b : Span) : Span where
  startLine := min a.startLine b.startLine
  endLine := max a.endLine b.endLine
  startCol :=
    if a.startLine < b.startLine then a.startCol
    else if b.startLine < a.startLine then b.startCol
    else min a.startCol b.startCol
  endCol :=
    if a.startLine < b.startLine then b.endCol
    else if b.startLine < a.startLine then a.endCol
    else max a.endCol b.endCol

/-- The join of the first and the last span of a list. -/
def cover : List Span → Option Span
  | [] => none
  | first :: rest => some (first.join (rest.getLastD first))

/-- The lines of a span, as messages name them. -/
def lineNames (s : Span) : String :=
  if s.isMultiline then "lines [" ++ toString s.startLine ++ "-" ++ toString s.endLine ++ "]"
  else "line [" ++ toString s.startLine ++ "]"

/-- The column at which a span begins, as messages name it: counted from 1. -/
def columnName (s : Span) : String := toString (s.startCol + 1)

/-- A span written out with its four numbers. -/
def listing (s : Span) : String :=
  "Span(ln=(" ++ toString s.startLine ++ ", " ++ toString s.endLine ++ "), col=(" ++ toString s.startCol ++ ", " ++
    toString s.endCol ++ "))"

end Span

end ArrayExpr
