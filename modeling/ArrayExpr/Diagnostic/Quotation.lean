import ArrayExpr.Span
import ArrayExpr.Text.Lines
import ArrayExpr.Text.Slice

/-!
# Quoted lines

A report quotes the lines around a span. `Quotation.ofProgram` picks them and cuts each line that the span touches into
the text before, within and after the span; `Quotation.render` numbers the lines, marks those that the span touches,
and colours the text within. Any integers may be given: a span before the first line quotes nothing, and a negative
number of lines is a number of lines less. The line behind the last one quoted is the end line of the span plus the
lines after it, and counts from the end of the program if that is negative.
-/

namespace ArrayExpr

/-- The text of a quoted line: whole, or cut at the ends of the span. -/
inductive LineBody where
  | plain (text : List Char)
  | marked (before within after : List Char)
  deriving DecidableEq, Repr

namespace LineBody

/-- The span touches the line. -/
def isMarked : LineBody → Bool
  | plain _ => false
  | marked .. => true

/-- The text within the span. -/
def within : LineBody → List Char
  | plain _ => []
  | marked _ within _ => within

/-- A line cut at the ends of the span, if the span touches it. -/
def ofLine (s : Span) (number : Int) (line : List Char) : LineBody :=
  if s.startLine ≤ number ∧ number ≤ s.endLine then
    if number = s.startLine then
      if s.isMultiline then marked (Text.takeTo line s.startCol) (Text.dropTo line s.startCol) []
      else marked (Text.takeTo line s.startCol) (Text.slice line s.startCol s.endCol) (Text.dropTo line s.endCol)
    else if number < s.endLine then marked [] line []
    else marked [] (Text.takeTo line s.endCol) (Text.dropTo line s.endCol)
  else plain line

/-- The text with the part within the span between two marks. -/
def render (start stop : String) : LineBody → String
  | plain text => String.ofList text
  | marked before within after =>
    String.ofList before ++ start ++ String.ofList within ++ stop ++ String.ofList after

end LineBody

/-- A line of the program, with its number. -/
structure QuotedLine where
  number : Nat
  body : LineBody
  deriving DecidableEq, Repr

namespace Quotation

/-- The escape sequence for red. -/
def red : String := "\x1b[31m"

/-- The escape sequence that ends a colour. -/
def endColour : String := "\x1b[m"

/-- The number of the first line quoted. -/
def firstNumber (s : Span) (linesBefore : Int) : Nat := (max 1 (s.startLine - linesBefore)).toNat

/-- The lines quoted around a span. -/
def ofProgram (program : String) (s : Span) (linesBefore linesAfter : Int) : List QuotedLine :=
  let lines := if s.startLine < 1 then [] else Text.lines program.toList
  let quoted := Text.slice lines (max 0 (s.startLine - linesBefore - 1)) (s.endLine + linesAfter)
  (quoted.zipIdx (firstNumber s linesBefore)).map fun (line, number) => ⟨number, .ofLine s number line⟩

/-- The digits of a line number. -/
def numeral (number : Nat) : List Char := Nat.toDigits 10 number

/-- What stands before the text of a line: the mark, and the number aligned with the last one. -/
def margin (last : Nat) (line : QuotedLine) : String :=
  let padding := List.replicate ((numeral last).length - (numeral line.number).length) ' '
  (if line.body.isMarked then "-> " else "   ") ++ String.ofList (padding ++ numeral line.number) ++ ". "

/-- The quoted lines as they are shown. -/
def render (colour : String) (quoted : List QuotedLine) : List String :=
  let last := (quoted.getLast?.map QuotedLine.number).getD 0
  quoted.map fun line => margin last line ++ line.body.render colour endColour

end Quotation

end ArrayExpr
