import ArrayExpr.Diagnostic.Basic
import ArrayExpr.Diagnostic.Quotation

/-!
# Reports

A report is a title and a message, the quoted lines of the program below it, and a closing remark. Every diagnostic that
has a message has a report.
-/

namespace ArrayExpr

/-- What a report says around the quoted lines, and how many of them there are. -/
structure Report where
  title : String := "CompilerError"
  message : String := ""
  remark : String := ""
  linesBefore : Int := 1
  linesAfter : Int := 1
  colour : String := Quotation.red

/-- The text of a report on a place of a program. -/
def Report.render (r : Report) (program : String) (s : Span) : String :=
  let quoted := Quotation.render r.colour (Quotation.ofProgram program s r.linesBefore r.linesAfter)
  let remark := if r.remark.isEmpty then [] else [r.remark]
  "\n".intercalate ((r.title ++ ": " ++ r.message) :: (quoted ++ remark))

namespace Diagnostic

/-- A report on a diagnostic, with a message and a remark of choice. -/
def reportWith (d : Diagnostic) (message remark : String) (title : String := d.problem.title) : String :=
  Report.render ⟨title, message, remark, d.linesBefore, d.linesAfter, Quotation.red⟩ d.program d.span

/-- The report on a diagnostic that has a message. -/
def report? (d : Diagnostic) : Option String := d.message?.map (d.reportWith · d.remark)

end Diagnostic

end ArrayExpr
