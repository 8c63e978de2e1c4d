import ArrayExpr.Diagnostic.Basic

/-!
# Listings of diagnostics

The listing of a diagnostic writes all that it holds on one line: the program, the place, the numbers of quoted lines,
and what its problem names.
-/

namespace ArrayExpr

/-- A kind with its name and its spelling. -/
def Kind.listing (k : Kind) : String := "<Type." ++ k.name ++ ": " ++ Text.quoted k.spelling ++ ">"

namespace Diagnostic

/-- What a problem names, each with what it is. -/
def details : Problem → List (String × String)
  | .general | .lexical => []
  | .unexpectedCharacter char => [("char", Text.quoted char)]
  | .expectedToken expected purpose got =>
    [("got", got.listing), ("expected", expected.listing), ("context", Text.quoted purpose)]
  | .syntactic got | .unexpectedEnd got | .unexpectedToken got | .trailingTokens got | .nestingTooDeep got =>
    [("got", got.listing)]

/-- The diagnostic written on one line. -/
def listing (d : Diagnostic) : String :=
  let fields := [("program", Text.quoted d.program), ("span", d.span.listing),
    ("n_before", toString d.linesBefore), ("n_after", toString d.linesAfter)] ++ details d.problem
  d.problem.name ++ "(" ++ ", ".intercalate (fields.map fun (field, value) => field ++ "=" ++ value) ++ ")"

end Diagnostic

end ArrayExpr
