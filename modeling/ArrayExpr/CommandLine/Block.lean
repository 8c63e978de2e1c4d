import ArrayExpr.Analysis
import ArrayExpr.CommandLine.Display
import ArrayExpr.Tree.Outline
import ArrayExpr.Tree.Source

/-!
# Blocks

The analysis of an expression is shown as a `Block` of lines: a heading, the parts asked for, a report if the expression
is refused, and a verdict. Tokens are shown even if they form no expression. The verdict does not depend on what is
shown.
-/

namespace ArrayExpr

/-- What is said of an expression in the end. -/
inductive Verdict where
  | valid | lexicallyInvalid | syntacticallyInvalid
  deriving DecidableEq, Repr

/-- The line of a verdict. -/
def Verdict.line : Verdict → String
  | valid => "VALID"
  | lexicallyInvalid => "INVALID (lexical)"
  | syntacticallyInvalid => "INVALID (syntax)"

/-- The verdict on an expression that is refused. The other failures never come about in an analysis (`analyze_cases`),
and they are not shown to a user: the program would stop there without a verdict. -/
def Verdict.ofFailure : Failure → Verdict
  | .lexical _ => lexicallyInvalid
  | .syntactic _ | .unknownKind _ | .unended => syntacticallyInvalid

/-- The lines shown for an expression, and the events of its analysis. -/
structure Block where
  lines : List String
  verdict : Verdict
  events : List Event

namespace Block

/-- Lines below a title, if they are asked for. -/
def titled (shown : Bool) (title : String) (lines : List String) : List String :=
  if shown then "" :: title :: lines else []

/-- The lines of a block: heading, body, verdict. -/
def assemble (description expression : String) (body : List String) (verdict : Verdict) (events : List Event) :
    Block :=
  { lines := ["", "=== " ++ description ++ " ===", "Expression: " ++ Text.quoted expression] ++ body ++ [verdict.line]
    verdict, events }

/-- The lines of a report. -/
def reported (report : Option String) : List String := ["", report.getD ""]

/-- Analyses an expression. -/
def ofExpression (display : Display) (description expression : String) : Block :=
  let scanned := scan display.debug expression
  match scanned.result with
  | .error failure =>
    assemble description expression (reported failure.report?) (.ofFailure failure) scanned.events
  | .ok tokens =>
    let listed := titled display.tokens "Tokens:" (tokens.map Token.listing)
    let parsed := parseTraced display.debug tokens expression
    let events := scanned.events ++ parsed.events
    match parsed.result with
    | .error failure =>
      assemble description expression (listed ++ reported failure.report?) (.ofFailure failure) events
    | .ok tree =>
      let drawn := titled display.tree "Syntax tree:" [tree.outline]
      let rebuilt := titled display.source "Source:" [tree.source]
      assemble description expression (listed ++ drawn ++ rebuilt) .valid events

end Block

/-- The text of lines, each of which ends in a line feed. -/
def textOfLines (lines : List String) : String := String.join (lines.map (· ++ "\n"))

/-- The text of a block. -/
def Block.text (b : Block) : String := textOfLines b.lines

end ArrayExpr
