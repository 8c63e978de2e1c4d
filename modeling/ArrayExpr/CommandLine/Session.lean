import ArrayExpr.CommandLine.Block
import ArrayExpr.CommandLine.Help

/-!
# Sessions

`Session.ofArguments` is what the program does for a command line: it shows a block for each expression, in order, and
its status is 0 if all of them are valid. Without expressions it shows the samples, some of which are invalid on
purpose, and its status is 0. It does not read or write anything itself.
-/

namespace ArrayExpr

/-- The texts that a run of the program writes, its status, and the events of all analyses. -/
structure Session where
  status : Nat
  output : String
  complaint : String
  events : List Event

namespace Session

/-- The samples, each with its description. -/
def samples : List (String × String) :=
  [("id", "Smallest valid expression"),
   ("id + id", "Basic addition"),
   ("id[id]", "Simple array access"),
   ("(id + id) * id[id]", "Precedence and nesting"),
   ("id[id + id * id]", "Expression nested in an array access"),
   ("id * id + id / id", "Multiple operators"),
   ("id + ", "Incomplete expression"),
   ("id[id + ", "Unclosed array access"),
   ("id + * id", "Invalid operator"),
   ("id # id", "Invalid character"),
   ("$id", "Symbol not allowed"),
   ("id@id", "Malformed token"),
   ("", "Empty input"),
   ("(", "Only an opening parenthesis"),
   ("id[]", "Empty array access")]

/-- The heading of the samples. -/
def samplesHeading : String := "LEXICAL AND SYNTACTIC ANALYZER - SAMPLES"

/-- Expressions described by their numbers. -/
def numbered (expressions : List String) : List (String × String) :=
  (expressions.zipIdx 1).map fun (expression, i) => (expression, "Expression " ++ toString i)

/-- The blocks of described expressions. -/
def blocks (d : Display) (cases : List (String × String)) : List Block :=
  cases.map fun (expression, description) => Block.ofExpression d description expression

/-- Blocks shown below a heading. -/
def ofBlocks (status : Nat) (heading : List String) (blocks : List Block) : Session where
  status
  output := textOfLines (heading ++ blocks.flatMap Block.lines)
  complaint := ""
  events := blocks.flatMap Block.events

/-- What a request leads to. -/
def ofRequest (r : CommandLine.Request) : Session :=
  if r.expressions.isEmpty then ofBlocks 0 [samplesHeading] (blocks r.display samples)
  else
    let shown := blocks r.display (numbered r.expressions)
    ofBlocks (if shown.all (·.verdict == .valid) then 0 else 1) [] shown

/-- What a command line leads to. -/
def ofArguments (args : List String) : Session :=
  match CommandLine.read args with
  | .help => ⟨0, textOfLines CommandLine.help, "", []⟩
  | .refuse reason => ⟨2, "", textOfLines reason.notice, []⟩
  | .run request => ofRequest request

end Session

end ArrayExpr
