import ArrayExpr.Limits
import ArrayExpr.Token.Cursor
import ArrayExpr.Trace
import ArrayExpr.Tree.Parser

/-!
# Parsing a sequence of tokens

`Cursor.read` lets a parser read at a cursor: the cursor moves behind the tree, or to the token at which reading
stopped, and a fault becomes a diagnostic on that token. `Cursor.parse` reads an expression that must reach up to the
end token.
-/

namespace ArrayExpr

/-- The diagnostic on a fault at a token. -/
def Fault.diagnose (program : String) (got : Token) : Fault → Diagnostic
  | noOperand =>
    { program, span := got.span, problem := if got.isFinish then .unexpectedEnd got else .unexpectedToken got }
  | unclosed bracket opening => .missingToken program bracket.closing bracket.purpose (some opening) got
  | tooDeep => { program, span := got.span, problem := .nestingTooDeep got }

/-- A visit as an event; behind the last token ahead stands the end token. -/
def Visit.event (finish : Token) (v : Visit) : Event := .rule v.rule (v.next.getD finish)

namespace Cursor

/-- Reads a tree at the cursor. -/
def read (c : Cursor) (program : String) (p : Parser) : Traced (Except Diagnostic Tree) × Cursor :=
  let run := p.run c.ahead
  let after := c.forward (c.ahead.length - run.rest.length)
  (⟨run.visits.map (Visit.event c.finish), run.outcome.mapError (Fault.diagnose program after.peek)⟩, after)

/-- Reads an expression that reaches up to the end token, if so many groups may be open at once. -/
def parse (c : Cursor) (program : String) (limit : Nat) : Traced (Except Diagnostic Tree) :=
  let (read, after) := c.read program (Parser.ofRule limit .expression)
  { read with
    result := read.result.bind fun tree =>
      if after.isAtEnd then .ok tree
      else .error { program, span := after.peek.span, problem := .trailingTokens after.peek } }

/-! ## Steps -/

/-- Something to do at a cursor. -/
inductive Step where
  | peek | previous | advance | isAtEnd
  | check (kind : Kind)
  | accept (kinds : List Kind)
  | expect (kind : Kind) (purpose : String) (opening : Option Token)
  | read (rule : Nonterminal)

/-- What comes of a step. -/
inductive StepResult where
  | token (t : Token)
  | truth (b : Bool)
  | tree (t : Tree)

/-- Takes a step at the cursor, if so many groups may be open at once. -/
def perform (c : Cursor) (program : String) (step : Step) (limit : Nat := nestingLimit) :
    Except Diagnostic StepResult × Cursor :=
  match step with
  | .peek => (.ok (.token c.peek), c)
  | .previous => (.ok (.token c.previous), c)
  | .advance => (.ok (.token c.advance.1), c.advance.2)
  | .isAtEnd => (.ok (.truth c.isAtEnd), c)
  | .check kind => (.ok (.truth (c.check kind)), c)
  | .accept kinds => (.ok (.truth (c.accept kinds).1), (c.accept kinds).2)
  | .expect kind purpose opening =>
    let (result, after) := c.expect program kind purpose opening
    (result.map .token, after)
  | .read rule =>
    let (read, after) := c.read program (Parser.ofRule limit rule)
    (read.result.map .tree, after)

end Cursor

end ArrayExpr
