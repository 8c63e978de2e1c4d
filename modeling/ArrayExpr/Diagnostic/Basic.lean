import ArrayExpr.Text.Lines
import ArrayExpr.Text.Slice
import ArrayExpr.Token.Basic

/-!
# Diagnostics

A `Diagnostic` is a `Problem` at a place of a program. A problem has a `message` of one line, but for the three general
ones, which only say at which stage a program was refused. The `excerpt` of a diagnostic is the text at its place, as
far as it stands on the first line.
-/

namespace ArrayExpr

/-- What is wrong with a program. A problem of the syntax names the token that was found. -/
inductive Problem where
  /-- The program was refused. -/
  | general
  /-- The program was refused while its text was read. -/
  | lexical
  /-- A character belongs to no token. -/
  | unexpectedCharacter (char : String)
  /-- The program was refused while its tokens were read. -/
  | syntactic (got : Token)
  /-- The tokens end where an operand must stand. -/
  | unexpectedEnd (got : Token)
  /-- A token stands where an operand must stand. -/
  | unexpectedToken (got : Token)
  /-- A certain kind of token is missing. -/
  | expectedToken (expected : Kind) (purpose : String) (got : Token)
  /-- Tokens follow a complete expression. -/
  | trailingTokens (got : Token)
  /-- Too many groups are open at once. -/
  | nestingTooDeep (got : Token)
  deriving DecidableEq, Repr

namespace Problem

/-- The name of a problem. -/
def name : Problem → String
  | general => "CompilerError"
  | lexical => "ScannerError"
  | unexpectedCharacter _ => "UnexpectedCharacterError"
  | syntactic _ => "ParseError"
  | unexpectedEnd _ => "UnexpectedEndError"
  | unexpectedToken _ => "UnexpectedTokenError"
  | expectedToken .. => "ExpectedTokenError"
  | trailingTokens _ => "TrailingTokensError"
  | nestingTooDeep _ => "NestingTooDeepError"

/-- The title of a report on a problem: the stage at which the program was refused. -/
def title : Problem → String
  | general => "CompilerError"
  | lexical | unexpectedCharacter _ => "ScannerError"
  | _ => "SyntaxError"

/-- The token that was found. -/
def got? : Problem → Option Token
  | general | lexical | unexpectedCharacter _ => none
  | syntactic got | unexpectedEnd got | unexpectedToken got | expectedToken _ _ got | trailingTokens got
  | nestingTooDeep got => some got

/-- Why a token cannot be an operand, if there is something to say. -/
def hint (got : Token) : String :=
  match got.kind with
  | .number => "numbers are not valid identifiers"
  | .closeRound | .closeSquare => "closing token with no matching opening"
  | _ => ""

end Problem

/-- A problem at a place of a program, and how many lines around the place a report quotes. -/
structure Diagnostic where
  program : String
  span : Span
  problem : Problem
  linesBefore : Int := 1
  linesAfter : Int := 1
  deriving DecidableEq, Repr

namespace Diagnostic

/-- A token of a kind, which serves a purpose, is missing. The place reaches from the opening token of the group that is
not complete, if there is one, to the token that was found. -/
def missingToken (program : String) (expected : Kind) (purpose : String) (opening : Option Token) (got : Token) :
    Diagnostic where
  program
  span := match opening with
    | some t => t.span.join got.span
    | none => got.span
  problem := .expectedToken expected purpose got

/-- What is wrong, in one line. -/
def message? (d : Diagnostic) : Option String :=
  match d.problem with
  | .general | .lexical | .syntactic _ => none
  | .unexpectedCharacter char =>
    some ("Unexpected character " ++ Text.quoted char ++ " on " ++ d.span.lineNames ++ ", column " ++
      d.span.columnName ++ ".")
  | .unexpectedEnd _ =>
    some "Expected an identifier, '(' or an array access, but the expression ended abruptly."
  | .unexpectedToken got =>
    let hint := Problem.hint got
    some ("Expected an identifier or '(', but found " ++ got.described ++
      (if hint.isEmpty then "" else " (" ++ hint ++ ")") ++ " on " ++ d.span.lineNames ++ ".")
  | .expectedToken expected purpose got =>
    some ("Expected " ++ expected.withArticle ++ " " ++ purpose ++ ", but found " ++ got.described ++ ".")
  | .trailingTokens got =>
    some ("Extra tokens after the end of the expression, starting with " ++ got.described ++ " on " ++
      d.span.lineNames ++ ".")
  | .nestingTooDeep got =>
    some ("The expression is nested too deeply to be parsed, reached " ++ got.described ++ " on " ++
      d.span.lineNames ++ ".")

/-- What a report adds below the quoted lines: where a missing token was expected. -/
def remark (d : Diagnostic) : String :=
  match d.problem with
  | .expectedToken expected _ got =>
    "Expected " ++ expected.described ++ " on " ++ got.span.lineNames ++ " column " ++ got.span.columnName ++ "."
  | _ => ""

/-- The text at the place of the diagnostic on its first line; none if that line is not in the program. -/
def excerpt (d : Diagnostic) : String :=
  let lines := Text.lines d.program.toList
  if 0 < d.span.startLine then
    match lines[(d.span.startLine - 1).toNat]? with
    | some line => String.ofList (Text.slice line d.span.startCol d.span.endCol)
    | none => ""
  else ""

end Diagnostic

end ArrayExpr
