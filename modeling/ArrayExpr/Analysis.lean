import ArrayExpr.Diagnostic.Report
import ArrayExpr.Token.Lexer
import ArrayExpr.Tree.Parse

/-!
# Analysis of a program

`tokenize` reads the tokens of a program, `parse` the tree of a sequence of tokens, and `analyze` does both. The last two
take the number of groups that may be open at once. What can go wrong is a `Failure`: a name that is not that of a kind, a
token sequence that is not ended, or a diagnostic on the text or on its tokens. The traced forms `scan` and `parseTraced`
record events if asked to, which changes no result.
-/

namespace ArrayExpr

/-- Why there is no tree. -/
inductive Failure where
  /-- The kind of a token was looked up by a name that is not that of a kind. -/
  | unknownKind (error : Kind.LookupError)
  /-- The token sequence does not end in an end token. -/
  | unended
  /-- A character belongs to no token. -/
  | lexical (d : Diagnostic)
  /-- The tokens are not those of one expression. -/
  | syntactic (d : Diagnostic)
  deriving DecidableEq, Repr

/-- What is said of a failure, in full. -/
def Failure.report? : Failure → Option String
  | unknownKind error => some error.message
  | unended => some "The token sequence must end with an END token."
  | lexical d | syntactic d => d.report?

/-! ## Tokens -/

/-- The failure that an offence is. -/
def Offence.failure (program : String) : Offence → Failure
  | character char span => .lexical { program, span, problem := .unexpectedCharacter (String.singleton char) }
  | unknownName error => .unknownKind error

/-- The tokens read of a program, if there is no offence in it. -/
def Reading.result (program : String) (r : Reading) : Except Failure (List Token) :=
  match r.offence with
  | some offence => .error (offence.failure program)
  | none => .ok r.tokens

/-- Reads one line of a program, with the number it is given. -/
def scanLine (debug : Bool) (program line : String) (number : Int) : Traced (Except Failure (List Token)) :=
  let reading := Lexer.readLine number 0 line.toList
  Traced.keepIf debug ⟨reading.tokens.map .token, reading.result program⟩

/-- Reads a program, with the token that ends it. -/
def scan (debug : Bool) (program : String) : Traced (Except Failure (List Token)) :=
  let reading := Lexer.read program
  Traced.keepIf debug ⟨reading.tokens.map .token, reading.result program⟩

/-- The tokens of a program. -/
def tokenize (program : String) : Except Failure (List Token) := (scan false program).result

/-! ## Trees -/

/-- Reads the tree of a token sequence; the program is quoted in diagnostics. -/
def parseTraced (debug : Bool) (tokens : List Token) (program : String) (limit : Nat := nestingLimit) :
    Traced (Except Failure Tree) :=
  match Cursor.ofTokens tokens with
  | none => ⟨[], .error .unended⟩
  | some start =>
    let parsed := start.parse program limit
    Traced.keepIf debug ⟨parsed.events, parsed.result.mapError .syntactic⟩

/-- The tree of a token sequence; the program is quoted in diagnostics. -/
def parse (tokens : List Token) (program : String) (limit : Nat := nestingLimit) : Except Failure Tree :=
  (parseTraced false tokens program limit).result

/-- The tree of a program. -/
def analyze (program : String) (limit : Nat := nestingLimit) : Except Failure Tree := do
  let tokens ← tokenize program
  parse tokens program limit

end ArrayExpr
