import ArrayExpr.Text.Letter
import ArrayExpr.Text.Digit
import ArrayExpr.Text.Blank
import ArrayExpr.Text.Lines
import ArrayExpr.Token.Basic

/-!
# From text to tokens

The first character of a unit of text decides which of the `patterns` it follows, and the pattern decides how far it
reaches: an identifier is a letter and all letters and digits after it, a number is a run of digits, an operator or
bracket is one character. The name of the pattern is that of the kind of the token, except for blanks, which are
skipped, and for a character that fits no other pattern: it is refused, and nothing after it is read. `readLine` reads
one line in this way, and `readLines` line after line, so that no token reaches over a line break. `read` reads a
program, whose last token is the `endToken` that stands behind its last character.
-/

namespace ArrayExpr

/-- Why no more is read. -/
inductive Offence where
  /-- A character that belongs to no token, and its place. -/
  | character (char : Char) (span : Span)
  /-- The name of a pattern that is not the name of a kind. -/
  | unknownName (error : Kind.LookupError)
  deriving DecidableEq, Repr

/-- What was read of a text: its tokens up to the first offence, and that offence. -/
structure Reading where
  tokens : List Token
  offence : Option Offence
  deriving DecidableEq, Repr

namespace Reading

/-- Nothing to read. -/
def empty : Reading := ⟨[], none⟩

/-- A token, and what was read after it. -/
def cons (t : Token) (r : Reading) : Reading := { r with tokens := t :: r.tokens }

/-- One reading after another; an offence in the first hides the second. -/
def append (a b : Reading) : Reading :=
  match a.offence with
  | some _ => a
  | none => { b with tokens := a.tokens ++ b.tokens }

end Reading

namespace Lexer

/-- A pattern for units of text: its name, the characters that begin a unit, and those that continue it. -/
structure Pattern where
  name : String
  begins : Char → Bool
  continues : Char → Bool

/-- The pattern of one character. -/
def Pattern.symbol (name : String) (c : Char) : Pattern := ⟨name, (· == c), fun _ => false⟩

/-- The patterns, in the order in which they are tried. The last one fits what no other fits. -/
def patterns : List Pattern :=
  [⟨"ID", Text.isLetter, fun c => Text.isLetter c || Text.isDigit c⟩,
   ⟨"NUMBER", Text.isDigit, Text.isDigit⟩,
   .symbol "PLUS" '+', .symbol "STAR" '*', .symbol "SLASH" '/',
   .symbol "LRB" '(', .symbol "RRB" ')', .symbol "LSB" '[', .symbol "RSB" ']',
   ⟨"SPACE", Text.isBlank, fun _ => false⟩,
   ⟨"ERROR", (· != '\n'), fun _ => false⟩]

/-- The pattern of the unit that a character begins. -/
def pattern? (c : Char) : Option Pattern := patterns.find? (·.begins c)

/-- Reads the rest of a line, which begins at a column. -/
def readLine (line : Int) (col : Nat) : List Char → Reading
  | [] => .empty
  | c :: rest =>
    match pattern? c with
    | none => readLine line (col + 1) rest
    | some pattern =>
      let text := c :: rest.takeWhile pattern.continues
      let stop := col + text.length
      let after := rest.dropWhile pattern.continues
      if pattern.name = "SPACE" then readLine line stop after
      else if pattern.name = "ERROR" then ⟨[], some (.character c (.onLine line col stop))⟩
      else
        match Token.ofName (String.ofList text) pattern.name (.onLine line col stop) with
        | .error e => ⟨[], some (.unknownName e)⟩
        | .ok t => .cons t (readLine line stop after)
termination_by cs => cs.length
decreasing_by
  · exact Nat.lt_succ_self _
  · exact Nat.lt_succ_of_le (List.dropWhile_sublist _).length_le
  · exact Nat.lt_succ_of_le (List.dropWhile_sublist _).length_le

/-- Reads lines, of which the first has a given number. -/
def readLines (number : Int) : List (List Char) → Reading
  | [] => .empty
  | line :: rest => (readLine number 0 line).append (readLines (number + 1) rest)

/-- The token behind the last character of the lines. -/
def endToken (lines : List (List Char)) : Token :=
  let number : Int := max 1 lines.length
  let col : Int := (lines.getLastD []).length
  ⟨"", .finish, .onLine number col col⟩

/-- Reads a program, and ends its tokens. -/
def read (program : String) : Reading :=
  let lines := Text.lines program.toList
  (readLines 1 lines).append ⟨[endToken lines], none⟩

end Lexer

end ArrayExpr
