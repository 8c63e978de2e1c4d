import ArrayExpr.Text.Quoted

/-!
# Kinds of tokens

Every token is of one of ten `Kind`s. A kind has a `name`, under which listings show its tokens, and a `spelling`: the
lexeme of the operators and brackets, and a description of the kinds whose tokens have no fixed lexeme. Both tell the
kinds apart, so a kind can be looked up by either (`ofName`, `ofSpelling`).
-/

namespace ArrayExpr

/-- What a token is. -/
inductive Kind where
  | openRound | closeRound
  | openSquare | closeSquare
  | plus | star | slash
  | identifier | number
  | finish
  deriving DecidableEq, Repr

namespace Kind

/-- All kinds, in the order in which they are looked up. -/
def all : List Kind :=
  [openRound, closeRound, openSquare, closeSquare, plus, star, slash, identifier, number, finish]

/-- The name that listings show. -/
def name : Kind → String
  | openRound => "LRB"
  | closeRound => "RRB"
  | openSquare => "LSB"
  | closeSquare => "RSB"
  | plus => "PLUS"
  | star => "STAR"
  | slash => "SLASH"
  | identifier => "ID"
  | number => "NUMBER"
  | finish => "END"

/-- The lexeme of an operator or bracket, and a description of the other kinds. -/
def spelling : Kind → String
  | openRound => "("
  | closeRound => ")"
  | openSquare => "["
  | closeSquare => "]"
  | plus => "+"
  | star => "*"
  | slash => "/"
  | identifier => "identifier"
  | number => "number"
  | finish => "end of input"

/-- The operator or bracket that a character stands for. -/
def ofSymbol? : Char → Option Kind
  | '(' => some openRound
  | ')' => some closeRound
  | '[' => some openSquare
  | ']' => some closeSquare
  | '+' => some plus
  | '*' => some star
  | '/' => some slash
  | _ => none

/-- Tokens of the kind have a fixed lexeme. -/
def hasLexeme : Kind → Bool
  | identifier | number | finish => false
  | _ => true

/-- The kind as messages name it: a lexeme is quoted, a description is not. -/
def described (k : Kind) : String := if k.hasLexeme then Text.quoted k.spelling else k.spelling

/-- The kind as messages name it, with its article. -/
def withArticle (k : Kind) : String :=
  match k with
  | identifier => "an " ++ k.described
  | finish => "the " ++ k.described
  | _ => "a " ++ k.described

/-! ## Looking kinds up -/

/-- Why a look-up found no kind. -/
inductive LookupError where
  | unknownName (name : String)
  | unknownSpelling (spelling : String)
  deriving DecidableEq, Repr

/-- What is said of a look-up that found no kind. -/
def LookupError.message : LookupError → String
  | unknownName name => Text.quoted name
  | unknownSpelling spelling => Text.quoted spelling ++ " is not a valid Type"

/-- The kind of a given name. -/
def ofName (name : String) : Except LookupError Kind :=
  match all.find? (·.name == name) with
  | some k => .ok k
  | none => .error (.unknownName name)

/-- The kind of a given spelling. -/
def ofSpelling (spelling : String) : Except LookupError Kind :=
  match all.find? (·.spelling == spelling) with
  | some k => .ok k
  | none => .error (.unknownSpelling spelling)

end Kind

end ArrayExpr
