import ArrayExpr.Span
import ArrayExpr.Token.Kind

/-!
# Tokens

A token is a piece of a program: its text, its kind, and the place where it stands. Two tokens say the same if text
and kind agree (`content`), wherever they stand.
-/

namespace ArrayExpr

/-- A piece of text of a certain kind, and its place. -/
structure Token where
  text : String
  kind : Kind
  span : Span := .nowhere
  deriving DecidableEq, Repr

namespace Token

/-- A token whose kind is given by its name. -/
def ofName (text name : String) (span : Span) : Except Kind.LookupError Token :=
  (Kind.ofName name).map fun kind => { text, kind, span }

/-- Text and kind: all of a token but its place. -/
def content (t : Token) : String × Kind := (t.text, t.kind)

/-- The tokens agree in all but their places. -/
def same (a b : Token) : Bool := a.content == b.content

/-- The number of tokens that say different things. -/
def countDistinct (tokens : List Token) : Nat := (tokens.map content).eraseDups.length

/-- The token ends a token sequence. -/
def isFinish (t : Token) : Bool := t.kind == .finish

/-- A token as listings show it: the name of its kind and its quoted text. -/
def listing (t : Token) : String := t.kind.name ++ "(" ++ Text.quoted t.text ++ ")"

/-- A token as messages name it: as listings do, but for the end of the input. -/
def described (t : Token) : String := if t.isFinish then Kind.finish.described else t.listing

end Token

end ArrayExpr
