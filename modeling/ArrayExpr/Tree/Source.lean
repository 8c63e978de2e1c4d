import ArrayExpr.Tree.Walk

/-!
# The source of a tree

The source of a tree is the text of its leaves from left to right. Tokens stand one space apart, but brackets hug what
they hold, and the bracket of an array access hugs the name before it: `(a + b) * c[d / e]`.
-/

namespace ArrayExpr

namespace Kind

/-- No space follows a token of the kind. -/
def hugsNext : Kind → Bool
  | openRound | openSquare => true
  | _ => false

/-- No space precedes a token of the kind. -/
def hugsPrevious : Kind → Bool
  | closeRound | closeSquare | openSquare => true
  | _ => false

end Kind

namespace Token

/-- What stands between two neighbouring tokens. -/
def gap (left right : Token) : List Char :=
  if left.kind.hugsNext || right.kind.hugsPrevious then [] else [' ']

/-- The text of tokens, one after the other. -/
def spell : List Token → List Char
  | [] => []
  | [t] => t.text.toList
  | t :: u :: rest => t.text.toList ++ gap t u ++ spell (u :: rest)

end Token

/-- The text of a tree. -/
def Tree.source (t : Tree) : String := String.ofList (Token.spell t.leaves)

end ArrayExpr
