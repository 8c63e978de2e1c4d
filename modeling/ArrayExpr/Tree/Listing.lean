import ArrayExpr.Tree.Basic

/-!
# Listings of trees

The listing of a tree writes it on one line as it is built, without places: every node with its children between
parentheses, every leaf with its token.
-/

namespace ArrayExpr.Tree

/-- Items between parentheses. A single item is followed by a comma, so that it is seen to be a sequence. -/
def sequence : List String → String
  | [item] => "(" ++ item ++ ",)"
  | items => "(" ++ ", ".intercalate items ++ ")"

mutual

/-- The tree written on one line. -/
def listing : Tree → String
  | node rule children _ => rule.name ++ "Node(children=" ++ sequence (listings children) ++ ")"
  | leaf role token _ => role.name ++ "Node(token=" ++ token.listing ++ ")"

/-- The listings of trees, one by one. -/
def listings : List Tree → List String
  | [] => []
  | t :: ts => listing t :: listings ts

end

end ArrayExpr.Tree
