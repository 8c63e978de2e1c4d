import ArrayExpr.Token.Basic

/-!
# Syntax trees

A `Tree` has a node for each rule of the grammar that was applied and a leaf for each token. Any tree can be built;
which ones the grammar derives is another matter. Every part may carry its place: `Tree.branch`, `Tree.identifier` and
`Tree.literal` take it from the parts below. Two trees are the same if they agree in all but places (`same`).
-/

namespace ArrayExpr

/-- The rules of the grammar. -/
inductive Nonterminal where
  | expression | term | factor
  deriving DecidableEq, Repr

/-- The name of a rule. -/
def Nonterminal.name : Nonterminal → String
  | expression => "Expression"
  | term => "Term"
  | factor => "Factor"

/-- What a leaf stands for: a name, or an operator or bracket. -/
inductive Role where
  | identifier | literal
  deriving DecidableEq, Repr

/-- The name of a role. -/
def Role.name : Role → String
  | identifier => "Identifier"
  | literal => "Literal"

/-- A syntax tree, with the places of its parts. -/
inductive Tree where
  | node (rule : Nonterminal) (children : List Tree) (span : Option Span)
  | leaf (role : Role) (token : Token) (span : Span)

namespace Tree

/-- The parts directly below. -/
def children : Tree → List Tree
  | node _ children _ => children
  | leaf .. => []

/-- The place of a tree; a node over nothing has none. -/
def span : Tree → Option Span
  | node _ _ span => span
  | leaf _ _ span => some span

/-- The token of a leaf. -/
def token? : Tree → Option Token
  | node .. => none
  | leaf _ token _ => some token

/-- A node whose place is that of its children, from the first that has one to the last. -/
def branch (rule : Nonterminal) (children : List Tree) : Tree :=
  node rule children (Span.cover (children.filterMap span))

/-- A leaf at the place of its token. -/
def ofToken (role : Role) (t : Token) : Tree := leaf role t t.span

/-- The leaf of a name. -/
def identifier (t : Token) : Tree := ofToken .identifier t

/-- The leaf of an operator or bracket. -/
def literal (t : Token) : Tree := ofToken .literal t

/-- The name of a part: its rule, the token of a name, or the text of an operator or bracket. -/
def label : Tree → String
  | node rule .. => rule.name
  | leaf .identifier token _ => token.listing
  | leaf .literal token _ => Text.quoted token.text

/-- The name of the sort of a part: its rule, or the role of its leaf. -/
def sortName : Tree → String
  | node rule .. => rule.name ++ "Node"
  | leaf role .. => role.name ++ "Node"

/-! ## Sameness -/

mutual

/-- The trees agree in all but places. -/
def same : Tree → Tree → Bool
  | node rule children _, node rule' children' _ => rule == rule' && sameAll children children'
  | leaf role token _, leaf role' token' _ => role == role' && token.same token'
  | _, _ => false

/-- The trees of two lists agree one by one. -/
def sameAll : List Tree → List Tree → Bool
  | [], [] => true
  | t :: ts, u :: us => same t u && sameAll ts us
  | _, _ => false

end

/-! ## Size -/

mutual

/-- The number of nodes and leaves. -/
def size : Tree → Nat
  | node _ children _ => 1 + sizeAll children
  | leaf .. => 1

/-- The number of nodes and leaves of all trees of a list. -/
def sizeAll : List Tree → Nat
  | [] => 0
  | t :: ts => size t + sizeAll ts

end

theorem size_eq : ∀ t : Tree, t.size = 1 + sizeAll t.children
  | node .. => by simp only [size, children]
  | leaf .. => by simp only [size, children, sizeAll]

theorem sizeAll_append : ∀ ts us : List Tree, sizeAll (ts ++ us) = sizeAll ts + sizeAll us
  | [], us => by simp only [List.nil_append, sizeAll, Nat.zero_add]
  | t :: ts, us => by simp only [List.cons_append, sizeAll, sizeAll_append ts us, Nat.add_assoc]

end Tree

end ArrayExpr
