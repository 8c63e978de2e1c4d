import ArrayExpr.Tree.Basic

/-!
# Reading trees from tokens

The grammar has three rules:

    Expression := Term ('+' Term)*
    Term       := Factor (('*' | '/') Factor)*
    Factor     := Identifier ('[' Expression ']')? | '(' Expression ')'

A `Parser` reads a tree from the front of a list of tokens, none of which ends the input. It reports the tree or the
`Fault` at which it stopped, the tokens left at that point, and the rules that it entered on the way. Every parser
leaves a tail of its tokens, and passes at least one token if it reads a tree; the second fact lets `chain` read any
number of operands. `Parser.chain` is the rule of the first two lines and `Parser.factor` that of the third, over a
parser for what stands between brackets. `Parser.nested` ties the knot: each group that is opened takes one off a
number of groups that may still be opened, and none may be opened at zero.
-/

namespace ArrayExpr

/-- The two pairs of brackets. -/
inductive Bracket where
  | round | square
  deriving DecidableEq, Repr

namespace Bracket

/-- The kind of the opening bracket. -/
def opening : Bracket → Kind
  | round => .openRound
  | square => .openSquare

/-- The kind of the closing bracket. -/
def closing : Bracket → Kind
  | round => .closeRound
  | square => .closeSquare

/-- What the closing bracket is for, as messages put it. -/
def purpose : Bracket → String
  | round => "to close the parenthesized expression"
  | square => "to close the array access after the expression"

end Bracket

/-- A token of the kind joins two operands of the rule. -/
def Nonterminal.joins : Nonterminal → Kind → Bool
  | expression, .plus => true
  | term, .star => true
  | term, .slash => true
  | _, _ => false

/-- Why no tree could be read. -/
inductive Fault where
  /-- An operand must stand here. -/
  | noOperand
  /-- The closing bracket of a group must stand here. -/
  | unclosed (bracket : Bracket) (opening : Token)
  /-- One group more has been opened than may be open at once. -/
  | tooDeep
  deriving DecidableEq, Repr

/-- A rule that was entered, and the token at which it was; there is none at the end of the input. -/
structure Visit where
  rule : Nonterminal
  next : Option Token
  deriving DecidableEq, Repr

/-- What came of reading: the rules entered, the tokens left, and the result or a fault. -/
structure Run (α : Type) where
  visits : List Visit
  rest : List Token
  outcome : Except Fault α

namespace Run

/-- Success without reading on. -/
def done (a : α) (rest : List Token) : Run α := ⟨[], rest, .ok a⟩

/-- A fault at the tokens left. -/
def fail (rest : List Token) (fault : Fault) : Run α := ⟨[], rest, .error fault⟩

/-- The same run with another result. -/
def map (f : α → β) (r : Run α) : Run β := { r with outcome := r.outcome.map f }

/-- Reading on after a success. -/
def andThen (r : Run α) (next : α → List Token → Run β) : Run β :=
  match r.outcome with
  | .error fault => { r with outcome := .error fault }
  | .ok a =>
    let after := next a r.rest
    { after with visits := r.visits ++ after.visits }

/-- A run of a rule, from its parts: the rule was entered first, and its node holds the parts. -/
def enter (rule : Nonterminal) (ts : List Token) (r : Run (List Tree)) : Run Tree :=
  { visits := ⟨rule, ts.head?⟩ :: r.visits, rest := r.rest, outcome := r.outcome.map (Tree.branch rule) }

end Run

/-- The first token and the rest, if the kind of that token fits. -/
def takeIf (fits : Kind → Bool) : List Token → Option (Token × List Token)
  | [] => none
  | t :: rest => if fits t.kind then some (t, rest) else none

/-- A token can be taken exactly if it is the first and fits. -/
theorem takeIf_eq_some {fits : Kind → Bool} {ts rest : List Token} {t : Token} :
    takeIf fits ts = some (t, rest) ↔ ts = t :: rest ∧ fits t.kind = true := by
  cases ts with
  | nil => simp [takeIf]
  | cons u us =>
    by_cases h : fits u.kind = true
    · simp only [takeIf, h, if_true, Option.some.injEq, Prod.mk.injEq, List.cons.injEq]
      constructor
      · rintro ⟨rfl, rfl⟩
        exact ⟨⟨rfl, rfl⟩, h⟩
      · rintro ⟨⟨rfl, rfl⟩, _⟩
        exact ⟨rfl, rfl⟩
    · simp only [takeIf, h, List.cons.injEq]
      constructor
      · intro h'
        cases h'
      · rintro ⟨⟨rfl, rfl⟩, h'⟩
        exact absurd h' h

/-- A way to read a tree from the front of a list of tokens. -/
structure Parser where
  run : List Token → Run Tree
  /-- What is left is a tail of the tokens, whether or not a tree was read. -/
  rest_suffix : ∀ ts, (run ts).rest <:+ ts
  /-- A tree takes at least one token. -/
  rest_lt : ∀ {ts t}, (run ts).outcome = .ok t → (run ts).rest.length < ts.length

namespace Parser

/-! ## Operands and operators -/

theorem lt_of_link (operand : Parser) {ts rest : List Token} {tree : Tree} {operator : Token} {fits : Kind → Bool}
    (h : (operand.run ts).outcome = .ok tree) (ht : takeIf fits (operand.run ts).rest = some (operator, rest)) :
    rest.length < ts.length := by
  have hlt := operand.rest_lt h
  rw [(takeIf_eq_some.mp ht).1, List.length_cons] at hlt
  omega

/-- Reads an operand, and as long as an operator of the rule follows, that operator and the next operand. -/
def links (rule : Nonterminal) (operand : Parser) (ts : List Token) : Run (List Tree) :=
  let first := operand.run ts
  match _ : first.outcome with
  | .error fault => { first with outcome := .error fault }
  | .ok tree =>
    match _ : takeIf rule.joins first.rest with
    | none => { first with outcome := .ok [tree] }
    | some (operator, rest) =>
      let others := links rule operand rest
      { visits := first.visits ++ others.visits
        rest := others.rest
        outcome := others.outcome.map (tree :: .literal operator :: ·) }
termination_by ts.length
decreasing_by exact operand.lt_of_link (by assumption) (by assumption)

/-- The links of a chain leave a tail of the tokens. -/
theorem links_suffix (rule : Nonterminal) (operand : Parser) (ts : List Token) :
    (links rule operand ts).rest <:+ ts := by
  fun_induction links rule operand ts with
  | case1 => exact operand.rest_suffix _
  | case2 => exact operand.rest_suffix _
  | case3 ts _ _ _ _ _ ht _ ih =>
    have hs := operand.rest_suffix ts
    rw [(takeIf_eq_some.mp ht).1] at hs
    exact (ih.trans (List.suffix_cons _ _)).trans hs

theorem links_lt {rule : Nonterminal} {operand : Parser} {ts : List Token} {trees : List Tree}
    (hok : (links rule operand ts).outcome = .ok trees) : (links rule operand ts).rest.length < ts.length := by
  fun_induction links rule operand ts generalizing trees with
  | case1 => cases hok
  | case2 _ _ _ h => exact operand.rest_lt h
  | case3 ts _ tree h operator rest ht =>
    exact Nat.lt_of_le_of_lt (links_suffix rule operand rest).length_le (operand.lt_of_link h ht)

/-- The rule whose node holds operands and the operators between them. -/
def chain (rule : Nonterminal) (operand : Parser) : Parser where
  run ts := (links rule operand ts).enter rule ts
  rest_suffix ts := links_suffix rule operand ts
  rest_lt {ts t} h := by
    cases ho : (links rule operand ts).outcome with
    | error => simp [Run.enter, ho, Except.map] at h
    | ok trees => exact links_lt ho

/-! ## Names and groups -/

/-- Reads what a pair of brackets holds, and the closing bracket. -/
def group (bracket : Bracket) (opening : Token) (inner : Parser) (ts : List Token) : Run (List Tree) :=
  (inner.run ts).andThen fun tree rest =>
    match takeIf (· == bracket.closing) rest with
    | some (closing, rest) => .done [.literal opening, tree, .literal closing] rest
    | none => .fail rest (.unclosed bracket opening)

/-- Reads the parts of a factor: a name and perhaps the group of an array access, or a group in parentheses. -/
def factorParts (inner : Parser) (ts : List Token) : Run (List Tree) :=
  match takeIf (· == .identifier) ts with
  | some (name, rest) =>
    match takeIf (· == Bracket.square.opening) rest with
    | some (opening, rest) => (group .square opening inner rest).map (.identifier name :: ·)
    | none => .done [.identifier name] rest
  | none =>
    match takeIf (· == Bracket.round.opening) ts with
    | some (opening, rest) => group .round opening inner rest
    | none => .fail ts .noOperand

/-- A group leaves a tail of the tokens. -/
theorem group_suffix (bracket : Bracket) (opening : Token) (inner : Parser) (ts : List Token) :
    (group bracket opening inner ts).rest <:+ ts := by
  have hs := inner.rest_suffix ts
  unfold group Run.andThen
  split
  · exact hs
  · dsimp only
    split
    · next ht =>
      rw [(takeIf_eq_some.mp ht).1] at hs
      exact (List.suffix_cons _ _).trans hs
    · exact hs

/-- A factor leaves a tail of the tokens. -/
theorem factorParts_suffix (inner : Parser) (ts : List Token) : (factorParts inner ts).rest <:+ ts := by
  unfold factorParts
  split
  · next hn =>
    rw [(takeIf_eq_some.mp hn).1]
    split
    · next ho =>
      rw [(takeIf_eq_some.mp ho).1]
      exact ((group_suffix ..).trans (List.suffix_cons _ _)).trans (List.suffix_cons _ _)
    · exact List.suffix_cons _ _
  · split
    · next ho =>
      rw [(takeIf_eq_some.mp ho).1]
      exact (group_suffix ..).trans (List.suffix_cons _ _)
    · exact List.suffix_rfl

/-- A factor takes at least one token. -/
theorem factorParts_lt {inner : Parser} {ts : List Token} {trees : List Tree}
    (hok : (factorParts inner ts).outcome = .ok trees) : (factorParts inner ts).rest.length < ts.length := by
  unfold factorParts at hok ⊢
  cases hn : takeIf (· == .identifier) ts with
  | some taken =>
    obtain ⟨name, rest⟩ := taken
    obtain ⟨rfl, _⟩ := takeIf_eq_some.mp hn
    dsimp only
    cases ho : takeIf (· == Bracket.square.opening) rest with
    | some opened =>
      obtain ⟨opening, rest⟩ := opened
      obtain ⟨rfl, _⟩ := takeIf_eq_some.mp ho
      exact Nat.lt_succ_of_le (Nat.le_succ_of_le (group_suffix .square opening inner rest).length_le)
    | none => exact Nat.lt_succ_self _
  | none =>
    simp only [hn] at hok ⊢
    cases ho : takeIf (· == Bracket.round.opening) ts with
    | some opened =>
      obtain ⟨opening, rest⟩ := opened
      obtain ⟨rfl, _⟩ := takeIf_eq_some.mp ho
      exact Nat.lt_succ_of_le (group_suffix .round opening inner rest).length_le
    | none =>
      simp only [ho] at hok
      cases hok

/-- The rule of a name, an array access or a group in parentheses. -/
def factor (inner : Parser) : Parser where
  run ts := (factorParts inner ts).enter .factor ts
  rest_suffix ts := factorParts_suffix inner ts
  rest_lt {ts t} h := by
    cases ho : (factorParts inner ts).outcome with
    | error => simp [Run.enter, ho, Except.map] at h
    | ok trees => exact factorParts_lt ho

/-! ## The rules of the grammar -/

/-- Reads nothing, since no further group may be opened. -/
def tooDeep : Parser where
  run ts := .fail ts .tooDeep
  rest_suffix _ := List.suffix_rfl
  rest_lt h := nomatch h

/-- The rule for operands of multiplication and division, over a parser for what stands between brackets. -/
def term (inner : Parser) : Parser := chain .term (factor inner)

/-- The rule for operands of addition, over a parser for what stands between brackets. -/
def expression (inner : Parser) : Parser := chain .expression (term inner)

/-- Reads what stands between brackets if so many groups may be open, that one included. -/
def nested : Nat → Parser
  | 0 => tooDeep
  | limit + 1 => expression (nested limit)

/-- Reads by a rule, if so many groups may be open at once. -/
def ofRule (limit : Nat) : Nonterminal → Parser
  | .expression => expression (nested limit)
  | .term => term (nested limit)
  | .factor => factor (nested limit)

end Parser

end ArrayExpr
