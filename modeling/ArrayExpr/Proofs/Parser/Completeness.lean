import ArrayExpr.Proofs.Grammar.Nesting
import ArrayExpr.Proofs.Parser.Cases

/-!
# What is derived is read

A parser is complete for a rule if from the leaves of a derivation tree, and any tokens behind them that the rule would
not go on with, it reads that tree and leaves those tokens (`Parser.Complete`); the places of the parts are those that
the constructors give. The induction is on the number of groups that may be opened, and within a chain on the
repetition.
-/

namespace ArrayExpr

open Token

/-- The kinds of tokens with which a tree of the rule might go on. -/
def Nonterminal.goesOn : Nonterminal → List Kind
  | .factor => [.openSquare]
  | .term => .openSquare :: Nonterminal.operators .term
  | .expression => .openSquare :: (Nonterminal.operators .term ++ Nonterminal.operators .expression)

/-- The rule ends before these tokens. -/
def Nonterminal.EndsBefore (rule : Nonterminal) (rest : List Token) : Prop := ∀ t ∈ rest.head?, t.kind ∉ rule.goesOn

theorem Nonterminal.endsBefore_cons {rule : Nonterminal} {t : Token} {rest : List Token} (h : t.kind ∉ rule.goesOn) :
    rule.EndsBefore (t :: rest) := forall_head?_cons h

theorem Nonterminal.EndsBefore.mono {rule operandRule : Nonterminal} {rest : List Token} (h : rule.EndsBefore rest)
    (hsub : ∀ kind ∈ operandRule.goesOn, kind ∈ rule.goesOn) : operandRule.EndsBefore rest :=
  fun t ht hm => h t ht (hsub _ hm)

theorem Nonterminal.EndsBefore.joins_eq_false {rule : Nonterminal} {rest : List Token} (h : rule.EndsBefore rest)
    (hsub : ∀ kind ∈ rule.operators, kind ∈ rule.goesOn) : ∀ t ∈ rest.head?, rule.joins t.kind = false :=
  fun t ht => Bool.eq_false_iff.mpr fun hj => h t ht (hsub _ ((rule.joins_iff _).mp hj))

theorem Nonterminal.closing_notMem_goesOn (rule : Nonterminal) (bracket : Bracket) :
    bracket.closing ∉ rule.goesOn := by
  cases rule <;> cases bracket <;> decide

namespace Parser

/-- The parser reads each derivation tree of the rule in which fewer groups than the limit are open at once. -/
def Complete (p : Parser) (rule : Nonterminal) (limit : Nat) : Prop :=
  ∀ {t rest}, Derivation rule t → nesting t.leaves < limit → rule.EndsBefore rest →
    (p.run (t.leaves ++ rest)).outcome = .ok (t.mapTokens id) ∧ (p.run (t.leaves ++ rest)).rest = rest

variable {inner operand : Parser} {operandRule : Nonterminal} {limit : Nat}

/-- A chain of complete operands reads each alternation of them. -/
theorem links_complete (rule : Nonterminal) (ho : operand.Complete operandRule limit)
    (hoperators : ∀ kind ∈ rule.operators, kind ∉ operandRule.goesOn) {parts : List Tree}
    (h : Alternation (Derivation operandRule) rule.operators parts)
    (hlt : nesting (parts.flatMap Tree.leaves) < limit) {rest : List Token} (hends : operandRule.EndsBefore rest)
    (hrest : ∀ t ∈ rest.head?, rule.joins t.kind = false) :
    (links rule operand (parts.flatMap Tree.leaves ++ rest)).outcome = .ok (parts.map (Tree.mapTokens id)) ∧
      (links rule operand (parts.flatMap Tree.leaves ++ rest)).rest = rest := by
  induction h with
  | @last t hd =>
    rw [List.flatMap_singleton] at hlt ⊢
    obtain ⟨hok, hr⟩ := ho hd hlt hends
    rw [links_last hok (by rwa [hr])]
    exact ⟨rfl, hr⟩
  | @link t operator span others hd hop _ ih =>
    have hleaves : (t :: .leaf .literal operator span :: others).flatMap Tree.leaves =
        t.leaves ++ operator :: others.flatMap Tree.leaves := by simp
    rw [hleaves, hd.balanced.nesting_append, (isFlat_of_operator hop).nesting_cons] at hlt
    rw [hleaves, List.append_assoc, List.cons_append]
    obtain ⟨hltFirst, hltOthers⟩ := Nat.max_lt.mp hlt
    obtain ⟨hok, hr⟩ := ho hd hltFirst (Nonterminal.endsBefore_cons (hoperators _ hop))
    obtain ⟨hothers, hothersRest⟩ := ih hltOthers
    rw [links_link hok hr ((rule.joins_iff _).mpr hop), hothers]
    exact ⟨rfl, hothersRest⟩

/-- A group is read from the leaves of an enclosed tree. -/
theorem group_complete (hi : inner.Complete .expression limit) {bracket : Bracket} {tree : Tree} {parts : List Tree}
    (hd : Derivation .expression tree) (h : Enclosed bracket tree parts)
    (hlt : nesting (parts.flatMap Tree.leaves) < limit + 1) (rest : List Token) :
    ∃ opening ts, parts.flatMap Tree.leaves ++ rest = opening :: ts ∧ opening.kind = bracket.opening ∧
      (group bracket opening inner ts).outcome = .ok (parts.map (Tree.mapTokens id)) ∧
      (group bracket opening inner ts).rest = rest := by
  rw [(h.balanced hd.balanced).2] at hlt
  cases h with
  | @intro opening closing before after hopening hclosing =>
    have hends : Nonterminal.expression.EndsBefore (closing :: rest) :=
      Nonterminal.endsBefore_cons (hclosing ▸ Nonterminal.closing_notMem_goesOn _ bracket)
    obtain ⟨hok, hr⟩ := hi hd (Nat.lt_of_succ_lt_succ hlt) hends
    refine ⟨opening, tree.leaves ++ closing :: rest, by simp, hopening, ?_⟩
    rw [group_closed hok hr hclosing]
    exact ⟨rfl, rfl⟩

/-! ## The rules -/

theorem complete_factor (hi : inner.Complete .expression limit) : (factor inner).Complete .factor (limit + 1) := by
  intro t rest h hlt hends
  show (Except.map _ (factorParts inner _).outcome = _) ∧ (factorParts inner _).rest = rest
  cases h with
  | @name name place span hname =>
    have hrest : ∀ t ∈ rest.head?, t.kind ≠ .openSquare :=
      fun t ht he => hends t ht (he ▸ List.mem_cons_self)
    rw [Tree.leaves_node, List.flatMap_singleton, Tree.leaves_leaf, List.singleton_append,
      factorParts_name hname hrest, Tree.mapTokens_node]
    exact ⟨rfl, rfl⟩
  | @access name place tree parts span hname hd hgroup =>
    have hleaves : (Tree.node .factor (.leaf .identifier name place :: parts) span).leaves =
        name :: parts.flatMap Tree.leaves := by simp
    rw [hleaves, (isFlat_of_name hname).nesting_cons] at hlt
    obtain ⟨opening, ts, hts, hopening, hok, hr⟩ := group_complete hi hd hgroup hlt rest
    rw [hleaves, List.cons_append, hts, factorParts_access hname hopening, Run.map, hok, Tree.mapTokens_node]
    exact ⟨rfl, hr⟩
  | @parentheses tree parts span hd hgroup =>
    rw [Tree.leaves_node] at hlt
    obtain ⟨opening, ts, hts, hopening, hok, hr⟩ := group_complete hi hd hgroup hlt rest
    rw [Tree.leaves_node, hts, factorParts_parentheses hopening, hok, Tree.mapTokens_node]
    exact ⟨rfl, hr⟩

theorem complete_term (hi : inner.Complete .expression limit) : (term inner).Complete .term (limit + 1) := by
  intro t rest h hlt hends
  cases h with
  | @term parts span halt =>
    rw [Tree.leaves_node] at hlt ⊢
    obtain ⟨hok, hr⟩ := links_complete .term (complete_factor hi) (by decide) halt hlt
      (hends.mono (by decide)) (hends.joins_eq_false (by decide))
    refine ⟨?_, hr⟩
    rw [Tree.mapTokens_node]
    exact congrArg (Except.map (Tree.branch .term)) hok

theorem complete_expression (hi : inner.Complete .expression limit) :
    (expression inner).Complete .expression (limit + 1) := by
  intro t rest h hlt hends
  cases h with
  | @expression parts span halt =>
    rw [Tree.leaves_node] at hlt ⊢
    obtain ⟨hok, hr⟩ := links_complete .expression (complete_term hi) (by decide) halt hlt
      (hends.mono (by decide)) (hends.joins_eq_false (by decide))
    refine ⟨?_, hr⟩
    rw [Tree.mapTokens_node]
    exact congrArg (Except.map (Tree.branch .expression)) hok

/-- What stands between brackets is read if it has fewer open groups than may be open. -/
theorem complete_nested : ∀ limit : Nat, (nested limit).Complete .expression limit
  | 0 => fun _ h _ => absurd h (Nat.not_lt_zero _)
  | limit + 1 => complete_expression (complete_nested limit)

/-- **Completeness**: a rule reads each of its derivation trees in which no more groups are open at once than may be. -/
theorem complete_ofRule (limit : Nat) : ∀ rule : Nonterminal, (ofRule limit rule).Complete rule (limit + 1)
  | .expression => complete_expression (complete_nested limit)
  | .term => complete_term (complete_nested limit)
  | .factor => complete_factor (complete_nested limit)

end Parser

end ArrayExpr
