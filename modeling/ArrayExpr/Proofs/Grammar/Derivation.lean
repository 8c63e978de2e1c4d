import ArrayExpr.Proofs.Tree.Relabel
import ArrayExpr.Tree.Parser

/-!
# Derivation trees

The grammar

    Expression := Term ('+' Term)*
    Term       := Factor (('*' | '/') Factor)*
    Factor     := Identifier ('[' Expression ']')? | '(' Expression ')'

as a relation between rules and trees, without regard to how a tree is found and to where its parts stand. A repetition
`X (op X)*` is an `Alternation`: its operands and operators are siblings under one node. An `Enclosed` tree stands
between the brackets of a pair. A derivation tree is a node over derivation trees and leaves of suitable kinds
(`Derivation.children_derived`), and places do not matter (`Derivation.of_same`).
-/

namespace ArrayExpr

/-- Operands, and between each two of them the leaf of an operator of one of some kinds. -/
inductive Alternation (Operand : Tree → Prop) (operators : List Kind) : List Tree → Prop
  | last {operand : Tree} : Operand operand → Alternation Operand operators [operand]
  | link {operand : Tree} {operator : Token} {span : Span} {others : List Tree} : Operand operand →
      operator.kind ∈ operators → Alternation Operand operators others →
      Alternation Operand operators (operand :: .leaf .literal operator span :: others)

/-- A tree between the leaves of the two brackets of a pair. -/
inductive Enclosed (bracket : Bracket) (inner : Tree) : List Tree → Prop
  | intro {opening closing : Token} {before after : Span} : opening.kind = bracket.opening →
      closing.kind = bracket.closing →
      Enclosed bracket inner [.leaf .literal opening before, inner, .leaf .literal closing after]

/-- **Derivation trees of a rule.** -/
inductive Derivation : Nonterminal → Tree → Prop
  | expression {parts : List Tree} {span : Option Span} : Alternation (Derivation .term) [.plus] parts →
      Derivation .expression (.node .expression parts span)
  | term {parts : List Tree} {span : Option Span} : Alternation (Derivation .factor) [.star, .slash] parts →
      Derivation .term (.node .term parts span)
  | name {name : Token} {place : Span} {span : Option Span} : name.kind = .identifier →
      Derivation .factor (.node .factor [.leaf .identifier name place] span)
  | access {name : Token} {place : Span} {inner : Tree} {group : List Tree} {span : Option Span} :
      name.kind = .identifier → Derivation .expression inner → Enclosed .square inner group →
      Derivation .factor (.node .factor (.leaf .identifier name place :: group) span)
  | parentheses {inner : Tree} {group : List Tree} {span : Option Span} : Derivation .expression inner →
      Enclosed .round inner group → Derivation .factor (.node .factor group span)

/-- The kinds of the operators that join operands of a rule. -/
def Nonterminal.operators : Nonterminal → List Kind
  | .expression => [.plus]
  | .term => [.star, .slash]
  | .factor => []

theorem Nonterminal.joins_iff (rule : Nonterminal) (kind : Kind) : rule.joins kind = true ↔ kind ∈ rule.operators := by
  cases rule <;> cases kind <;> decide

/-! ## Parts of derivations -/

section Parts

variable {P Q : Tree → Prop} {operators : List Kind} {parts : List Tree} {bracket : Bracket} {inner : Tree}

theorem Alternation.ne_nil (h : Alternation P operators parts) : parts ≠ [] := by
  cases h <;> exact List.cons_ne_nil _ _

/-- Every part of an alternation is an operand or the leaf of an operator. -/
theorem Alternation.mem (h : Alternation P operators parts) {part : Tree} (hpart : part ∈ parts) :
    P part ∨ ∃ operator span, part = .leaf .literal operator span ∧ operator.kind ∈ operators := by
  induction h with
  | last hoperand =>
    rw [List.mem_singleton.mp hpart]
    exact Or.inl hoperand
  | link hoperand hoperator _ ih =>
    rcases List.mem_cons.mp hpart with rfl | hpart
    · exact Or.inl hoperand
    · rcases List.mem_cons.mp hpart with rfl | hpart
      · exact Or.inr ⟨_, _, rfl, hoperator⟩
      · exact ih hpart

theorem Enclosed.exists_leaves (h : Enclosed bracket inner parts) : ∃ opening closing : Token,
    opening.kind = bracket.opening ∧ closing.kind = bracket.closing ∧
      parts.flatMap Tree.leaves = opening :: (inner.leaves ++ [closing]) := by
  cases h with
  | @intro opening closing before after hopening hclosing =>
    exact ⟨opening, closing, hopening, hclosing, by simp⟩

theorem Enclosed.mem (h : Enclosed bracket inner parts) : inner ∈ parts := by
  cases h
  exact List.mem_cons_of_mem _ List.mem_cons_self

end Parts

/-! ## Children of derivation trees -/

/-- Leaves of the role hold tokens of this kind in derivation trees. -/
def Role.Suits : Role → Kind → Prop
  | .identifier, kind => kind = .identifier
  | .literal, kind => kind.hasLexeme = true

theorem Nonterminal.hasLexeme_of_mem_operators {rule : Nonterminal} {kind : Kind} (h : kind ∈ rule.operators) :
    kind.hasLexeme = true := by
  cases rule <;> simp only [operators, List.mem_cons, List.not_mem_nil, or_false] at h
  · rw [h]
    rfl
  · rcases h with rfl | rfl <;> rfl

theorem Bracket.hasLexeme (bracket : Bracket) :
    bracket.opening.hasLexeme = true ∧ bracket.closing.hasLexeme = true := by
  cases bracket <;> exact ⟨rfl, rfl⟩

/-- The tree is derived from some rule, or is a leaf with a token of a kind that suits its role. -/
def Tree.Derived (t : Tree) : Prop :=
  (∃ rule, Derivation rule t) ∨ ∃ role token span, t = leaf role token span ∧ role.Suits token.kind

theorem Alternation.derived {operand : Nonterminal} (rule : Nonterminal) {parts : List Tree}
    (h : Alternation (Derivation operand) rule.operators parts) : ∀ part ∈ parts, part.Derived := by
  intro part hpart
  rcases h.mem hpart with hd | ⟨operator, span, rfl, hoperator⟩
  · exact Or.inl ⟨operand, hd⟩
  · exact Or.inr ⟨_, _, _, rfl, Nonterminal.hasLexeme_of_mem_operators hoperator⟩

/-- The parts of a group around a derivation tree are derived. -/
theorem Enclosed.derived {bracket : Bracket} {inner : Tree} {parts : List Tree} (h : Enclosed bracket inner parts)
    (hinner : Derivation .expression inner) : ∀ part ∈ parts, part.Derived := by
  cases h with
  | intro hopening hclosing =>
    intro part hpart
    simp only [List.mem_cons, List.not_mem_nil, or_false] at hpart
    rcases hpart with rfl | rfl | rfl
    · exact Or.inr ⟨_, _, _, rfl, hopening ▸ bracket.hasLexeme.1⟩
    · exact Or.inl ⟨_, hinner⟩
    · exact Or.inr ⟨_, _, _, rfl, hclosing ▸ bracket.hasLexeme.2⟩

/-- A derivation tree is a node with children that are derived. -/
theorem Derivation.children_derived {rule : Nonterminal} {t : Tree} (h : Derivation rule t) :
    t.children ≠ [] ∧ ∀ child ∈ t.children, child.Derived := by
  cases h with
  | expression hparts => exact ⟨hparts.ne_nil, Alternation.derived .expression hparts⟩
  | term hparts => exact ⟨hparts.ne_nil, Alternation.derived .term hparts⟩
  | name hname =>
    refine ⟨List.cons_ne_nil _ _, fun child hchild => ?_⟩
    cases List.mem_singleton.mp hchild
    exact Or.inr ⟨_, _, _, rfl, hname⟩
  | access hname hinner hgroup =>
    refine ⟨List.cons_ne_nil _ _, fun child hchild => ?_⟩
    rcases List.mem_cons.mp hchild with rfl | hmem
    · exact Or.inr ⟨_, _, _, rfl, hname⟩
    · exact hgroup.derived hinner child hmem
  | parentheses hinner hgroup => exact ⟨List.ne_nil_of_mem hgroup.mem, hgroup.derived hinner⟩

/-! ## Places do not matter -/

/-- A leaf is the same as a leaf of the same role and content. -/
theorem Tree.exists_of_leaf_same {role : Role} {token : Token} {span : Span} {u : Tree}
    (h : (leaf role token span).same u = true) :
    ∃ token' span', u = leaf role token' span' ∧ token'.kind = token.kind := by
  cases u with
  | node => simp [same] at h
  | leaf role' token' span' =>
    simp only [same, Token.same, Bool.and_eq_true, beq_iff_eq] at h
    obtain ⟨rfl, hcontent⟩ := h
    exact ⟨token', span', rfl, (congrArg Prod.snd hcontent).symm⟩

theorem Tree.exists_of_sameAll_cons {t : Tree} {ts us : List Tree} (h : sameAll (t :: ts) us = true) :
    ∃ u us', us = u :: us' ∧ t.same u = true ∧ sameAll ts us' = true := by
  cases us with
  | nil => simp [sameAll] at h
  | cons u us' =>
    rw [sameAll, Bool.and_eq_true] at h
    exact ⟨u, us', rfl, h⟩

theorem Tree.eq_nil_of_sameAll {us : List Tree} (h : sameAll [] us = true) : us = [] := by
  cases us with
  | nil => rfl
  | cons => simp [sameAll] at h

/-- An alternation of the same parts. -/
theorem Alternation.of_sameAll {P : Tree → Prop} {operators : List Kind} {parts : List Tree}
    (h : Alternation P operators parts) (hP : ∀ t ∈ parts, ∀ u, P t → t.same u = true → P u) {parts' : List Tree}
    (hs : Tree.sameAll parts parts' = true) : Alternation P operators parts' := by
  induction h generalizing parts' with
  | last hoperand =>
    obtain ⟨u, _, rfl, hu, hnil⟩ := Tree.exists_of_sameAll_cons hs
    rw [Tree.eq_nil_of_sameAll hnil]
    exact .last (hP _ List.mem_cons_self u hoperand hu)
  | link hoperand hoperator _ ih =>
    obtain ⟨u, _, rfl, hu, hrest⟩ := Tree.exists_of_sameAll_cons hs
    obtain ⟨_, _, rfl, hleaf, hothers⟩ := Tree.exists_of_sameAll_cons hrest
    obtain ⟨_, _, rfl, hkind⟩ := Tree.exists_of_leaf_same hleaf
    refine .link (hP _ List.mem_cons_self u hoperand hu) (hkind ▸ hoperator) (ih ?_ hothers)
    exact fun t ht => hP t (List.mem_cons_of_mem _ (List.mem_cons_of_mem _ ht))

/-- A group of the same parts encloses the same tree. -/
theorem Enclosed.of_sameAll {bracket : Bracket} {inner : Tree} {parts parts' : List Tree}
    (h : Enclosed bracket inner parts) (hs : Tree.sameAll parts parts' = true) :
    ∃ inner', inner.same inner' = true ∧ Enclosed bracket inner' parts' := by
  cases h with
  | intro hopening hclosing =>
    obtain ⟨_, _, rfl, hfirst, hrest⟩ := Tree.exists_of_sameAll_cons hs
    obtain ⟨_, _, rfl, hopen⟩ := Tree.exists_of_leaf_same hfirst
    obtain ⟨inner', _, rfl, hinner, hrest'⟩ := Tree.exists_of_sameAll_cons hrest
    obtain ⟨_, _, rfl, hlast, hnil⟩ := Tree.exists_of_sameAll_cons hrest'
    obtain ⟨_, _, rfl, hclose⟩ := Tree.exists_of_leaf_same hlast
    rw [Tree.eq_nil_of_sameAll hnil]
    exact ⟨inner', hinner, .intro (hopen.trans hopening) (hclose.trans hclosing)⟩

/-- A tree that is the same as a derivation tree is one. -/
theorem Derivation.of_same {rule : Nonterminal} {t u : Tree} (h : Derivation rule t) (hs : t.same u = true) :
    Derivation rule u := by
  induction t generalizing rule u with
  | leaf => cases h
  | node rule' parts span ih =>
    cases u with
    | leaf => simp [Tree.same] at hs
    | node rule'' parts' span' =>
      rw [Tree.same, Bool.and_eq_true, beq_iff_eq] at hs
      obtain ⟨rfl, hs⟩ := hs
      cases h with
      | expression hparts => exact .expression (hparts.of_sameAll (fun t ht u hd hu => ih t ht hd hu) hs)
      | term hparts => exact .term (hparts.of_sameAll (fun t ht u hd hu => ih t ht hd hu) hs)
      | name hname =>
        obtain ⟨_, _, rfl, hleaf, hnil⟩ := Tree.exists_of_sameAll_cons hs
        obtain ⟨_, _, rfl, hkind⟩ := Tree.exists_of_leaf_same hleaf
        rw [Tree.eq_nil_of_sameAll hnil]
        exact .name (hkind.trans hname)
      | access hname hinner hgroup =>
        obtain ⟨_, _, rfl, hleaf, hrest⟩ := Tree.exists_of_sameAll_cons hs
        obtain ⟨_, _, rfl, hkind⟩ := Tree.exists_of_leaf_same hleaf
        obtain ⟨_, hsame, hgroup'⟩ := hgroup.of_sameAll hrest
        exact .access (hkind.trans hname) (ih _ (List.mem_cons_of_mem _ hgroup.mem) hinner hsame) hgroup'
      | parentheses hinner hgroup =>
        obtain ⟨_, hsame, hgroup'⟩ := hgroup.of_sameAll hs
        exact .parentheses (ih _ hgroup.mem hinner hsame) hgroup'

end ArrayExpr
