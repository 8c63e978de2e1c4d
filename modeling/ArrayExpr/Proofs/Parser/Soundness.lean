import ArrayExpr.Proofs.Grammar.Nesting
import ArrayExpr.Proofs.Parser.Cases

/-!
# What the parsers read is derived

A parser is sound for a rule if every tree that it reads is a derivation tree of the rule over exactly the tokens that
it passes, and if fewer groups than a limit are open at once in it (`Parser.Sound`). Each way to build a parser keeps
this, and the parsers for what stands between brackets count the groups (`sound_nested`).
-/

namespace ArrayExpr

open Token

namespace Parser

/-- What the parser reads is derived by the rule from the tokens passed, with fewer open groups than the limit. -/
def Sound (p : Parser) (rule : Nonterminal) (limit : Nat) : Prop :=
  ∀ {ts t}, (p.run ts).outcome = .ok t →
    Derivation rule t ∧ t.leaves ++ (p.run ts).rest = ts ∧ nesting t.leaves < limit

variable {inner : Parser} {limit : Nat}

/-- Operands and operators of sound operands are an alternation over the tokens passed. -/
theorem links_sound {rule operandRule : Nonterminal} {operand : Parser} (ho : operand.Sound operandRule limit)
    {ts : List Token} {parts : List Tree} (h : (links rule operand ts).outcome = .ok parts) :
    Alternation (Derivation operandRule) rule.operators parts ∧
      parts.flatMap Tree.leaves ++ (links rule operand ts).rest = ts ∧ nesting (parts.flatMap Tree.leaves) < limit := by
  fun_induction links rule operand ts generalizing parts with
  | case1 => cases h
  | case2 ts first tree hfirst =>
    cases h
    obtain ⟨hd, hts, hlt⟩ := ho hfirst
    rw [List.flatMap_singleton]
    exact ⟨.last hd, hts, hlt⟩
  | case3 ts first tree hfirst operator rest htake others =>
    rename_i ih
    obtain ⟨hrest, hfits⟩ := takeIf_eq_some.mp htake
    obtain ⟨otherParts, hothers, rfl⟩ := exists_of_map_eq_ok h
    obtain ⟨hd, hts, hlt⟩ := ho hfirst
    obtain ⟨halt, hrests, hlts⟩ := ih hothers
    have hop : operator.kind ∈ rule.operators := (rule.joins_iff _).mp hfits
    refine ⟨.link hd hop halt, ?_, ?_⟩
    · rw [List.flatMap_cons, List.flatMap_cons, Tree.leaves_literal, List.append_assoc, List.append_assoc, hrests,
        List.singleton_append, ← hrest]
      exact hts
    · rw [List.flatMap_cons, List.flatMap_cons, Tree.leaves_literal, hd.balanced.nesting_append,
        List.singleton_append, (isFlat_of_operator hop).nesting_cons]
      exact Nat.max_lt.mpr ⟨hlt, hlts⟩

/-- The group of a sound parser encloses a derivation tree, one group deeper. -/
theorem group_sound (hi : inner.Sound .expression limit) {bracket : Bracket} {opening : Token}
    (hopening : opening.kind = bracket.opening) {ts : List Token} {parts : List Tree}
    (h : (group bracket opening inner ts).outcome = .ok parts) :
    ∃ tree, Derivation .expression tree ∧ Enclosed bracket tree parts ∧
      parts.flatMap Tree.leaves ++ (group bracket opening inner ts).rest = opening :: ts ∧
      nesting (parts.flatMap Tree.leaves) < limit + 1 := by
  rcases group_cases bracket opening inner ts with
    ⟨_, _, hg⟩ | ⟨tree, closing, rest, hok, hrest, hclosing, hg⟩ | ⟨_, _, _, hg⟩
  · rw [hg] at h
    cases h
  · rw [hg] at h ⊢
    cases h
    obtain ⟨hd, hts, hlt⟩ := hi hok
    have henclosed : Enclosed bracket tree [.literal opening, tree, .literal closing] := .intro hopening hclosing
    refine ⟨tree, hd, henclosed, ?_, ?_⟩
    · rw [← hts, hrest]
      simp [Tree.literal, Tree.ofToken]
    · rw [(henclosed.balanced hd.balanced).2]
      exact Nat.succ_lt_succ hlt
  · rw [hg] at h
    cases h

/-- What stands below a factor, if what stands between brackets is sound. -/
theorem factorParts_sound (hi : inner.Sound .expression limit) {ts : List Token} {parts : List Tree}
    (h : (factorParts inner ts).outcome = .ok parts) :
    (∀ span, Derivation .factor (.node .factor parts span)) ∧
      parts.flatMap Tree.leaves ++ (factorParts inner ts).rest = ts ∧
      nesting (parts.flatMap Tree.leaves) < limit + 1 := by
  rcases factorParts_cases inner ts with
    ⟨name, rest, rfl, hname, _, hf⟩ | ⟨name, opening, rest, rfl, hname, hopening, hf⟩ |
      ⟨opening, rest, rfl, hopening, hf⟩ | ⟨_, hf⟩
  · rw [hf] at h ⊢
    cases h
    refine ⟨fun span => .name hname, by simp, ?_⟩
    rw [List.flatMap_singleton, Tree.leaves_identifier, (isFlat_of_name hname).nesting_cons]
    exact Nat.succ_pos limit
  · rw [hf] at h ⊢
    obtain ⟨groupParts, hgroup, rfl⟩ := exists_of_map_eq_ok h
    obtain ⟨tree, hd, henclosed, hts, hlt⟩ := group_sound hi hopening hgroup
    refine ⟨fun span => .access hname hd henclosed, ?_, ?_⟩
    · rw [List.flatMap_cons, Tree.leaves_identifier, List.singleton_append, List.cons_append]
      exact congrArg (name :: ·) hts
    · rw [List.flatMap_cons, Tree.leaves_identifier, List.singleton_append, (isFlat_of_name hname).nesting_cons]
      exact hlt
  · rw [hf] at h ⊢
    obtain ⟨tree, hd, henclosed, hts, hlt⟩ := group_sound hi hopening h
    exact ⟨fun span => .parentheses hd henclosed, hts, hlt⟩
  · rw [hf] at h
    cases h

/-! ## The rules -/

theorem sound_factor (hi : inner.Sound .expression limit) : (factor inner).Sound .factor (limit + 1) := by
  intro ts t h
  obtain ⟨parts, hparts, rfl⟩ := exists_of_map_eq_ok h
  obtain ⟨hd, hts, hlt⟩ := factorParts_sound hi hparts
  rw [Tree.branch, Tree.leaves_node]
  exact ⟨hd _, hts, hlt⟩

theorem sound_term (hi : inner.Sound .expression limit) : (term inner).Sound .term (limit + 1) := by
  intro ts t h
  obtain ⟨parts, hparts, rfl⟩ := exists_of_map_eq_ok h
  obtain ⟨halt, hts, hlt⟩ := links_sound (sound_factor hi) hparts
  rw [Tree.branch, Tree.leaves_node]
  exact ⟨.term halt, hts, hlt⟩

theorem sound_expression (hi : inner.Sound .expression limit) :
    (expression inner).Sound .expression (limit + 1) := by
  intro ts t h
  obtain ⟨parts, hparts, rfl⟩ := exists_of_map_eq_ok h
  obtain ⟨halt, hts, hlt⟩ := links_sound (sound_term hi) hparts
  rw [Tree.branch, Tree.leaves_node]
  exact ⟨.expression halt, hts, hlt⟩

/-- What is read between brackets is an expression with fewer open groups than may be open. -/
theorem sound_nested : ∀ limit : Nat, (nested limit).Sound .expression limit
  | 0 => fun h => nomatch h
  | limit + 1 => sound_expression (sound_nested limit)

/-- **Soundness**: what is read by a rule is a derivation tree of the rule over the tokens passed, and no more groups
are open at once in it than may be. -/
theorem sound_ofRule (limit : Nat) : ∀ rule : Nonterminal, (ofRule limit rule).Sound rule (limit + 1)
  | .expression => sound_expression (sound_nested limit)
  | .term => sound_term (sound_nested limit)
  | .factor => sound_factor (sound_nested limit)

end Parser

end ArrayExpr
