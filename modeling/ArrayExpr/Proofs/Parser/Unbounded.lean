import ArrayExpr.Proofs.Parser.Soundness

/-!
# Parsing without a limit

The limit on open groups is there because the rules call each other for what stands between brackets. Since every group
takes a token, no more groups can be opened than there are tokens, and a parser with a larger limit does not notice it
(`agreeBelow_nested`). So there is a parser without any limit, `Parser.unbounded`: it is the rule of expressions over
itself (`expression_unbounded`), and the only such parser (`eq_unbounded`).
-/

namespace ArrayExpr

namespace Parser

theorem ext_run {p q : Parser} (h : ∀ ts, p.run ts = q.run ts) : p = q := by
  obtain ⟨run, _, _⟩ := p
  obtain ⟨run', _, _⟩ := q
  cases (funext h : run = run')
  rfl

/-- Reads by a rule, over a parser for what stands between brackets. -/
def byRule (inner : Parser) : Nonterminal → Parser
  | .expression => expression inner
  | .term => term inner
  | .factor => factor inner

theorem ofRule_eq_byRule (limit : Nat) (rule : Nonterminal) : ofRule limit rule = byRule (nested limit) rule := by
  cases rule <;> rfl

/-! ## Agreement on short lists -/

/-- The parsers do the same on fewer tokens than this. -/
def AgreeBelow (n : Nat) (p q : Parser) : Prop := ∀ ts, ts.length < n → p.run ts = q.run ts

section Agreement

variable {n : Nat} {p q : Parser}

theorem group_congr {ts : List Token} (h : p.run ts = q.run ts) (bracket : Bracket) (opening : Token) :
    group bracket opening p ts = group bracket opening q ts := by
  rw [group, group, h]

/-- Operands that agree on short lists make chains that do. By induction on the length, since a chain goes on with
fewer tokens. -/
theorem AgreeBelow.links (h : AgreeBelow n p q) (rule : Nonterminal) (ts : List Token) (hlt : ts.length < n) :
    links rule p ts = links rule q ts := by
  induction hlength : ts.length using Nat.strongRecOn generalizing ts with
  | _ length ih =>
    have hrun := h ts hlt
    rcases links_cases rule q ts with
      ⟨fault, hq, hlinks⟩ | ⟨tree, hq, hnone, hlinks⟩ | ⟨tree, operator, rest, hq, hrest, hfits, hlinks⟩
    · rw [hlinks, links_error (hrun ▸ hq), hrun]
    · rw [hlinks, links_last (hrun ▸ hq) (hrun ▸ hnone), hrun]
    · have hshorter : rest.length < ts.length := q.lt_of_link hq (takeIf_eq_some.mpr ⟨hrest, hfits⟩)
      rw [hlinks, links_link (hrun ▸ hq) (hrun ▸ hrest) hfits, hrun,
        ih rest.length (hlength ▸ hshorter) rest (Nat.lt_trans hshorter hlt) rfl]

/-- What stands between brackets is read of fewer tokens than the factor. -/
theorem AgreeBelow.factorParts (h : AgreeBelow n p q) (ts : List Token) (hlt : ts.length < n + 1) :
    factorParts p ts = factorParts q ts := by
  rcases factorParts_cases q ts with
    ⟨name, rest, rfl, hname, hrest, hf⟩ | ⟨name, opening, rest, rfl, hname, hopening, hf⟩ |
      ⟨opening, rest, rfl, hopening, hf⟩ | ⟨hnone, hf⟩
  · rw [hf, factorParts_name hname hrest]
  · have hrest : rest.length < n := by
      rw [List.length_cons, List.length_cons] at hlt
      omega
    rw [hf, factorParts_access hname hopening, group_congr (h rest hrest)]
  · have hrest : rest.length < n := Nat.lt_of_succ_lt_succ hlt
    rw [hf, factorParts_parentheses hopening, group_congr (h rest hrest)]
  · rw [hf, factorParts_noOperand hnone]

theorem AgreeBelow.chain (h : AgreeBelow n p q) (rule : Nonterminal) : AgreeBelow n (chain rule p) (chain rule q) :=
  fun ts hlt => congrArg (Run.enter rule ts) (h.links rule ts hlt)

theorem AgreeBelow.factor (h : AgreeBelow n p q) : AgreeBelow (n + 1) (factor p) (factor q) :=
  fun ts hlt => congrArg (Run.enter .factor ts) (h.factorParts ts hlt)

/-- One token more: rules over parsers that agree on short lists agree on lists that are longer by one token. -/
theorem AgreeBelow.byRule (h : AgreeBelow n p q) (rule : Nonterminal) :
    AgreeBelow (n + 1) (byRule p rule) (byRule q rule) := by
  cases rule with
  | expression => exact (h.factor.chain .term).chain .expression
  | term => exact h.factor.chain .term
  | factor => exact h.factor

end Agreement

/-- More groups than tokens cannot be opened, so a larger limit changes nothing. -/
theorem agreeBelow_nested {n m : Nat} (h : n ≤ m) : AgreeBelow n (nested n) (nested m) := by
  induction n generalizing m with
  | zero => exact fun ts hlt => absurd hlt (Nat.not_lt_zero _)
  | succ n ih =>
    obtain ⟨m, rfl⟩ : ∃ m', m = m' + 1 := ⟨m - 1, by omega⟩
    exact (ih (Nat.le_of_succ_le_succ h)).byRule .expression

/-! ## No limit -/

/-- Reads what stands between brackets, however many groups are open. -/
def unbounded : Parser where
  run ts := (nested (ts.length + 1)).run ts
  rest_suffix ts := (nested (ts.length + 1)).rest_suffix ts
  rest_lt {ts _} h := (nested (ts.length + 1)).rest_lt h

theorem agreeBelow_unbounded (limit : Nat) : AgreeBelow limit (nested limit) unbounded :=
  fun ts hlt => (agreeBelow_nested (Nat.succ_le_of_lt hlt) ts (Nat.lt_succ_self _)).symm

/-- **Without a limit, the rule of expressions is read over itself.** -/
theorem expression_unbounded : expression unbounded = unbounded :=
  ext_run fun ts => ((agreeBelow_unbounded ts.length).byRule .expression ts (Nat.lt_succ_self _)).symm

/-- There is no other parser of this kind. -/
theorem eq_unbounded {p : Parser} (h : expression p = p) : p = unbounded := by
  have hagree : ∀ n, AgreeBelow n p unbounded := by
    intro n
    induction n with
    | zero => exact fun ts hlt => absurd hlt (Nat.not_lt_zero _)
    | succ n ih =>
      have hnext := ih.byRule .expression
      rwa [byRule, byRule, h, expression_unbounded] at hnext
  exact ext_run fun ts => hagree (ts.length + 1) ts (Nat.lt_succ_self _)

end Parser

end ArrayExpr
