import ArrayExpr.Proofs.Parser.Cases
import ArrayExpr.Proofs.Tree.Relabel

/-!
# Parsers see kinds only

The parsers look at nothing but the kinds of tokens. If a function on tokens keeps kinds, then to read the tokens that
it gives is to read the tokens themselves and to put those it gives in their places (`Parser.Natural`,
`natural_ofRule`). With the identity this says that every tree read is built by the constructors
(`mapTokens_id_of_run`).
-/

namespace ArrayExpr

/-- A fault with its token replaced. -/
def Fault.mapToken (f : Token → Token) : Fault → Fault
  | noOperand => noOperand
  | unclosed bracket opening => unclosed bracket (f opening)
  | tooDeep => tooDeep

/-- A visit with its token replaced. -/
def Visit.mapToken (f : Token → Token) (v : Visit) : Visit := { v with next := v.next.map f }

/-- An outcome with its tokens replaced, and a function for those of the result. -/
def mapOutcome (f : Token → Token) (g : α → α) : Except Fault α → Except Fault α
  | .error fault => .error (fault.mapToken f)
  | .ok a => .ok (g a)

theorem mapOutcome_map {f : Token → Token} {g : α → α} {g' : β → β} {k k' : α → β} (h : ∀ a, g' (k a) = k' (g a))
    (x : Except Fault α) : mapOutcome f g' (x.map k) = (mapOutcome f g x).map k' := by
  cases x with
  | error fault => rfl
  | ok a => exact congrArg Except.ok (h a)

/-- A run with its tokens replaced, and a function for those of the result. -/
def Run.mapTokens (f : Token → Token) (g : α → α) (r : Run α) : Run α where
  visits := r.visits.map (Visit.mapToken f)
  rest := r.rest.map f
  outcome := mapOutcome f g r.outcome

namespace Parser

variable {f : Token → Token}

/-- To read replaced tokens is to replace the tokens read. -/
def Natural (f : Token → Token) (p : Parser) : Prop :=
  ∀ ts, p.run (ts.map f) = (p.run ts).mapTokens f (Tree.mapTokens f)

section Keeping

variable (hf : ∀ t : Token, (f t).kind = t.kind)
include hf

theorem forall_head?_map {P : Kind → Prop} {ts : List Token} (h : ∀ t ∈ ts.head?, P t.kind) :
    ∀ t ∈ (ts.map f).head?, P t.kind := by
  intro t ht
  rw [List.head?_map, Option.mem_def, Option.map_eq_some_iff] at ht
  obtain ⟨u, hu, rfl⟩ := ht
  rw [hf]
  exact h u hu

theorem links_natural {rule : Nonterminal} {operand : Parser} (ho : operand.Natural f) (ts : List Token) :
    links rule operand (ts.map f) = (links rule operand ts).mapTokens f (List.map (Tree.mapTokens f)) := by
  induction hn : ts.length using Nat.strongRecOn generalizing ts with
  | _ n ih =>
    have hrun := ho ts
    rcases links_cases rule operand ts with
      ⟨fault, h, hl⟩ | ⟨tree, h, hnone, hl⟩ | ⟨tree, operator, rest, h, hrest, hfits, hl⟩
    · have hfirst : (operand.run (ts.map f)).outcome = .error (fault.mapToken f) := by
        rw [hrun, Run.mapTokens, h]
        rfl
      rw [links_error hfirst, hl, hrun]
      rfl
    · have hfirst : (operand.run (ts.map f)).outcome = .ok (tree.mapTokens f) := by
        rw [hrun, Run.mapTokens, h]
        rfl
      have hnext := forall_head?_map hf (P := (rule.joins · = false)) hnone
      rw [links_last hfirst (by rwa [hrun]), hl, hrun]
      rfl
    · have hfirst : (operand.run (ts.map f)).outcome = .ok (tree.mapTokens f) := by
        rw [hrun, Run.mapTokens, h]
        rfl
      have hnext : (operand.run (ts.map f)).rest = f operator :: rest.map f := by
        rw [hrun, Run.mapTokens, hrest]
        rfl
      have hlt : rest.length < n := by
        have hless := operand.rest_lt h
        rw [hrest, List.length_cons] at hless
        omega
      rw [links_link hfirst hnext ((hf operator).symm ▸ hfits), ih _ hlt rest rfl, hl, hrun]
      simp only [Run.mapTokens, List.map_append, Run.mk.injEq, true_and]
      refine (mapOutcome_map ?_ _).symm
      exact fun _ => rfl

theorem group_natural {bracket : Bracket} {opening : Token} {inner : Parser} (hi : inner.Natural f)
    (ts : List Token) : group bracket (f opening) inner (ts.map f) =
      (group bracket opening inner ts).mapTokens f (List.map (Tree.mapTokens f)) := by
  have hrun := hi ts
  rcases group_cases bracket opening inner ts with
    ⟨fault, h, hg⟩ | ⟨tree, closing, rest, h, hrest, hclosing, hg⟩ | ⟨tree, h, hnone, hg⟩
  · have hinner : (inner.run (ts.map f)).outcome = .error (fault.mapToken f) := by
      rw [hrun, Run.mapTokens, h]
      rfl
    rw [group_error hinner, hg, hrun]
    rfl
  · have hinner : (inner.run (ts.map f)).outcome = .ok (tree.mapTokens f) := by
      rw [hrun, Run.mapTokens, h]
      rfl
    have hnext : (inner.run (ts.map f)).rest = f closing :: rest.map f := by
      rw [hrun, Run.mapTokens, hrest]
      rfl
    rw [group_closed hinner hnext ((hf closing).trans hclosing), hg, hrun]
    rfl
  · have hinner : (inner.run (ts.map f)).outcome = .ok (tree.mapTokens f) := by
      rw [hrun, Run.mapTokens, h]
      rfl
    have hnext := forall_head?_map hf (P := (· ≠ bracket.closing)) hnone
    rw [group_unclosed hinner (by rwa [hrun]), hg, hrun]
    rfl

theorem factorParts_natural {inner : Parser} (hi : inner.Natural f) (ts : List Token) :
    factorParts inner (ts.map f) = (factorParts inner ts).mapTokens f (List.map (Tree.mapTokens f)) := by
  rcases factorParts_cases inner ts with
    ⟨name, rest, rfl, hname, hrest, h⟩ | ⟨name, opening, rest, rfl, hname, hopening, h⟩ |
      ⟨opening, rest, rfl, hopening, h⟩ | ⟨hnone, h⟩
  · have hnext := forall_head?_map hf (P := (· ≠ .openSquare)) hrest
    rw [List.map_cons, factorParts_name ((hf name).trans hname) hnext, h]
    rfl
  · rw [List.map_cons, List.map_cons, factorParts_access ((hf name).trans hname) ((hf opening).trans hopening),
      group_natural hf hi, h]
    simp only [Run.mapTokens, Run.map, Run.mk.injEq, true_and]
    refine (mapOutcome_map ?_ _).symm
    exact fun _ => rfl
  · rw [List.map_cons, factorParts_parentheses ((hf opening).trans hopening), group_natural hf hi, h]
  · have hnext := forall_head?_map hf (P := fun kind => kind ≠ .identifier ∧ kind ≠ .openRound) hnone
    rw [factorParts_noOperand hnext, h]
    rfl

omit hf in
theorem enter_natural {rule : Nonterminal} {ts : List Token} {r r' : Run (List Tree)}
    (h : r' = r.mapTokens f (List.map (Tree.mapTokens f))) :
    r'.enter rule (ts.map f) = (r.enter rule ts).mapTokens f (Tree.mapTokens f) := by
  rw [h]
  simp only [Run.enter, Run.mapTokens, List.map_cons, Visit.mapToken, List.head?_map, Run.mk.injEq, true_and]
  exact (mapOutcome_map (fun parts => Tree.mapTokens_branch f rule parts) _).symm

theorem natural_factor {inner : Parser} (hi : inner.Natural f) : (factor inner).Natural f :=
  fun ts => enter_natural (factorParts_natural hf hi ts)

theorem natural_chain {rule : Nonterminal} {operand : Parser} (ho : operand.Natural f) :
    (chain rule operand).Natural f :=
  fun ts => enter_natural (links_natural hf ho ts)

theorem natural_nested : ∀ limit : Nat, (nested limit).Natural f
  | 0 => fun _ => rfl
  | limit + 1 => natural_chain hf (natural_chain hf (natural_factor hf (natural_nested limit)))

/-- **Parsers see kinds only**: a function that keeps them may be applied before or after reading. -/
theorem natural_ofRule (limit : Nat) : ∀ rule : Nonterminal, (ofRule limit rule).Natural f
  | .expression => natural_nested hf (limit + 1)
  | .term => natural_chain hf (natural_factor hf (natural_nested hf limit))
  | .factor => natural_factor hf (natural_nested hf limit)

end Keeping

/-- Every tree that is read is built by the constructors over its tokens. -/
theorem mapTokens_id_of_run {limit : Nat} {rule : Nonterminal} {ts : List Token} {t : Tree}
    (h : ((ofRule limit rule).run ts).outcome = .ok t) : t.mapTokens id = t := by
  have hrun := natural_ofRule (f := id) (fun _ => rfl) limit rule ts
  rw [List.map_id] at hrun
  have houtcome := congrArg Run.outcome hrun
  rw [Run.mapTokens, h] at houtcome
  exact (Except.ok.inj houtcome).symm

end Parser

end ArrayExpr
