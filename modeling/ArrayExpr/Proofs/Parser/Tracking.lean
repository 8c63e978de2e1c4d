import ArrayExpr.Proofs.Grammar.Frontier
import ArrayExpr.Proofs.Parser.Completeness

/-!
# Parsers follow the frontier

A parser keeps the open groups on its call stack, and the frontier keeps them in a list. The two agree: what a parser
passes leads to a frontier in which the groups are those that were open before, if a tree was read, and otherwise the
one that the fault speaks of (`Run.Follows`). A fault arises at the first token that cannot follow (`Fault.Stops`),
and a rule ends where no token follows with which it could go on.
-/

namespace ArrayExpr

open Token Frontier

/-- Behind this edge a tree of the rule does not go on with these tokens. A closed group goes on with no square bracket,
although a name does. -/
def Nonterminal.StopsBehind (rule : Nonterminal) (edge : Edge) (rest : List Token) : Prop :=
  ∀ t ∈ rest.head?, t.kind ∈ rule.goesOn → edge = .group ∧ t.kind = .openSquare

/-- Where a fault arises: at a frontier, before the tokens left. The number of groups that may be open is given. -/
inductive Fault.Stops (deepest : Nat) (rest : List Token) : Frontier → Fault → Prop
  | noOperand {groups : List OpenGroup} : (∀ t ∈ rest.head?, t.kind ≠ .identifier ∧ t.kind ≠ .openRound) →
      Stops deepest rest (within groups .gap) .noOperand
  | unclosed {group : OpenGroup} {outer : List OpenGroup} {edge : Edge} : edge.isOperand = true →
      Nonterminal.expression.StopsBehind edge rest → (∀ t ∈ rest.head?, t.kind ≠ group.bracket.closing) →
      Stops deepest rest (within (group :: outer) edge) (.unclosed group.bracket group.opening)
  | tooDeep {groups : List OpenGroup} : groups.length = deepest → Stops deepest rest (within groups .gap) .tooDeep

/-- The run goes along with the frontier: what it passes leads from a frontier to one where these groups are open
and the rule ends, or to one where its fault arises. -/
def Run.Follows (r : Run α) (rule : Nonterminal) (deepest : Nat) (groups : List OpenGroup) (before : Frontier)
    (ts : List Token) : Prop :=
  ∃ front behind, ts = front ++ r.rest ∧ before.reach front = some behind ∧
    (∀ a, r.outcome = .ok a → ∃ edge, behind = within groups edge ∧ edge.isOperand = true ∧
      rule.StopsBehind edge r.rest) ∧
    ∀ fault, r.outcome = .error fault → fault.Stops deepest r.rest behind

namespace Run

variable {rule rule' : Nonterminal} {deepest : Nat} {groups groups' : List OpenGroup} {before f : Frontier}
  {ts : List Token}

/-- A run that fails at once. -/
theorem Follows.of_stops {r : Run α} {fault : Fault} (front : List Token) (hts : ts = front ++ r.rest)
    (hreach : before.reach front = some f) (h : r.outcome = .error fault) (hstops : fault.Stops deepest r.rest f) :
    r.Follows rule deepest groups before ts := by
  refine ⟨front, f, hts, hreach, fun a ha => ?_, fun fault' hfault => ?_⟩
  · rw [h] at ha
    cases ha
  · rw [h] at hfault
    cases hfault
    exact hstops

theorem Follows.of_ok {r : Run α} {a : α} (front : List Token) (edge : Edge) (hts : ts = front ++ r.rest)
    (hreach : before.reach front = some (within groups edge)) (h : r.outcome = .ok a) (hedge : edge.isOperand = true)
    (hstops : rule.StopsBehind edge r.rest) : r.Follows rule deepest groups before ts := by
  refine ⟨front, _, hts, hreach, fun _ _ => ⟨edge, rfl, hedge, hstops⟩, fun fault hfault => ?_⟩
  rw [h] at hfault
  cases hfault

theorem Follows.of_reach {r : Run α} {front : List Token} (h : r.Follows rule deepest groups f ts)
    (hreach : before.reach front = some f) : r.Follows rule deepest groups before (front ++ ts) := by
  obtain ⟨passed, behind, rfl, hpassed, hok, herror⟩ := h
  refine ⟨front ++ passed, behind, (List.append_assoc ..).symm, ?_, hok, herror⟩
  rw [reach_append_of_eq hreach, hpassed]

/-- A run whose result is changed follows as before. -/
theorem Follows.map {r : Run α} (h : r.Follows rule deepest groups before ts) {r' : Run β} {k : α → β}
    (hrest : r'.rest = r.rest) (houtcome : r'.outcome = r.outcome.map k) :
    r'.Follows rule deepest groups before ts := by
  obtain ⟨front, behind, hts, hreach, hok, herror⟩ := h
  rw [← hrest] at hts hok herror
  cases h : r.outcome with
  | error fault => exact .of_stops front hts hreach (by rw [houtcome, h]; rfl) (herror fault h)
  | ok a =>
    obtain ⟨edge, rfl, hedge, hstops⟩ := hok a h
    exact .of_ok front edge hts hreach (by rw [houtcome, h]; rfl) hedge hstops

end Run

namespace Parser

/-- The parser follows the frontier wherever an operand may stand, and opens at most so many groups. -/
def Tracks (p : Parser) (rule : Nonterminal) (limit : Nat) : Prop :=
  ∀ groups ts, (p.run ts).Follows rule (groups.length + limit) groups (within groups .gap) ts

variable {inner operand : Parser} {rule operandRule : Nonterminal} {limit : Nat}

theorem isOperator_of_joins {rule : Nonterminal} {kind : Kind} (h : rule.joins kind = true) :
    kind.isOperator = true := by
  cases rule <;> cases kind <;> first | rfl | cases h

/-- A chain follows the frontier from operand to operand. -/
theorem links_follows (ho : operand.Tracks operandRule limit)
    (hgoes : ∀ kind ∈ rule.goesOn, kind ∈ operandRule.goesOn ∨ kind ∈ rule.operators) (groups : List OpenGroup)
    (ts : List Token) :
    (links rule operand ts).Follows rule (groups.length + limit) groups (within groups .gap) ts := by
  fun_induction links rule operand ts with
  | case1 ts first fault h =>
    obtain ⟨front, behind, hts, hreach, _, herror⟩ := ho groups ts
    exact .of_stops front hts hreach rfl (herror fault h)
  | case2 ts first tree h hnone =>
    obtain ⟨front, behind, hts, hreach, hok, _⟩ := ho groups ts
    obtain ⟨edge, rfl, hedge, hstops⟩ := hok tree h
    refine .of_ok front edge hts hreach rfl hedge fun t ht hkind => ?_
    have hjoins := takeIf_eq_none.mp hnone t ht
    rcases hgoes _ hkind with hkind | hkind
    · exact hstops t ht hkind
    · rw [(rule.joins_iff _).mpr hkind] at hjoins
      cases hjoins
  | case3 ts first tree h operator rest htake others ih =>
    obtain ⟨front, behind, hts, hreach, hok, _⟩ := ho groups ts
    obtain ⟨edge, rfl, hedge, _⟩ := hok tree h
    obtain ⟨hrest, hfits⟩ := takeIf_eq_some.mp htake
    have hstep : Step (within groups edge) operator (within groups .gap) :=
      .operator hedge (isOperator_of_joins hfits)
    have hfront : (within groups .gap).reach (front ++ [operator]) = some (within groups .gap) := by
      rw [reach_append_of_eq hreach, hstep.reach_cons]
      rfl
    have hsplit : ts = (front ++ [operator]) ++ rest := by
      rw [List.append_assoc, List.singleton_append, ← hrest]
      exact hts
    have hall := ih.of_reach hfront
    rw [← hsplit] at hall
    exact hall.map rfl rfl

/-- A group follows the frontier from behind its opening bracket. -/
theorem group_follows (hi : inner.Tracks .expression limit) (group : OpenGroup) (groups : List OpenGroup)
    (ts : List Token) : (Parser.group group.bracket group.opening inner ts).Follows .factor
      (groups.length + (limit + 1)) groups (within (group :: groups) .gap) ts := by
  obtain ⟨front, behind, hts, hreach, hok, herror⟩ := hi (group :: groups) ts
  have hdeepest : (group :: groups).length + limit = groups.length + (limit + 1) := by
    rw [List.length_cons]
    omega
  rw [hdeepest] at herror
  rcases group_cases group.bracket group.opening inner ts with
    ⟨fault, h, hg⟩ | ⟨tree, closing, rest, h, hrest, hclosing, hg⟩ | ⟨tree, h, hnone, hg⟩
  · rw [hg]
    exact .of_stops front hts hreach rfl (herror fault h)
  · rw [hg]
    obtain ⟨edge, rfl, hedge, _⟩ := hok tree h
    have hstep : Step (within (group :: groups) edge) closing (within groups .group) := .closing hedge hclosing
    refine .of_ok (front ++ [closing]) .group ?_ ?_ rfl rfl ?_
    · rw [hts, hrest]
      simp
    · rw [reach_append_of_eq hreach, hstep.reach_cons]
      rfl
    · exact fun t _ hkind => ⟨rfl, List.mem_singleton.mp hkind⟩
  · rw [hg]
    obtain ⟨edge, rfl, hedge, hstops⟩ := hok tree h
    exact .of_stops front hts hreach rfl (.unclosed hedge hstops hnone)

/-- A factor follows the frontier. -/
theorem factorParts_follows (hi : inner.Tracks .expression limit) (groups : List OpenGroup) (ts : List Token) :
    (factorParts inner ts).Follows .factor (groups.length + (limit + 1)) groups (within groups .gap) ts := by
  rcases factorParts_cases inner ts with
    ⟨name, rest, rfl, hname, hrest, hf⟩ | ⟨name, opening, rest, rfl, hname, hopening, hf⟩ |
      ⟨opening, rest, rfl, hopening, hf⟩ | ⟨hnone, hf⟩
  · have hstep : Step (within groups .gap) name (within groups .name) := .name hname
    rw [hf]
    refine .of_ok [name] .name rfl (hstep.reach_cons []) rfl rfl fun t ht hkind => ?_
    exact absurd (List.mem_singleton.mp hkind) (hrest t ht)
  · have hstep : Step (within groups .gap) name (within groups .name) := .name hname
    have hstep' : Step (within groups .name) opening (within (⟨.square, opening, hopening⟩ :: groups) .gap) :=
      .access hopening
    have hfront : (within groups .gap).reach [name, opening] =
        some (within (⟨.square, opening, hopening⟩ :: groups) .gap) := by
      rw [hstep.reach_cons, hstep'.reach_cons]
      rfl
    rw [hf]
    exact ((group_follows hi ⟨.square, opening, hopening⟩ groups rest).of_reach hfront).map rfl rfl
  · have hstep : Step (within groups .gap) opening (within (⟨.round, opening, hopening⟩ :: groups) .gap) :=
      .parenthesis hopening
    rw [hf]
    have hfront : (within groups .gap).reach [opening] = some (within (⟨.round, opening, hopening⟩ :: groups) .gap) :=
      hstep.reach_cons []
    exact (group_follows hi ⟨.round, opening, hopening⟩ groups rest).of_reach hfront
  · rw [hf]
    exact .of_stops [] rfl rfl rfl (.noOperand hnone)

/-! ## The rules -/

theorem tracks_factor (hi : inner.Tracks .expression limit) : (factor inner).Tracks .factor (limit + 1) :=
  fun groups ts => (factorParts_follows hi groups ts).map rfl rfl

theorem tracks_term (hi : inner.Tracks .expression limit) : (term inner).Tracks .term (limit + 1) :=
  fun groups ts => (links_follows (tracks_factor hi) (by decide) groups ts).map rfl rfl

theorem tracks_expression (hi : inner.Tracks .expression limit) :
    (expression inner).Tracks .expression (limit + 1) :=
  fun groups ts => (links_follows (tracks_term hi) (by decide) groups ts).map rfl rfl

/-- What stands between brackets is read along the frontier. -/
theorem tracks_nested : ∀ limit : Nat, (nested limit).Tracks .expression limit
  | 0 => fun _ _ => .of_stops [] rfl rfl rfl (.tooDeep rfl)
  | limit + 1 => tracks_expression (tracks_nested limit)

/-- **Parsers follow the frontier.** -/
theorem tracks_ofRule (limit : Nat) : ∀ rule : Nonterminal, (ofRule limit rule).Tracks rule (limit + 1)
  | .expression => tracks_expression (tracks_nested limit)
  | .term => tracks_term (tracks_nested limit)
  | .factor => tracks_factor (tracks_nested limit)

end Parser

end ArrayExpr
