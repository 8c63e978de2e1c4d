import ArrayExpr.Proofs.Parser.Rejection
import ArrayExpr.Proofs.Parser.Unbounded

/-!
# What the limit does

Beside a parser with a limit the same parser without one is read (`Run.Bounded`): as long as the unbounded parser has
fewer groups open at once than the limit, the two do the same, and otherwise the first one gives up. Each construct
keeps this, and a group takes one off the limit (`group_bounded`, `bounded_nested`).
-/

namespace ArrayExpr

open Token

/-- The tokens passed by an unbounded run open groups and close some of these. A bounded run does the same as it, if
fewer of them are open at once than the limit, and otherwise breaks off. -/
def Run.Bounded (bounded unbounded : Run α) (limit : Nat) (ts : List Token) : Prop :=
  ∃ front, ts = front ++ unbounded.rest ∧ Rising front ∧
    (bounded = unbounded ∧ unbounded.outcome ≠ .error .tooDeep ∧ nesting front < limit ∨
      bounded.outcome = .error .tooDeep ∧ limit ≤ nesting front)

namespace Run

variable {r s : Run α} {limit : Nat} {ts passed : List Token}

theorem Bounded.map {r' s' : Run β} (h : r.Bounded s limit ts) (hsame : r = s → r' = s') (hrest : s'.rest = s.rest)
    (hbounded : r.outcome = .error .tooDeep → r'.outcome = .error .tooDeep)
    (hunbounded : s'.outcome = .error .tooDeep → s.outcome = .error .tooDeep) : r'.Bounded s' limit ts := by
  obtain ⟨front, hts, hrising, ⟨heq, hne, hlt⟩ | ⟨hdeep, hle⟩⟩ := h
  · exact ⟨front, hrest ▸ hts, hrising, Or.inl ⟨hsame heq, mt hunbounded hne, hlt⟩⟩
  · exact ⟨front, hrest ▸ hts, hrising, Or.inr ⟨hbounded hdeep, hle⟩⟩

/-- Balanced tokens may be passed before. -/
theorem Bounded.prepend (h : r.Bounded s limit ts) (hbalanced : Balanced passed) (hpassed : nesting passed < limit) :
    r.Bounded s limit (passed ++ ts) := by
  obtain ⟨front, rfl, hrising, hcase⟩ := h
  refine ⟨passed ++ front, (List.append_assoc ..).symm, hbalanced.append_rising hrising, ?_⟩
  rw [hbalanced.nesting_append]
  rcases hcase with ⟨heq, hne, hlt⟩ | ⟨hdeep, hle⟩
  · exact Or.inl ⟨heq, hne, Nat.max_lt.mpr ⟨hpassed, hlt⟩⟩
  · exact Or.inr ⟨hdeep, Nat.le_trans hle (Nat.le_max_right _ _)⟩

end Run

theorem map_eq_error_iff {x : Except Fault α} {f : α → β} {fault : Fault} :
    x.map f = .error fault ↔ x = .error fault := by
  cases x with
  | error => simp [Except.map]
  | ok => simp [Except.map]

namespace Parser

/-- A parser with a limit, and the same one without. -/
def Bounded (p q : Parser) (limit : Nat) : Prop := ∀ ts, (p.run ts).Bounded (q.run ts) limit ts

/-- The tokens of a tree close the groups that they open. -/
def Closes (p : Parser) : Prop :=
  ∀ {ts front t}, (p.run ts).outcome = .ok t → ts = front ++ (p.run ts).rest → Balanced front

theorem Sound.closes {p : Parser} {rule : Nonterminal} {limit : Nat} (h : p.Sound rule limit) : p.Closes := by
  intro ts front t hok hfront
  obtain ⟨hd, hleaves, _⟩ := h hok
  rw [← List.append_cancel_right (hleaves.trans hfront)]
  exact hd.balanced

theorem closes_byRule_nested (limit : Nat) (rule : Nonterminal) : (byRule (nested limit) rule).Closes :=
  ofRule_eq_byRule limit rule ▸ Sound.closes (sound_ofRule limit rule)

theorem closes_byRule_unbounded (rule : Nonterminal) : (byRule unbounded rule).Closes := by
  intro ts front t hok hfront
  have hrun := (agreeBelow_unbounded ts.length).byRule rule ts (Nat.lt_succ_self _)
  rw [← hrun] at hok hfront
  exact closes_byRule_nested ts.length rule hok hfront

section Constructs

variable {p q : Parser} {limit : Nat}

/-- A group takes one off the limit. -/
theorem group_bounded {ts : List Token} (h : (p.run ts).Bounded (q.run ts) limit ts) (hq : q.Closes)
    {bracket : Bracket} {opening : Token} (hopening : opening.kind = bracket.opening) :
    (group bracket opening p ts).Bounded (group bracket opening q ts) (limit + 1) (opening :: ts) := by
  obtain ⟨front, hts, hrising, hcase⟩ := h
  have ho := openBehind_opening hopening
  obtain ⟨hrising', hnesting⟩ := hrising.cons_opening ho
  -- what the unbounded parser passes, and that it breaks off only with what stands inside
  have hpassed : ∃ passed, opening :: ts = passed ++ (group bracket opening q ts).rest ∧ Rising passed ∧
      nesting passed = nesting front + 1 ∧ ((q.run ts).outcome ≠ .error .tooDeep →
        (group bracket opening q ts).outcome ≠ .error .tooDeep) := by
    rcases group_cases bracket opening q ts with
      ⟨fault, hfault, hg⟩ | ⟨tree, closing, rest, hok, hrest, hclosing, hg⟩ | ⟨tree, hok, hnone, hg⟩
    · rw [hg]
      exact ⟨opening :: front, congrArg (opening :: ·) hts, hrising', hnesting,
        fun hne h => hne (hfault.trans (congrArg Except.error (Except.error.inj h)))⟩
    · have hbalanced := hq hok hts
      have hc := openBehind_closing hclosing
      rw [hg]
      refine ⟨opening :: (front ++ [closing]), ?_, (hbalanced.group ho hc).rising, hbalanced.nesting_group ho hc,
        fun _ h => nomatch h⟩
      rw [hrest] at hts
      simp [hts]
    · rw [hg]
      exact ⟨opening :: front, congrArg (opening :: ·) hts, hrising', hnesting, fun _ h => nomatch h⟩
  obtain ⟨passed, hsplit, hpassed, hdeeper, hinner⟩ := hpassed
  rcases hcase with ⟨heq, hne, hlt⟩ | ⟨hdeep, hle⟩
  · exact ⟨passed, hsplit, hpassed, Or.inl ⟨group_congr heq .., hinner hne, by omega⟩⟩
  · refine ⟨passed, hsplit, hpassed, Or.inr ⟨?_, by omega⟩⟩
    rw [group_error hdeep]

/-- A factor takes one off the limit, since a group in it does. -/
theorem factorParts_bounded (h : p.Bounded q limit) (hq : q.Closes) (ts : List Token) :
    (factorParts p ts).Bounded (factorParts q ts) (limit + 1) ts := by
  rcases factorParts_cases q ts with
    ⟨name, rest, rfl, hname, hrest, hf⟩ | ⟨name, opening, rest, rfl, hname, hopening, hf⟩ |
      ⟨opening, rest, rfl, hopening, hf⟩ | ⟨hnone, hf⟩
  · have hbalanced : Balanced [name] := balanced_nil.cons (isFlat_of_name hname)
    rw [hf, factorParts_name hname hrest]
    refine ⟨[name], rfl, hbalanced.rising, Or.inl ⟨rfl, fun h => (nomatch h), ?_⟩⟩
    rw [(isFlat_of_name hname).nesting_cons]
    exact Nat.succ_pos limit
  · have hbalanced : Balanced [name] := balanced_nil.cons (isFlat_of_name hname)
    have hflat : nesting [name] < limit + 1 := by
      rw [(isFlat_of_name hname).nesting_cons]
      exact Nat.succ_pos limit
    have hsquare : opening.kind = Bracket.square.opening := hopening
    have hgroup := (group_bounded (h rest) hq hsquare).prepend hbalanced hflat
    rw [hf, factorParts_access hname hopening]
    exact hgroup.map (congrArg _) rfl map_eq_error_iff.mpr map_eq_error_iff.mp
  · rw [hf, factorParts_parentheses hopening]
    exact group_bounded (h rest) hq hopening
  · rw [hf, factorParts_noOperand hnone]
    exact ⟨[], rfl, balanced_nil.rising, Or.inl ⟨rfl, fun h => (nomatch h), Nat.succ_pos limit⟩⟩

/-- A chain breaks off with one of its operands. By induction on the number of tokens. -/
theorem links_bounded (h : p.Bounded q limit) (hq : q.Closes) (rule : Nonterminal) (ts : List Token) :
    (links rule p ts).Bounded (links rule q ts) limit ts := by
  induction hlength : ts.length using Nat.strongRecOn generalizing ts with
  | _ length ih =>
    obtain ⟨front, hts, hrising, hcase⟩ := h ts
    rcases links_cases rule q ts with
      ⟨fault, hfault, hlinks⟩ | ⟨tree, hok, hnone, hlinks⟩ | ⟨tree, operator, rest, hok, hrest, hfits, hlinks⟩
    · refine (h ts).map (fun heq => ?_) (by rw [hlinks]) (fun hdeep => by rw [links_error hdeep]) ?_
      · rw [hlinks, links_error (heq ▸ hfault), heq]
      · rw [hlinks]
        exact fun h => hfault.trans (congrArg Except.error (Except.error.inj h))
    · refine (h ts).map (fun heq => ?_) (by rw [hlinks]) (fun hdeep => by rw [links_error hdeep]) ?_
      · rw [hlinks, links_last (heq ▸ hok) (heq ▸ hnone), heq]
      · rw [hlinks]
        exact fun h => nomatch h
    · have hflat : operator.IsFlat := isFlat_of_operator ((rule.joins_iff _).mp hfits)
      have hbalanced : Balanced (front ++ [operator]) := (hq hok hts).append (balanced_nil.cons hflat)
      have hnesting : nesting (front ++ [operator]) = nesting front := by
        rw [(hq hok hts).nesting_append, hflat.nesting_cons]
        exact Nat.max_eq_left (Nat.zero_le _)
      have hsplit : ts = (front ++ [operator]) ++ rest := by
        rw [List.append_assoc, List.singleton_append, ← hrest]
        exact hts
      have hshorter : rest.length < length := hlength ▸ q.lt_of_link hok (takeIf_eq_some.mpr ⟨hrest, hfits⟩)
      have hothers := ih rest.length hshorter rest rfl
      rcases hcase with ⟨heq, _, hlt⟩ | ⟨hdeep, hle⟩
      · have hwhole := hothers.prepend hbalanced (hnesting ▸ hlt)
        rw [← hsplit] at hwhole
        have hlinks' := links_link (heq ▸ hok) (heq ▸ hrest) hfits
        refine hwhole.map (fun hsame => ?_) (by rw [hlinks]) (fun hdeep => ?_) (fun hdeep => ?_)
        · rw [hlinks, hlinks', hsame, heq]
        · rw [hlinks']
          exact map_eq_error_iff.mpr hdeep
        · rw [hlinks] at hdeep
          exact map_eq_error_iff.mp hdeep
      · -- the bounded parser breaks off with the operand, whatever the other one does behind it
        obtain ⟨front', hrest', hrising', _⟩ := hothers
        refine ⟨(front ++ [operator]) ++ front', ?_, hbalanced.append_rising hrising', Or.inr ⟨?_, ?_⟩⟩
        · rw [hlinks, List.append_assoc, ← hrest']
          exact hsplit
        · rw [links_error hdeep]
        · rw [hbalanced.nesting_append, hnesting]
          exact Nat.le_trans hle (Nat.le_max_left _ _)

theorem enter_bounded {rule : Nonterminal} {ts : List Token} {r s : Run (List Tree)} (h : r.Bounded s limit ts) :
    (r.enter rule ts).Bounded (s.enter rule ts) limit ts :=
  h.map (congrArg _) rfl map_eq_error_iff.mpr map_eq_error_iff.mp

/-- Every rule takes one off the limit. -/
theorem bounded_byRule (h : p.Bounded q limit) (hq : q.Closes) (hrules : ∀ rule, (byRule q rule).Closes)
    (rule : Nonterminal) : (byRule p rule).Bounded (byRule q rule) (limit + 1) := by
  have hfactor : (factor p).Bounded (factor q) (limit + 1) := fun ts => enter_bounded (factorParts_bounded h hq ts)
  have hterm : (term p).Bounded (term q) (limit + 1) :=
    fun ts => enter_bounded (links_bounded hfactor (hrules .factor) .term ts)
  cases rule with
  | expression => exact fun ts => enter_bounded (links_bounded hterm (hrules .term) .expression ts)
  | term => exact hterm
  | factor => exact hfactor

end Constructs

theorem bounded_self : ∀ limit : Nat, (nested limit).Bounded (nested limit) limit
  | 0 => fun _ => ⟨[], rfl, balanced_nil.rising, Or.inr ⟨rfl, Nat.zero_le _⟩⟩
  | limit + 1 =>
    bounded_byRule (bounded_self limit) (Sound.closes (sound_nested limit)) (closes_byRule_nested limit) .expression

/-- What the unbounded parser passes opens groups and closes some of these, and it does not break off. -/
theorem exists_passed_unbounded (ts : List Token) : (unbounded.run ts).outcome ≠ .error .tooDeep ∧
    ∃ front, ts = front ++ (unbounded.run ts).rest ∧ Rising front := by
  obtain ⟨front, hts, hrising, ⟨_, hne, _⟩ | ⟨_, hle⟩⟩ := bounded_self (ts.length + 1) ts
  · exact ⟨hne, front, hts, hrising⟩
  · have hnesting := nestingFrom_le_length 0 front
    have hlength := congrArg List.length hts
    rw [List.length_append] at hlength
    unfold nesting at hle
    omega

/-- **What stands between brackets is bounded by the limit**, beside the unbounded parser. -/
theorem bounded_nested (limit : Nat) : (nested limit).Bounded unbounded limit := by
  induction limit with
  | zero =>
    intro ts
    obtain ⟨_, front, hts, hrising⟩ := exists_passed_unbounded ts
    exact ⟨front, hts, hrising, Or.inr ⟨rfl, Nat.zero_le _⟩⟩
  | succ limit ih =>
    have hcloses : unbounded.Closes := expression_unbounded ▸ closes_byRule_unbounded .expression
    have hnext := bounded_byRule ih hcloses closes_byRule_unbounded .expression
    rwa [byRule, byRule, expression_unbounded] at hnext

end Parser

end ArrayExpr
