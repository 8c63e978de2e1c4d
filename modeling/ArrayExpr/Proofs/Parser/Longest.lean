import ArrayExpr.Proofs.Grammar.Viable
import ArrayExpr.Proofs.Token.Steps

/-!
# Rules take as many tokens as they can

A rule that reads a tree has passed its leaves, and no tree of the rule has more of the tokens in front of it
(`Parser.length_leaves_le`). A longer tree would go on with the first token left. Either the rule ends before this token
whatever follows it, so that it would end in the middle of the longer tree as well; or the token is a square bracket
behind a closed group, which no tree goes on with. At a cursor in a sequence this says which tokens are taken, and where
the cursor stands if there is no tree (`rule_reads_longest`).
-/

namespace ArrayExpr

open Token Frontier

namespace Parser

variable {limit : Nat} {rule : Nonterminal} {ts : List Token} {t u : Tree}

/-- Where a rule ends: before tokens with which it does not go on, or behind a closed group and before a square
bracket. -/
theorem endsBefore_or_group (h : ((ofRule limit rule).run ts).outcome = .ok t) :
    rule.EndsBefore ((ofRule limit rule).run ts).rest ∨ start.reach t.leaves = some (within [] .group) ∧
      ∀ x ∈ ((ofRule limit rule).run ts).rest.head?, x.kind = .openSquare := by
  obtain ⟨_, hleaves, _⟩ := sound_ofRule limit rule h
  obtain ⟨front, f, hsplit, hreach, hok, _⟩ := tracks_ofRule limit rule [] ts
  obtain ⟨edge, rfl, _, hstops⟩ := hok t h
  have hfront : front = t.leaves := List.append_cancel_right (hsplit.symm.trans hleaves.symm)
  cases hrest : ((ofRule limit rule).run ts).rest with
  | nil => exact Or.inl fun _ hx => nomatch hx
  | cons x rest =>
    rw [hrest] at hstops
    by_cases hgoes : x.kind ∈ rule.goesOn
    · obtain ⟨rfl, hopening⟩ := hstops x rfl hgoes
      exact Or.inr ⟨hfront ▸ hreach, forall_head?_cons hopening⟩
    · exact Or.inl (Nonterminal.endsBefore_cons hgoes)

/-- A rule that ends before a token ends there whatever follows the token, so no tree of the rule goes on with it. -/
theorem not_longer_of_endsBefore (ht : Derivation rule t) (hu : Derivation rule u) {x : Token} {more : List Token}
    (hends : rule.EndsBefore (x :: more)) : u.leaves ≠ t.leaves ++ x :: more := by
  intro hleaves
  have hnil : rule.EndsBefore [] := fun _ h => nomatch h
  -- both trees are read from the leaves of the longer one, with the same limit
  let deepest := max (nesting t.leaves) (nesting u.leaves)
  have hshort := (complete_ofRule deepest rule ht (Nat.lt_succ_of_le (Nat.le_max_left _ _)) hends).2
  have hlong := (complete_ofRule deepest rule hu (Nat.lt_succ_of_le (Nat.le_max_right _ _)) hnil).2
  rw [List.append_nil, hleaves, hshort] at hlong
  cases hlong

/-- Outside of all groups no square bracket follows a closed group. -/
theorem not_step_openSquare {x : Token} (hx : x.kind = .openSquare) (f : Frontier) :
    ¬ Step (within [] .group) x f := by
  intro h
  cases h with
  | operator _ hoperator =>
    rw [hx] at hoperator
    cases hoperator
  | finish _ hfinish =>
    rw [isFinish, hx] at hfinish
    cases hfinish

theorem not_longer_of_group (hreach : start.reach t.leaves = some (within [] .group)) (hu : Derivation rule u)
    {x : Token} {more : List Token} (hx : x.kind = .openSquare) : u.leaves ≠ t.leaves ++ x :: more := by
  intro hleaves
  obtain ⟨_, hall, _⟩ := exists_reach_of_derivation hu rfl
  rw [hleaves, reach_append_of_eq hreach] at hall
  obtain ⟨f, hstep, _⟩ := reach_cons_eq_some_iff.mp hall
  exact not_step_openSquare hx f hstep

/-- **No tree of the rule takes more tokens** than the one that is read. -/
theorem length_leaves_le (h : ((ofRule limit rule).run ts).outcome = .ok t) (hu : Derivation rule u)
    (hfront : u.leaves <+: ts) : u.leaves.length ≤ t.leaves.length := by
  obtain ⟨ht, hts, _⟩ := sound_ofRule limit rule h
  by_contra hlonger
  have hshorter : t.leaves <+: u.leaves :=
    List.prefix_of_prefix_length_le (hts ▸ List.prefix_append _ _) hfront (by omega)
  obtain ⟨extra, hextra⟩ := hshorter
  cases extra with
  | nil =>
    rw [← hextra, List.append_nil] at hlonger
    exact hlonger (Nat.le_refl _)
  | cons x more =>
    have hhead : ((ofRule limit rule).run ts).rest.head? = some x := by
      have hboth : t.leaves ++ x :: more <+: t.leaves ++ ((ofRule limit rule).run ts).rest := by
        rwa [hextra, hts]
      obtain ⟨_, hrest⟩ := (List.prefix_append_right_inj _).mp hboth
      rw [← hrest]
      rfl
    rcases endsBefore_or_group h with hends | ⟨hreach, hopening⟩
    · have hends' : rule.EndsBefore (x :: more) := Nonterminal.endsBefore_cons (hends x hhead)
      exact not_longer_of_endsBefore ht hu hends' hextra.symm
    · exact not_longer_of_group hreach hu (hopening x hhead) hextra.symm

end Parser

theorem Derivation.isFinish_eq_false {rule : Nonterminal} {t : Tree} (h : Derivation rule t) :
    ∀ x ∈ t.leaves, x.isFinish = false := by
  obtain ⟨_, hreach, _⟩ := exists_reach_of_derivation h rfl
  exact isFinish_eq_false_of_reach hreach

/-! ## Reading at a cursor -/

namespace Cursor

variable {c : Cursor} {tokens : List Token} {program : String} {limit : Nat} {rule : Nonterminal} {t : Tree}

theorem StandsIn.drop_position (h : c.StandsIn tokens) :
    tokens.drop c.position = c.ahead ++ c.finish :: c.beyond := by
  have hlength : c.position = c.passed.reverse.length := (List.length_reverse ..).symm
  rw [← h.tokens_eq, Cursor.tokens, List.append_assoc, hlength, List.drop_left]

/-- A reading that takes as much as it can, from one position of a sequence to another: it moves forward, and its
tree is a derivation tree over the tokens in between. No derivation tree of the rule has the kinds of more of the tokens
from the first position on. -/
structure ReadsLongest (tokens : List Token) (rule : Nonterminal) (t : Tree) (start stop : Nat) : Prop where
  lt : start < stop
  derivation : Derivation rule t
  leaves_eq : t.leaves = (tokens.take stop).drop start
  longest : ∀ u, Derivation rule u → u.leaves.map kind <+: (tokens.drop start).map kind →
    u.leaves.length ≤ stop - start

/-- Tokens of which none is an end token, and which the sequence begins with at the cursor, lie ahead. -/
theorem StandsIn.isPrefix_ahead (h : c.StandsIn tokens) {front : List Token} (hfront : front <+: tokens.drop c.position)
    (hnot : ∀ x ∈ front, x.isFinish = false) : front <+: c.ahead := by
  rw [h.drop_position] at hfront
  rcases List.prefix_or_prefix_of_prefix hfront (List.prefix_append c.ahead _) with hle | ⟨more, rfl⟩
  · exact hle
  · cases more with
    | nil => simp
    | cons x more =>
      obtain ⟨_, hrest⟩ := (List.prefix_append_right_inj _).mp hfront
      have hx : x = c.finish := (List.cons.inj hrest).1
      have hfinish := hnot x (List.mem_append_right _ List.mem_cons_self)
      rw [hx, c.finish_isFinish] at hfinish
      cases hfinish

/-- A tree that is read takes as many tokens as it can. -/
theorem StandsIn.readsLongest (h : c.StandsIn tokens)
    (hok : ((Parser.ofRule limit rule).run c.ahead).outcome = .ok t) :
    ReadsLongest tokens rule t c.position
      (c.forward (c.ahead.length - ((Parser.ofRule limit rule).run c.ahead).rest.length)).position := by
  obtain ⟨hd, hleaves, _⟩ := Parser.sound_ofRule limit rule hok
  have hlength := congrArg List.length hleaves
  have hlt := (Parser.ofRule limit rule).rest_lt hok
  rw [List.length_append] at hlength
  have hcount : c.ahead.length - ((Parser.ofRule limit rule).run c.ahead).rest.length = t.leaves.length := by omega
  have hstop : (c.forward t.leaves.length).position = c.position + t.leaves.length := by
    simp only [position, Cursor.forward, List.length_append, List.length_reverse, List.length_take]
    omega
  rw [hcount, hstop]
  refine ⟨by omega, hd, ?_, fun u hu hkinds => ?_⟩
  · rw [← List.take_drop, h.drop_position, ← hleaves, List.append_assoc, List.take_left]
  · obtain ⟨front, hfront, hsame⟩ := List.prefix_map_iff.mp hkinds
    obtain ⟨v, hv, rfl⟩ := hu.exists_of_kind_eq hsame.symm
    have hle := Parser.length_leaves_le hok hv (h.isPrefix_ahead hfront hv.isFinish_eq_false)
    have hsize := congrArg List.length hsame
    rw [List.length_map, List.length_map] at hsize
    omega

theorem perform_read (c : Cursor) (program : String) (rule : Nonterminal) (limit : Nat) : ∃ after,
    after = c.forward (c.ahead.length - ((Parser.ofRule limit rule).run c.ahead).rest.length) ∧
      c.perform program (.read rule) limit = ((((Parser.ofRule limit rule).run c.ahead).outcome.mapError
        (Fault.diagnose program after.peek)).map .tree, after) :=
  ⟨_, rfl, rfl⟩

end Cursor

open Cursor

/-- **A rule takes what it returns, and as much as it can.** Wherever a cursor stands in its sequence after some steps,
reading by a rule gives a tree and moves the cursor behind the tokens of the tree, of which no tree of the rule could have
more; or it gives a diagnostic, and the cursor stands at the token that the diagnostic names. -/
theorem rule_reads_longest {tokens : List Token} {start c c' : Cursor} {program : String} {steps : List Step}
    {result : Except Diagnostic StepResult} {rule : Nonterminal} {limit : Nat}
    (hstart : Cursor.ofTokens tokens = some start) (hc : start.after program steps limit = c) (hread : c.perform program (.read rule) limit = (result, c')) :
    (∃ t, result = .ok (.tree t) ∧ ReadsLongest tokens rule t c.position c'.position) ∨
    ∃ d got, result = .error d ∧ d.problem.got? = some got ∧ c'.peek = got ∧ tokens[c'.position]? = some got := by
  have hstands : c.StandsIn tokens := hc ▸ (standsIn_of_ofTokens hstart).after program limit steps
  obtain ⟨_, rfl, hperform⟩ := perform_read c program rule limit
  cases hread.symm.trans hperform
  cases houtcome : ((Parser.ofRule limit rule).run c.ahead).outcome with
  | ok t => exact Or.inl ⟨t, rfl, hstands.readsLongest houtcome⟩
  | error fault =>
    exact Or.inr ⟨_, _, rfl, fault.got?_diagnose program _, rfl, (hstands.forward _).getElem?_position⟩

/-- Behind a name, a term is read up to the square bracket behind its group: no term takes the bracket as well. -/
theorem reads_longest_before_bracket :
    let tokens := [Kind.identifier, .openRound, .identifier, .closeRound, .openSquare, .identifier, .closeSquare,
      .finish].map ofKind
    ∃ start t c', Cursor.ofTokens tokens = some start ∧
      (start.after "" [.advance]).perform "" (.read .term) = (.ok (.tree t), c') ∧ c'.position = 4 ∧
      ReadsLongest tokens .term t 1 4 := by
  intro tokens
  have hsome : (Cursor.ofTokens tokens).isSome = true := rfl
  obtain ⟨start, hstart⟩ := Option.isSome_iff_exists.mp hsome
  obtain ⟨c, hc⟩ : ∃ c, start.after "" [.advance] = c := ⟨_, rfl⟩
  obtain ⟨result, c', hread⟩ : ∃ result c', c.perform "" (.read .term) = (result, c') := ⟨_, _, rfl⟩
  have hshown : result.toOption.isSome = true ∧ c.position = 1 ∧ c'.position = 4 := by
    cases hstart
    cases hc
    cases hread
    with_unfolding_all exact ⟨rfl, rfl, rfl⟩
  obtain ⟨hok, hfrom, hto⟩ := hshown
  rcases rule_reads_longest hstart hc hread with ⟨t, rfl, hlongest⟩ | ⟨d, _, rfl, _⟩
  · rw [hfrom, hto] at hlongest
    exact ⟨start, t, c', hstart, hc ▸ hread, hto, hlongest⟩
  · cases hok

end ArrayExpr
