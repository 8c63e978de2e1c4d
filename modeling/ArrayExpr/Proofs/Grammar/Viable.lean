import ArrayExpr.Proofs.Parser.Rejection
import ArrayExpr.Proofs.Parser.Relabel
import ArrayExpr.Proofs.Parser.Soundness

/-!
# Viable prefixes

The kinds of an expression and of the end of the input are a `Sentence`, and what a sentence begins with is `Viable`.
The frontier decides both: tokens have the kinds of a sentence exactly if they lead from the start to the end of the
input (`reach_eq_finished_iff`), and they are viable exactly if they lead anywhere (`viable_iff_reach`), since every
frontier can be completed. A sequence is rejected where a token cannot follow the frontier, so the parser stops at the
first violation of the grammar (`parse_stops_at_first_violation`).
-/

namespace ArrayExpr

open Token Frontier

/-- The kinds of an expression and the end of the input. -/
def Sentence (kinds : List Kind) : Prop :=
  ∃ t, Derivation .expression t ∧ kinds = t.leaves.map kind ++ [.finish]

/-- Some sentence begins with these kinds. -/
def Viable (kinds : List Kind) : Prop := ∃ sentence, Sentence sentence ∧ kinds <+: sentence

namespace Frontier

variable {f f' : Frontier} {groups : List OpenGroup} {edge : Edge} {t : Token} {ts : List Token}

theorem not_step_finished : ¬ Step finished t f := by
  intro h
  cases h

theorem eq_nil_of_reach_finished (h : finished.reach ts = some f) : ts = [] ∧ f = finished := by
  cases ts with
  | nil => exact ⟨rfl, (Option.some.inj h).symm⟩
  | cons t ts =>
    obtain ⟨_, hstep, _⟩ := reach_cons_eq_some_iff.mp h
    exact absurd hstep not_step_finished

/-- Only the end token leads to the end of the input. -/
theorem Step.isFinish_eq_false (h : Step f t (within groups edge)) : t.isFinish = false := by
  rw [isFinish, beq_eq_false_iff_ne]
  intro hkind
  cases h with
  | name h => rw [hkind] at h; cases h
  | parenthesis h => rw [hkind] at h; cases h
  | access h => rw [hkind] at h; cases h
  | operator _ h => rw [hkind] at h; cases h
  | @closing group _ _ _ _ h =>
    rw [hkind] at h
    cases hb : group.bracket <;> rw [hb] at h <;> cases h

/-- No end token stands among tokens of an expression. -/
theorem isFinish_eq_false_of_reach (h : f.reach ts = some (within groups edge)) : ∀ t ∈ ts, t.isFinish = false := by
  induction ts generalizing f with
  | nil => exact fun _ ht => nomatch ht
  | cons u us ih =>
    obtain ⟨f', hstep, hreach⟩ := reach_cons_eq_some_iff.mp h
    cases f' with
    | finished => cases (eq_nil_of_reach_finished hreach).2
    | within => exact List.forall_mem_cons.mpr ⟨hstep.isFinish_eq_false, ih hreach⟩

/-- The end of the input is reached by an end token behind a complete operand outside of all groups. -/
theorem exists_split_of_reach_finished (h : start.reach ts = some finished) : ∃ front finish edge,
    ts = front ++ [finish] ∧ finish.isFinish = true ∧ start.reach front = some (within [] edge) ∧
      edge.isOperand = true := by
  rcases List.eq_nil_or_concat' ts with rfl | ⟨front, finish, rfl⟩
  · cases h
  · obtain ⟨f', hfront, hlast⟩ := reach_append_eq_some_iff.mp h
    obtain ⟨f'', hstep, hend⟩ := reach_cons_eq_some_iff.mp hlast
    cases Option.some.inj hend
    cases hstep with
    | finish hedge hfinish => exact ⟨front, finish, _, rfl, hfinish, hfront, hedge⟩

theorem Step.length_groups_le {groups' : List OpenGroup} {edge' : Edge}
    (h : Step (within groups edge) t (within groups' edge')) : groups'.length ≤ groups.length + 1 := by
  cases h <;> grind

/-- No more groups are open than tokens were passed. -/
theorem length_groups_le {groups' : List OpenGroup} {edge' : Edge}
    (h : (within groups edge).reach ts = some (within groups' edge')) :
    groups'.length ≤ groups.length + ts.length := by
  induction ts generalizing groups edge with
  | nil =>
    cases Option.some.inj h
    exact Nat.le_refl _
  | cons u us ih =>
    obtain ⟨f', hstep, hreach⟩ := reach_cons_eq_some_iff.mp h
    cases f' with
    | finished => cases (eq_nil_of_reach_finished hreach).2
    | within groups'' edge'' =>
      have hlast := ih hreach
      have hfirst := hstep.length_groups_le
      rw [List.length_cons]
      omega

end Frontier

/-! ## Sentences -/

/-- What leads to a complete expression goes on with the next token, or else with the end of the input. -/
theorem exists_step_of_reach {f : Frontier} {edge : Edge} {rest : List Token} (hedge : edge.isOperand = true)
    (h : f.reach rest = some (within [] edge)) {finish : Token} (hfinish : finish.isFinish = true) :
    ∃ f', Step f (rest.head?.getD finish) f' := by
  cases rest with
  | nil =>
    cases Option.some.inj h
    exact ⟨finished, .finish hedge hfinish⟩
  | cons t rest =>
    obtain ⟨f', hstep, _⟩ := reach_cons_eq_some_iff.mp h
    exact ⟨f', hstep⟩

/-- **Tokens that lead to a complete expression are the leaves of one.** The parser cannot fail on them, since it would
do so where a token cannot follow, and it leaves none of them. -/
theorem exists_derivation_of_reach {edge : Edge} {ts : List Token} (h : start.reach ts = some (within [] edge))
    (hedge : edge.isOperand = true) : ∃ t, Derivation .expression t ∧ t.leaves = ts := by
  have hnot := isFinish_eq_false_of_reach h
  obtain ⟨front, f, hsplit, hreach, hok, herror⟩ := Parser.tracks_ofRule ts.length .expression [] ts
  obtain ⟨f', hf', hrest⟩ := reach_append_eq_some_iff.mp (hsplit ▸ h)
  cases hreach.symm.trans hf'
  have hend : (ofKind .finish).isFinish = true := rfl
  obtain ⟨f', hstep⟩ := exists_step_of_reach hedge hrest hend
  cases houtcome : ((Parser.ofRule ts.length .expression).run ts).outcome with
  | error fault =>
    have hstops := herror fault houtcome
    by_cases hdeep : fault = .tooDeep
    · subst hdeep
      cases hstops with
      | tooDeep hlength =>
        have hle := length_groups_le hreach
        have hfront : front.length ≤ ts.length := by
          have hlengths := congrArg List.length hsplit
          rw [List.length_append] at hlengths
          omega
        simp only [List.length_nil] at hlength hle
        omega
    · exact absurd hstep ((hstops.rejects hdeep hend "").1 f')
  | ok t =>
    obtain ⟨hd, hleaves, _⟩ := Parser.sound_ofRule ts.length .expression houtcome
    obtain ⟨edge', rfl, hedge', hstops⟩ := hok t houtcome
    cases hnil : ((Parser.ofRule ts.length .expression).run ts).rest with
    | nil =>
      rw [hnil, List.append_nil] at hleaves
      exact ⟨t, hd, hleaves⟩
    | cons got rest =>
      rw [hnil] at hstep hstops hsplit
      have hgot : got.isFinish = false := hnot got (hsplit ▸ List.mem_append_right _ List.mem_cons_self)
      exact absurd hstep (not_step_outside hedge' (hstops got rfl) hgot f')

/-- Tokens of the same kinds are read to the same end. -/
theorem Parser.exists_ok_of_kind_eq {limit : Nat} {rule : Nonterminal} {ts us : List Token} {t : Tree}
    (h : us.map kind = ts.map kind) (hok : ((ofRule limit rule).run ts).outcome = .ok t) :
    ∃ u, ((ofRule limit rule).run us).outcome = .ok u ∧
      ((ofRule limit rule).run us).rest.length = ((ofRule limit rule).run ts).rest.length := by
  have hnatural := natural_ofRule (f := fun t => ofKind t.kind) (fun _ => rfl) limit rule
  have hkinds : us.map (fun t => ofKind t.kind) = ts.map fun t => ofKind t.kind := by
    simpa only [List.map_map, Function.comp_def] using congrArg (List.map ofKind) h
  have hrun := (hnatural us).symm.trans ((congrArg _ hkinds).trans (hnatural ts))
  have houtcome := congrArg Run.outcome hrun
  have hrest := congrArg (List.length ∘ Run.rest) hrun
  simp only [Run.mapTokens, Function.comp_apply, List.length_map] at houtcome hrest
  rw [hok] at houtcome
  cases ho : ((ofRule limit rule).run us).outcome with
  | error fault =>
    rw [ho] at houtcome
    cases houtcome
  | ok u => exact ⟨u, rfl, hrest⟩

/-- Tokens of the kinds of a derivation tree are read as a tree of the same rule, and none of them is left. -/
theorem Parser.exists_run_of_kind_eq {rule : Nonterminal} {t : Tree} (hd : Derivation rule t) {ts : List Token}
    (h : ts.map kind = t.leaves.map kind) : ∃ u, ((ofRule (nesting t.leaves) rule).run ts).outcome = .ok u ∧
      ((ofRule (nesting t.leaves) rule).run ts).rest = [] := by
  have hends : rule.EndsBefore [] := fun _ h => nomatch h
  obtain ⟨hok, hrest⟩ := complete_ofRule (nesting t.leaves) rule hd (Nat.lt_succ_of_le (Nat.le_refl _)) hends
  rw [List.append_nil] at hok hrest
  obtain ⟨u, hu, hlength⟩ := exists_ok_of_kind_eq h hok
  rw [hrest] at hlength
  exact ⟨u, hu, List.length_eq_zero_iff.mp hlength⟩

/-- Tokens of the kinds of a derivation tree are the leaves of one. -/
theorem Derivation.exists_of_kind_eq {rule : Nonterminal} {t : Tree} (hd : Derivation rule t) {ts : List Token}
    (h : ts.map kind = t.leaves.map kind) : ∃ u, Derivation rule u ∧ u.leaves = ts := by
  obtain ⟨u, hu, hrest⟩ := Parser.exists_run_of_kind_eq hd h
  obtain ⟨hdu, hleaves, _⟩ := Parser.sound_ofRule (nesting t.leaves) rule hu
  rw [hrest, List.append_nil] at hleaves
  exact ⟨u, hdu, hleaves⟩

/-- Tokens of the kinds of a derivation tree lead to a complete operand outside of all groups. -/
theorem exists_reach_of_derivation {rule : Nonterminal} {t : Tree} (hd : Derivation rule t) {ts : List Token}
    (h : ts.map kind = t.leaves.map kind) :
    ∃ edge, start.reach ts = some (within [] edge) ∧ edge.isOperand = true := by
  obtain ⟨u, hu, hrest⟩ := Parser.exists_run_of_kind_eq hd h
  obtain ⟨front, f, hsplit, hreach, htracks, _⟩ := Parser.tracks_ofRule (nesting t.leaves) rule [] ts
  obtain ⟨edge, rfl, hedge, _⟩ := htracks u hu
  rw [hrest, List.append_nil] at hsplit
  exact ⟨edge, hsplit ▸ hreach, hedge⟩

/-- Tokens lead to the end of the input exactly if their kinds are a sentence. -/
theorem reach_eq_finished_iff (ts : List Token) : start.reach ts = some finished ↔ Sentence (ts.map kind) := by
  constructor
  · intro h
    obtain ⟨front, finish, edge, rfl, hfinish, hfront, hedge⟩ := exists_split_of_reach_finished h
    obtain ⟨t, hd, rfl⟩ := exists_derivation_of_reach hfront hedge
    refine ⟨t, hd, ?_⟩
    rw [List.map_append, List.map_singleton, beq_iff_eq.mp hfinish]
  · rintro ⟨t, hd, hkinds⟩
    obtain ⟨front, last, rfl, hfront, hlast⟩ := List.map_eq_append_iff.mp hkinds
    obtain ⟨finish, rfl, hfinish⟩ := List.map_eq_singleton_iff.mp hlast
    obtain ⟨edge, hreach, hedge⟩ := exists_reach_of_derivation hd hfront
    have hstep : Step (within [] edge) finish finished := .finish hedge (beq_iff_eq.mpr hfinish)
    rw [reach_append_of_eq hreach, hstep.reach_cons]
    rfl

/-- **Tokens lead to some frontier exactly if their kinds are viable.** -/
theorem viable_iff_reach (ts : List Token) : Viable (ts.map kind) ↔ ∃ f, start.reach ts = some f := by
  constructor
  · rintro ⟨_, hsentence, more, rfl⟩
    have hall : start.reach (ts ++ more.map ofKind) = some finished := by
      rw [reach_eq_finished_iff, List.map_append, List.map_map]
      simpa only [Function.comp_def, ofKind, List.map_id'] using hsentence
    obtain ⟨f, hf, _⟩ := reach_append_eq_some_iff.mp hall
    exact ⟨f, hf⟩
  · rintro ⟨f, hf⟩
    have hall : start.reach (ts ++ f.completion) = some finished := by
      rw [reach_append_of_eq hf, reach_completion]
    refine ⟨_, (reach_eq_finished_iff _).mp hall, ?_⟩
    rw [List.map_append]
    exact List.prefix_append _ _

/-! ## Rejected sequences -/

/-- **The parser stops at the first violation of the grammar.** If a sequence is rejected, and not because its groups
nest too deep, then the token that the diagnostic names is the one at the cursor at which parsing stopped. The kinds
before it begin a sentence that goes on, and no sentence begins with these kinds and that of the token. -/
theorem parse_stops_at_first_violation {tokens : List Token} {program : String} {limit : Nat} {d : Diagnostic}
    (h : parse tokens program limit = .error (.syntactic d)) (hdeep : ∀ got, d.problem ≠ .nestingTooDeep got) :
    ∃ c k got, Cursor.ofTokens tokens = some c ∧
      (c.read program (Parser.ofRule limit .expression)).2.position = k ∧
      tokens[k]? = some got ∧ d.problem.got? = some got ∧
      (∃ sentence, Sentence sentence ∧ (tokens.take k).map kind <+: sentence ∧
        (tokens.take k).map kind ≠ sentence) ∧
      ¬ Viable ((tokens.take (k + 1)).map kind) := by
  obtain ⟨stop⟩ := exists_stop h hdeep
  have hviable : start.reach (stop.front ++ stop.frontier.completion) = some finished := by
    rw [reach_append_of_eq stop.reach_eq, reach_completion]
  refine ⟨stop.cursor, stop.front.length, stop.got, stop.ofTokens_eq, stop.position_eq, stop.getElem?_front,
    stop.rejects.got?_eq, ⟨_, (reach_eq_finished_iff _).mp hviable, ?_, ?_⟩, ?_⟩
  · rw [stop.take_front, List.map_append]
    exact List.prefix_append _ _
  · rw [stop.take_front, List.map_append]
    intro hsame
    exact stop.rejects.completion_ne_nil (List.map_eq_nil_iff.mp (List.self_eq_append_right.mp hsame))
  · rw [stop.take_front_succ, viable_iff_reach]
    rintro ⟨f, hf⟩
    rw [reach_append_of_eq stop.reach_eq] at hf
    obtain ⟨f', hstep, _⟩ := reach_cons_eq_some_iff.mp hf
    exact stop.stuck f' hstep

/-- A name cannot follow another one: the parser stops at the second, before which the tokens are viable. -/
theorem stops_at_second_name :
    ∃ d, parse ([Kind.openRound, .identifier, .identifier, .finish].map ofKind) "" = .error (.syntactic d) ∧
      (∀ got, d.problem ≠ .nestingTooDeep got) ∧ Viable [.openRound, .identifier] ∧
      ¬ Viable [.openRound, .identifier, .identifier] := by
  have hparse : parse ([Kind.openRound, .identifier, .identifier, .finish].map ofKind) "" =
      .error (.syntactic (.missingToken "" .closeRound Bracket.round.purpose (some (ofKind .openRound))
        (ofKind .identifier))) := by
    with_unfolding_all rfl
  obtain ⟨c, k, got, hc, hk, _, _, ⟨sentence, hsentence, hprefix, _⟩, hnot⟩ :=
    parse_stops_at_first_violation hparse fun got h => nomatch h
  cases hc
  have htwo : k = 2 := hk.symm.trans (by with_unfolding_all rfl)
  subst htwo
  exact ⟨_, hparse, (fun got h => nomatch h), ⟨sentence, hsentence, hprefix⟩, hnot⟩

end ArrayExpr
