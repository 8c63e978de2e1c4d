import ArrayExpr.Proofs.Parser.Tracking
import ArrayExpr.Proofs.Token.Cursor

/-!
# Where and why a sequence is rejected

If a sequence of tokens has no tree, and not because its groups nest too deep, then the tokens before the cursor lead to
a frontier where the token at the cursor cannot follow (`Stop.stuck`), and the frontier and that token give the
diagnostic (`Frontier.Rejects`). All of this is collected in `Stop`, and `exists_stop` finds it for every rejected
sequence.
-/

namespace ArrayExpr

open Token Frontier

/-- The diagnostic on a fault names the token at which it arose. -/
theorem Fault.got?_diagnose (fault : Fault) (program : String) (got : Token) :
    (fault.diagnose program got).problem.got? = some got := by
  cases fault with
  | noOperand =>
    unfold diagnose
    dsimp only
    split <;> rfl
  | unclosed => rfl
  | tooDeep => rfl

namespace Frontier

variable {program : String} {got : Token} {groups : List OpenGroup} {edge : Edge}

/-- The diagnostic on a token that cannot follow: an operand is missing, or else what closes the innermost group, or
else nothing is open and the token is one too many. -/
inductive Rejects (program : String) (got : Token) : Frontier → Diagnostic → Prop
  | noOperand {groups : List OpenGroup} :
      Rejects program got (within groups .gap) (Fault.noOperand.diagnose program got)
  | unclosed {group : OpenGroup} {outer : List OpenGroup} {edge : Edge} : edge.isOperand = true →
      Rejects program got (within (group :: outer) edge)
        ((Fault.unclosed group.bracket group.opening).diagnose program got)
  | trailing {edge : Edge} : edge.isOperand = true → got.isFinish = false →
      Rejects program got (within [] edge) { program, span := got.span, problem := .trailingTokens got }

theorem Rejects.got?_eq {f : Frontier} {d : Diagnostic} (h : f.Rejects program got d) : d.problem.got? = some got := by
  cases h with
  | noOperand => exact Fault.got?_diagnose ..
  | unclosed => exact Fault.got?_diagnose ..
  | trailing => rfl

theorem Rejects.completion_ne_nil {f : Frontier} {d : Diagnostic} (h : f.Rejects program got d) :
    f.completion ≠ [] := by
  cases h with
  | noOperand => exact List.cons_ne_nil _ _
  | unclosed hedge => exact completion_within_ne_nil _ _
  | trailing hedge => exact completion_within_ne_nil _ _

/-- Where an operand is missing, only a name or an opening parenthesis may follow. -/
theorem not_step_gap (h : got.kind ≠ .identifier ∧ got.kind ≠ .openRound) (f : Frontier) :
    ¬ Step (within groups .gap) got f := by
  intro hstep
  cases hstep with
  | name hname => exact h.1 hname
  | parenthesis hopening => exact h.2 hopening
  | operator hedge => cases hedge
  | closing hedge => cases hedge
  | finish hedge => cases hedge

theorem mem_goesOn_of_isOperator {kind : Kind} (h : kind.isOperator = true) :
    kind ∈ Nonterminal.expression.goesOn := by
  cases kind <;> first | decide | cases h

/-- Behind an operand, nothing follows but what the expression goes on with, what closes a group, and the end. -/
theorem not_step_operand (hedge : edge.isOperand = true)
    (hgoes : got.kind ∈ Nonterminal.expression.goesOn → edge = .group ∧ got.kind = .openSquare)
    (hclosing : ∀ group ∈ groups.head?, got.kind ≠ group.bracket.closing)
    (hfinish : groups = [] → got.isFinish = false) (f : Frontier) : ¬ Step (within groups edge) got f := by
  intro hstep
  cases hstep with
  | name => cases hedge
  | parenthesis => cases hedge
  | access hopening =>
    have hmem : got.kind ∈ Nonterminal.expression.goesOn := hopening ▸ by decide
    cases (hgoes hmem).1
  | operator _ hoperator =>
    rw [(hgoes (mem_goesOn_of_isOperator hoperator)).2] at hoperator
    cases hoperator
  | closing _ hkind => exact hclosing _ rfl hkind
  | finish _ hend =>
    rw [hfinish rfl] at hend
    cases hend

theorem not_step_outside (hedge : edge.isOperand = true)
    (hgoes : got.kind ∈ Nonterminal.expression.goesOn → edge = .group ∧ got.kind = .openSquare)
    (hgot : got.isFinish = false) : ∀ f, ¬ Step (within [] edge) got f :=
  not_step_operand hedge hgoes (fun _ h => nomatch h) fun _ => hgot

end Frontier

/-! ## The end of a run -/

theorem head?_getD_of_forall {P : Token → Prop} {rest : List Token} {finish : Token} (h : ∀ t ∈ rest.head?, P t)
    (hfinish : P finish) : P (rest.head?.getD finish) := by
  cases rest with
  | nil => exact hfinish
  | cons t rest => exact h t rfl

/-- A fault arises at a token that cannot follow, and has the diagnostic of that frontier. -/
theorem Fault.Stops.rejects {deepest : Nat} {rest : List Token} {f : Frontier} {fault : Fault} {finish : Token}
    (h : fault.Stops deepest rest f) (hdeep : fault ≠ .tooDeep) (hfinish : finish.isFinish = true) (program : String) :
    (∀ f', ¬ Step f (rest.head?.getD finish) f') ∧
      f.Rejects program (rest.head?.getD finish) (fault.diagnose program (rest.head?.getD finish)) := by
  have hkind : finish.kind = .finish := beq_iff_eq.mp hfinish
  cases h with
  | noOperand hnone =>
    refine ⟨not_step_gap (head?_getD_of_forall hnone ?_), .noOperand⟩
    rw [hkind]
    decide
  | @unclosed group outer edge hedge hstops hclosing =>
    refine ⟨not_step_operand hedge (head?_getD_of_forall hstops ?_) ?_ (fun h => nomatch h), .unclosed hedge⟩
    · intro hgoes
      rw [hkind] at hgoes
      exact absurd hgoes (by decide)
    · intro group' hgroup
      cases hgroup
      refine head?_getD_of_forall (P := fun t => t.kind ≠ group.bracket.closing) hclosing ?_
      rw [hkind]
      cases group.bracket <;> decide
  | tooDeep => exact absurd rfl hdeep

/-- There is no tree exactly if reading failed, or tokens are left behind the tree. -/
theorem Run.verdict_eq_error_iff {program : String} {finish : Token} {r : Run Tree} {d : Diagnostic} :
    r.verdict program finish = .error d ↔
      (∃ fault, r.outcome = .error fault ∧ d = fault.diagnose program (r.rest.head?.getD finish)) ∨
      ∃ tree got rest, r.outcome = .ok tree ∧ r.rest = got :: rest ∧
        d = { program, span := got.span, problem := .trailingTokens got } := by
  unfold verdict
  cases r.outcome with
  | error fault => simp [eq_comm]
  | ok tree =>
    cases r.rest with
    | nil => simp
    | cons got rest => simp [eq_comm]

theorem Run.got?_of_verdict_eq_error {program : String} {finish : Token} {r : Run Tree} {d : Diagnostic}
    (h : r.verdict program finish = .error d) : d.problem.got? = some (r.rest.head?.getD finish) := by
  rcases verdict_eq_error_iff.mp h with ⟨fault, _, rfl⟩ | ⟨_, got, rest, _, hrest, rfl⟩
  · exact fault.got?_diagnose ..
  · rw [hrest]
    rfl

/-! ## Rejected sequences -/

theorem Cursor.position_forward {c : Cursor} (hpassed : c.passed = []) {front rest : List Token}
    (h : c.ahead = front ++ rest) : (c.forward (c.ahead.length - rest.length)).position = front.length := by
  show ((c.ahead.take (c.ahead.length - rest.length)).reverse ++ c.passed).length = front.length
  rw [hpassed, h]
  simp

theorem parse_eq_verdict {tokens : List Token} {c : Cursor} (h : Cursor.ofTokens tokens = some c) (program : String)
    (limit : Nat) : parse tokens program limit =
      (((Parser.ofRule limit .expression).run c.ahead).verdict program c.finish).mapError .syntactic := by
  rw [parse, parseTraced, h, ← c.parse_result]
  rfl

/-- The place where parsing stopped: the cursor stands behind some tokens, at one that cannot follow them. -/
structure Stop (tokens : List Token) (program : String) (limit : Nat) (d : Diagnostic) where
  cursor : Cursor
  front : List Token
  got : Token
  after : List Token
  frontier : Frontier
  ofTokens_eq : Cursor.ofTokens tokens = some cursor
  position_eq : (cursor.read program (Parser.ofRule limit .expression)).2.position = front.length
  tokens_eq : tokens = front ++ got :: after
  front_not_finish : ∀ t ∈ front, t.isFinish = false
  reach_eq : start.reach front = some frontier
  stuck : ∀ f, ¬ Step frontier got f
  rejects : frontier.Rejects program got d

namespace Stop

variable {tokens : List Token} {program : String} {limit : Nat} {d : Diagnostic} (stop : Stop tokens program limit d)

theorem getElem?_front : tokens[stop.front.length]? = some stop.got := by
  simp [stop.tokens_eq]

theorem take_front : tokens.take stop.front.length = stop.front := by
  simp [stop.tokens_eq]

theorem take_front_succ : tokens.take (stop.front.length + 1) = stop.front ++ [stop.got] := by
  have hsplit : tokens = (stop.front ++ [stop.got]) ++ stop.after := by simp [stop.tokens_eq]
  exact (congrArg (List.take _) hsplit).trans (List.take_left' (by simp))

end Stop

/-- The cursor stands at the first token left, or else at the end token. -/
theorem exists_split_at_rest {body front rest : List Token} (h : body = front ++ rest) (finish : Token)
    (beyond : List Token) : ∃ after, body ++ finish :: beyond = front ++ rest.head?.getD finish :: after := by
  cases rest with
  | nil => exact ⟨beyond, by simp [h]⟩
  | cons got rest => exact ⟨rest ++ finish :: beyond, by simp [h]⟩

theorem exists_of_mapError_eq_error {f : ε → ε'} {x : Except ε α} {e' : ε'} (h : x.mapError f = .error e') :
    ∃ e, x = .error e ∧ f e = e' := by
  cases x with
  | ok a => cases h
  | error e => exact ⟨e, rfl, Except.error.inj h⟩

/-- **A sequence is rejected where a token cannot follow**, unless its groups nest too deep. -/
theorem exists_stop {tokens : List Token} {program : String} {limit : Nat} {d : Diagnostic}
    (h : parse tokens program limit = .error (.syntactic d)) (hdeep : ∀ got, d.problem ≠ .nestingTooDeep got) :
    Nonempty (Stop tokens program limit d) := by
  rcases Cursor.ofTokens_cases tokens with ⟨hended, _⟩ | ⟨_, c, hc, hpassed, hahead, htokens⟩
  · rw [parse_of_not_ended hended] at h
    cases h
  obtain ⟨front, f, hfront, hreach, hok, herror⟩ := Parser.tracks_ofRule limit .expression [] c.ahead
  have hposition := Cursor.position_forward hpassed hfront
  have hnot : ∀ t ∈ front, t.isFinish = false := fun t ht =>
    c.ahead_not_finish t (hfront ▸ List.mem_append_left _ ht)
  obtain ⟨after, hafter⟩ := exists_split_at_rest hfront c.finish c.beyond
  rw [hahead, ← htokens] at hafter
  rw [parse_eq_verdict hc] at h
  obtain ⟨_, hverdict, hd⟩ := exists_of_mapError_eq_error h
  cases hd
  rcases Run.verdict_eq_error_iff.mp hverdict with ⟨fault, houtcome, rfl⟩ | ⟨tree, got, rest, houtcome, hrest, rfl⟩
  · have hfault : fault ≠ .tooDeep := by
      rintro rfl
      exact hdeep _ rfl
    obtain ⟨hstuck, hrejects⟩ := (herror fault houtcome).rejects hfault c.finish_isFinish program
    rw [← hahead] at hafter
    exact ⟨⟨c, front, _, after, f, hc, hposition, hafter, hnot, hreach, hstuck, hrejects⟩⟩
  · obtain ⟨edge, rfl, hedge, hstops⟩ := hok tree houtcome
    have hgot : got.isFinish = false :=
      c.ahead_not_finish got (hfront ▸ List.mem_append_right _ (hrest ▸ List.mem_cons_self))
    rw [← hahead, hrest] at hafter
    rw [hrest] at hstops
    have hstuck := not_step_outside hedge (hstops got rfl) hgot
    exact ⟨⟨c, front, got, after, _, hc, hposition, hafter, hnot, hreach, hstuck, .trailing hedge hgot⟩⟩

end ArrayExpr
