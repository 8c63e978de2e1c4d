import ArrayExpr.Proofs.Parser.Rejection

/-!
# Diagnostics from a bracket stack

The diagnostic on a rejected sequence can be told from the tokens before the cursor in one pass, without their tree: it
depends on the last of them and on the opening brackets that are not matched (`Token.unmatched`), which a stack keeps.
The frontier has the same stack, and an operand is missing behind it exactly if the last token asks for one
(`unmatched_of_reach`, `gap_iff_awaitsOperand`). So the parser agrees with the stack
(`parse_error_eq_bracket_stack`).
-/

namespace ArrayExpr

open Token Frontier

namespace Token

/-- The opening brackets that wait to be matched behind a token, of those before it; the latest first. -/
def stackBehind (stack : List Token) (t : Token) : List Token :=
  match t.kind with
  | .openRound | .openSquare => t :: stack
  | .closeRound | .closeSquare => stack.tail
  | _ => stack

/-- The opening brackets that are not matched, the innermost first. -/
def unmatched (tokens : List Token) : List Token := tokens.foldl stackBehind []

/-- An operand must follow: there is no token, or the last one is an operator or an opening bracket. -/
def AwaitsOperand (tokens : List Token) : Prop :=
  ∀ last ∈ tokens.getLast?, last.kind ∈ [Kind.plus, .star, .slash, .openRound, .openSquare]

theorem awaitsOperand_concat (tokens : List Token) (t : Token) :
    AwaitsOperand (tokens ++ [t]) ↔ t.kind ∈ [Kind.plus, .star, .slash, .openRound, .openSquare] := by
  simp [AwaitsOperand]

theorem stackBehind_closing {stack : List Token} {bracket : Bracket} {t : Token} (h : t.kind = bracket.closing) :
    stackBehind stack t = stack.tail := by
  cases bracket <;> simp only [stackBehind, h, Bracket.closing]

/-- A token puts none but itself on the stack. -/
theorem mem_stackBehind {stack : List Token} {t u : Token} (h : u ∈ stackBehind stack t) : u = t ∨ u ∈ stack := by
  unfold stackBehind at h
  split at h
  · exact List.mem_cons.mp h
  · exact List.mem_cons.mp h
  · exact Or.inr (List.mem_of_mem_tail h)
  · exact Or.inr (List.mem_of_mem_tail h)
  · exact Or.inr h

/-- The brackets that are not matched are among the tokens. -/
theorem mem_of_mem_unmatched {tokens : List Token} {u : Token} (h : u ∈ unmatched tokens) : u ∈ tokens := by
  have hfold : ∀ stack, u ∈ tokens.foldl stackBehind stack → u ∈ tokens ∨ u ∈ stack := by
    clear h
    induction tokens with
    | nil => exact fun _ h => Or.inr h
    | cons t tokens ih =>
      intro stack h
      rcases ih _ h with h | h
      · exact Or.inl (List.mem_cons_of_mem t h)
      · rcases mem_stackBehind h with rfl | h
        · exact Or.inl List.mem_cons_self
        · exact Or.inr h
  exact (hfold [] h).resolve_right List.not_mem_nil

end Token

/-! ## The stack of a frontier -/

namespace Frontier

/-- The opening brackets of the open groups. -/
def stack : Frontier → List Token
  | within groups _ => groups.map OpenGroup.opening
  | finished => []

/-- A step does to the open groups what the token does to the stack. -/
theorem Step.stack_eq {f f' : Frontier} {t : Token} (h : Step f t f') : f'.stack = stackBehind f.stack t := by
  cases h with
  | name hname => simp [stack, stackBehind, hname]
  | parenthesis hopening => simp [stack, stackBehind, hopening]
  | access hopening => simp [stack, stackBehind, hopening]
  | operator _ hoperator =>
    rcases Kind.eq_of_isOperator hoperator with hkind | hkind | hkind <;> simp [stack, stackBehind, hkind]
  | closing _ hclosing => rw [stackBehind_closing hclosing]; rfl
  | finish _ hfinish => simp [stack, stackBehind, beq_iff_eq.mp hfinish]

/-- A gap is left exactly by what asks for an operand. -/
theorem Step.gap_iff {f : Frontier} {groups : List OpenGroup} {edge : Edge} {t : Token}
    (h : Step f t (within groups edge)) :
    edge = .gap ↔ t.kind ∈ [Kind.plus, .star, .slash, .openRound, .openSquare] := by
  cases h with
  | name hname => simp [hname]
  | parenthesis hopening => simp [hopening]
  | access hopening => simp [hopening]
  | operator _ hoperator => rcases Kind.eq_of_isOperator hoperator with hkind | hkind | hkind <;> simp [hkind]
  | @closing group _ _ _ _ hclosing => cases hb : group.bracket <;> simp [hclosing, hb, Bracket.closing]

variable {front : List Token} {groups : List OpenGroup} {edge : Edge}

/-- What tokens do to the open groups is what they do to the stack. -/
theorem foldl_stackBehind_of_reach {f f' : Frontier} {ts : List Token} (h : f.reach ts = some f') :
    ts.foldl stackBehind f.stack = f'.stack := by
  induction ts generalizing f with
  | nil =>
    cases Option.some.inj h
    rfl
  | cons t ts ih =>
    obtain ⟨f'', hstep, hreach⟩ := reach_cons_eq_some_iff.mp h
    rw [List.foldl_cons, ← hstep.stack_eq]
    exact ih hreach

/-- The open groups are those of the unmatched brackets. -/
theorem unmatched_of_reach {f : Frontier} (h : start.reach front = some f) : unmatched front = f.stack :=
  foldl_stackBehind_of_reach h

/-- An operand is missing exactly behind what asks for one. -/
theorem gap_iff_awaitsOperand (h : start.reach front = some (within groups edge)) :
    edge = .gap ↔ AwaitsOperand front := by
  rcases List.eq_nil_or_concat' front with rfl | ⟨front, t, rfl⟩
  · cases Option.some.inj h
    simp [AwaitsOperand]
  · obtain ⟨f', _, hlast⟩ := reach_append_eq_some_iff.mp h
    obtain ⟨_, hstep, hend⟩ := reach_cons_eq_some_iff.mp hlast
    cases Option.some.inj hend
    rw [hstep.gap_iff, awaitsOperand_concat]

end Frontier

/-- What a bracket stack says of a token behind those passed. If an operand must follow, then the input ended
abruptly or the token is unexpected. Otherwise, if some opening bracket is not matched, then what closes the innermost
one is missing, and the place reaches from that bracket to the token. Otherwise the token is one too many, and does not
end the input. -/
structure StackDiagnosis (program : String) (passed : List Token) (got : Token) (d : Diagnostic) : Prop where
  operand : AwaitsOperand passed → d =
    { program, span := got.span, problem := if got.isFinish then .unexpectedEnd got else .unexpectedToken got }
  group : ¬ AwaitsOperand passed → ∀ opening outer, unmatched passed = opening :: outer →
    ∃ bracket : Bracket, opening.kind = bracket.opening ∧ d =
      { program, span := opening.span.join got.span, problem := .expectedToken bracket.closing bracket.purpose got }
  trailing : ¬ AwaitsOperand passed → unmatched passed = [] → got.isFinish = false ∧ d =
    { program, span := got.span, problem := .trailingTokens got }

theorem Frontier.not_awaitsOperand {front : List Token} {groups : List OpenGroup} {edge : Edge}
    (h : start.reach front = some (within groups edge)) (hedge : edge.isOperand = true) : ¬ AwaitsOperand front := by
  intro hawaits
  rw [(gap_iff_awaitsOperand h).mpr hawaits] at hedge
  cases hedge

/-- The diagnostic of a frontier is that of the bracket stack. -/
theorem Frontier.Rejects.stackDiagnosis {front : List Token} {f : Frontier} {program : String} {got : Token}
    {d : Diagnostic} (hreach : start.reach front = some f) (h : f.Rejects program got d) :
    StackDiagnosis program front got d := by
  have hunmatched := unmatched_of_reach hreach
  cases h with
  | noOperand =>
    have hawaits := (gap_iff_awaitsOperand hreach).mp rfl
    exact ⟨fun _ => rfl, fun hnot => absurd hawaits hnot, fun hnot => absurd hawaits hnot⟩
  | @unclosed group outer edge hedge =>
    have hnot := not_awaitsOperand hreach hedge
    refine ⟨fun hawaits => absurd hawaits hnot, fun _ opening outer' hstack => ?_, fun _ hnil => ?_⟩
    · rw [hunmatched] at hstack
      cases hstack
      exact ⟨group.bracket, group.kind_opening, rfl⟩
    · rw [hunmatched] at hnil
      cases hnil
  | trailing hedge hgot =>
    have hnot := not_awaitsOperand hreach hedge
    refine ⟨fun hawaits => absurd hawaits hnot, fun _ opening outer' hstack => ?_, fun _ _ => ⟨hgot, rfl⟩⟩
    rw [hunmatched] at hstack
    cases hstack

/-- **The diagnostic is that of a bracket stack.** If a sequence is rejected, and not because its groups nest too deep,
then the bracket stack gives the diagnostic from the tokens before the cursor at which parsing stopped, and from the
token at the cursor. -/
theorem parse_error_eq_bracket_stack {tokens : List Token} {program : String} {limit : Nat} {d : Diagnostic}
    (h : parse tokens program limit = .error (.syntactic d)) (hdeep : ∀ got, d.problem ≠ .nestingTooDeep got) :
    ∃ c k got, Cursor.ofTokens tokens = some c ∧
      (c.read program (Parser.ofRule limit .expression)).2.position = k ∧ tokens[k]? = some got ∧
      StackDiagnosis program (tokens.take k) got d := by
  obtain ⟨stop⟩ := exists_stop h hdeep
  refine ⟨stop.cursor, stop.front.length, stop.got, stop.ofTokens_eq, stop.position_eq, stop.getElem?_front, ?_⟩
  rw [stop.take_front]
  exact stop.rejects.stackDiagnosis stop.reach_eq

/-- A parenthesis does not close an array access, so the bracket that does is missing. -/
theorem diagnosis_of_wrong_bracket :
    ∃ d, parse ([Kind.identifier, .openSquare, .identifier, .closeRound, .finish].map ofKind) "" =
        .error (.syntactic d) ∧ (∀ got, d.problem ≠ .nestingTooDeep got) ∧
      StackDiagnosis "" ([Kind.identifier, .openSquare, .identifier].map ofKind) (ofKind .closeRound) d := by
  have hparse : parse ([Kind.identifier, .openSquare, .identifier, .closeRound, .finish].map ofKind) "" =
      .error (.syntactic (.missingToken "" .closeSquare Bracket.square.purpose (some (ofKind .openSquare))
        (ofKind .closeRound))) := by
    with_unfolding_all rfl
  obtain ⟨c, k, got, hc, hk, hgot, hd⟩ := parse_error_eq_bracket_stack hparse fun got h => nomatch h
  cases hc
  have hthree : k = 3 := hk.symm.trans (by with_unfolding_all rfl)
  subst hthree
  cases hgot
  exact ⟨_, hparse, (fun got h => nomatch h), hd⟩

end ArrayExpr
