import ArrayExpr.Proofs.Parser.Depth

/-!
# The nesting limit

The limit on open groups only ever replaces the outcome of a parse by its own diagnostic, and only for deep nesting. It
does so exactly if the parser without a limit has more groups open at once, on the tokens that it passes before it
accepts or fails; otherwise both have the same tree or the same diagnostic (`limit_replaces_only_depth`). Since groups
that follow each other do not nest (`Token.nesting_flatten_le`), the length of a chain does not matter.
-/

namespace ArrayExpr

open Token

/-- The tree of a token sequence, however many groups are open. -/
def parseUnbounded (tokens : List Token) (program : String) : Except Failure Tree :=
  match Cursor.ofTokens tokens with
  | none => .error .unended
  | some start => ((Parser.unbounded.run start.ahead).verdict program start.finish).mapError .syntactic

/-- The tokens were given up since their groups nest too deep. -/
def TooDeep (result : Except Failure Tree) : Prop :=
  ∃ d got, result = .error (.syntactic d) ∧ d.problem = .nestingTooDeep got

/-- With and without a limit, what is said of a sequence is the verdict on the run over its body. -/
theorem exists_verdicts {tokens : List Token} (h : Ended tokens) : ∃ finish, ∀ program,
    (∀ limit, parse tokens program limit =
      (((Parser.nested (limit + 1)).run (body tokens)).verdict program finish).mapError .syntactic) ∧
    parseUnbounded tokens program =
      ((Parser.unbounded.run (body tokens)).verdict program finish).mapError .syntactic := by
  rcases Cursor.ofTokens_cases tokens with ⟨hended, _⟩ | ⟨_, c, hc, _, hahead, _⟩
  · exact absurd h hended
  · refine ⟨c.finish, fun program => ⟨fun limit => ?_, ?_⟩⟩
    · rw [parse_eq_verdict hc, hahead]
      rfl
    · rw [parseUnbounded, hc, ← hahead]

/-- A sequence is given up for its depth exactly if the run over it broke off. -/
theorem Run.tooDeep_verdict_iff {r : Run Tree} {program : String} {finish : Token} :
    TooDeep ((r.verdict program finish).mapError .syntactic) ↔ r.outcome = .error .tooDeep := by
  constructor
  · rintro ⟨d, got, hresult, hproblem⟩
    obtain ⟨_, hverdict, hd⟩ := exists_of_mapError_eq_error hresult
    cases hd
    rcases verdict_eq_error_iff.mp hverdict with ⟨fault, houtcome, rfl⟩ | ⟨_, _, _, _, _, rfl⟩
    · cases fault with
      | tooDeep => exact houtcome
      | unclosed => cases hproblem
      | noOperand =>
        unfold Fault.diagnose at hproblem
        dsimp only at hproblem
        split at hproblem <;> cases hproblem
    · cases hproblem
  · intro houtcome
    refine ⟨Fault.diagnose program (r.rest.head?.getD finish) .tooDeep, r.rest.head?.getD finish, ?_, rfl⟩
    exact congrArg _ (verdict_eq_error_iff.mpr (Or.inl ⟨_, houtcome, rfl⟩))

/-! ## Deep nesting -/

namespace Parser

theorem chain_error {rule : Nonterminal} {operand : Parser} {ts : List Token} {fault : Fault}
    (h : (operand.run ts).outcome = .error fault) : ((chain rule operand).run ts).outcome = .error fault := by
  show (links rule operand ts).outcome.map _ = _
  rw [links_error h]
  rfl

/-- Opening parentheses are too many if there are as many as groups may be open, the one around them included. -/
theorem nested_openings (limit : Nat) {openings : List Token} (rest : List Token)
    (h : ∀ t ∈ openings, t.kind = .openRound) (hle : limit ≤ openings.length) :
    ((nested limit).run (openings ++ rest)).outcome = .error .tooDeep := by
  induction limit generalizing openings with
  | zero => rfl
  | succ limit ih =>
    cases openings with
    | nil => exact absurd hle (Nat.not_succ_le_zero _)
    | cons opening openings =>
      have hinner := ih (fun t ht => h t (List.mem_cons_of_mem _ ht)) (Nat.le_of_succ_le_succ hle)
      have hfactor : ((factor (nested limit)).run (opening :: (openings ++ rest))).outcome = .error .tooDeep := by
        show (factorParts (nested limit) (opening :: (openings ++ rest))).outcome.map _ = _
        rw [factorParts_parentheses (h opening List.mem_cons_self), group_error hinner]
        rfl
      exact chain_error (chain_error hfactor)

end Parser

namespace Token

theorem body_openings {openings : List Token} (rest : List Token) (h : ∀ t ∈ openings, t.kind = .openRound) :
    body (openings ++ rest) = openings ++ body rest :=
  List.takeWhile_append_of_pos fun t ht => by simp [isFinish, h t ht]

/-- Balanced tokens that follow each other nest no deeper than each of them, however many there are. -/
theorem nesting_flatten_le {limit : Nat} {parts : List (List Token)}
    (h : ∀ part ∈ parts, Balanced part ∧ nesting part ≤ limit) : nesting parts.flatten ≤ limit := by
  induction parts with
  | nil => exact Nat.zero_le limit
  | cons part parts ih =>
    obtain ⟨hbalanced, hle⟩ := h part List.mem_cons_self
    rw [List.flatten_cons, hbalanced.nesting_append]
    exact Nat.max_le.mpr ⟨hle, ih fun p hp => h p (List.mem_cons_of_mem _ hp)⟩

end Token

/-! ## The limit -/

section Limit

variable {tokens : List Token} (hended : Ended tokens) (program : String)

include hended

/-- Without a limit, no sequence is given up for its depth. -/
theorem not_tooDeep_parseUnbounded : ¬ TooDeep (parseUnbounded tokens program) := by
  obtain ⟨finish, hverdicts⟩ := exists_verdicts hended
  rw [(hverdicts program).2]
  intro hdeep
  exact (Parser.exists_passed_unbounded (body tokens)).1 (Run.tooDeep_verdict_iff.mp hdeep)

/-- **What a limit does**: either the unbounded parser has no more groups open at once than that, and then the results
are the same, or it has, and then the sequence is given up for its depth. -/
theorem parse_cases : ∃ passed, body tokens = passed ++ (Parser.unbounded.run (body tokens)).rest ∧ ∀ limit,
    (nesting passed ≤ limit ∧ ¬ TooDeep (parse tokens program limit) ∧
      parse tokens program limit = parseUnbounded tokens program) ∨
    limit < nesting passed ∧ TooDeep (parse tokens program limit) := by
  obtain ⟨finish, hverdicts⟩ := exists_verdicts hended
  obtain ⟨hwithin, hunbounded⟩ := hverdicts program
  obtain ⟨_, passed, hpassed, _⟩ := Parser.exists_passed_unbounded (body tokens)
  refine ⟨passed, hpassed, fun limit => ?_⟩
  obtain ⟨front, hfront, _, hcase⟩ := Parser.bounded_nested (limit + 1) (body tokens)
  cases List.append_cancel_right (hfront.symm.trans hpassed)
  rcases hcase with ⟨hsame, _, hlt⟩ | ⟨hbroken, hle⟩
  · have heq : parse tokens program limit = parseUnbounded tokens program := by
      rw [hwithin, hunbounded, hsame]
    refine Or.inl ⟨Nat.le_of_lt_succ hlt, ?_, heq⟩
    rw [heq]
    exact not_tooDeep_parseUnbounded hended program
  · refine Or.inr ⟨hle, ?_⟩
    rw [hwithin]
    exact Run.tooDeep_verdict_iff.mpr hbroken

/-- More opening parentheses at the start than groups may be open are too many, whatever follows. -/
theorem tooDeep_of_openings {limit : Nat} {openings rest : List Token} (htokens : tokens = openings ++ rest)
    (hopen : ∀ t ∈ openings, t.kind = .openRound) (hlt : limit < openings.length) :
    TooDeep (parse tokens program limit) := by
  obtain ⟨finish, hverdicts⟩ := exists_verdicts hended
  rw [(hverdicts program).1]
  apply Run.tooDeep_verdict_iff.mpr
  rw [htokens, body_openings rest hopen]
  exact Parser.nested_openings (limit + 1) (body rest) hopen hlt

end Limit

/-- **The limit only ever replaces an outcome by its own diagnostic, and only for deep nesting.** For a sequence that
ends in an end token, the parser without a limit has passed some tokens when it accepts or fails. With a limit, the
sequence is given up for its depth exactly if more groups than that are open at once along those tokens; otherwise the
result is the same as without. So a greater limit changes no other result, parts that close their groups can follow each
other in any number, and more opening parentheses at the start are too many, whatever follows. -/
theorem limit_replaces_only_depth {tokens : List Token} (hended : Ended tokens) (program : String) :
    (∀ p, Parser.expression p = p ↔ p = Parser.unbounded) ∧ ¬ TooDeep (parseUnbounded tokens program) ∧
    ∃ passed, body tokens = passed ++ (Parser.unbounded.run (body tokens)).rest ∧ ∀ limit,
      (TooDeep (parse tokens program limit) ↔ limit < nesting passed) ∧
      (¬ TooDeep (parse tokens program limit) →
        parse tokens program limit = parseUnbounded tokens program ∧
        ∀ greater, limit ≤ greater → parse tokens program greater = parse tokens program limit) ∧
      (∀ parts : List (List Token), body tokens = parts.flatten →
        (∀ part ∈ parts, Balanced part ∧ nesting part ≤ limit) → ¬ TooDeep (parse tokens program limit)) ∧
      ∀ openings rest, tokens = openings ++ rest → (∀ t ∈ openings, t.kind = .openRound) →
        limit < openings.length → TooDeep (parse tokens program limit) := by
  obtain ⟨passed, hpassed, hcases⟩ := parse_cases hended program
  have hknot : ∀ p, Parser.expression p = p ↔ p = Parser.unbounded :=
    fun p => ⟨Parser.eq_unbounded, fun h => h ▸ Parser.expression_unbounded⟩
  have hiff : ∀ limit, TooDeep (parse tokens program limit) ↔ limit < nesting passed := by
    intro limit
    rcases hcases limit with ⟨hle, hnot, _⟩ | ⟨hlt, hdeep⟩
    · exact iff_of_false hnot (Nat.not_lt.mpr hle)
    · exact iff_of_true hdeep hlt
  have hsame : ∀ limit, nesting passed ≤ limit →
      parse tokens program limit = parseUnbounded tokens program := by
    intro limit hle
    rcases hcases limit with ⟨_, _, heq⟩ | ⟨hlt, _⟩
    · exact heq
    · exact absurd hle (Nat.not_le.mpr hlt)
  refine ⟨hknot, not_tooDeep_parseUnbounded hended program, passed, hpassed, fun limit =>
    ⟨hiff limit, ?_, ?_, fun openings rest => tooDeep_of_openings hended program⟩⟩
  · intro hnot
    have hle : nesting passed ≤ limit := Nat.not_lt.mp (mt (hiff limit).mpr hnot)
    refine ⟨hsame limit hle, fun greater hgreater => ?_⟩
    rw [hsame greater (Nat.le_trans hle hgreater), hsame limit hle]
  · intro parts hparts hall
    have hbody := nesting_flatten_le hall
    rw [← hparts, hpassed] at hbody
    have hle := Nat.le_trans (nestingFrom_le_append 0 passed _) hbody
    exact mt (hiff limit).mp (Nat.not_lt.mpr hle)

/-- Two groups that are left open are too many for one, and with two the diagnostic is that without a limit. -/
theorem limit_at_two_open_groups :
    Ended ([Kind.openRound, .openRound, .identifier, .finish].map ofKind) ∧
      TooDeep (parse ([Kind.openRound, .openRound, .identifier, .finish].map ofKind) "" 1) ∧
      ¬ TooDeep (parse ([Kind.openRound, .openRound, .identifier, .finish].map ofKind) "" 2) ∧
      parse ([Kind.openRound, .openRound, .identifier, .finish].map ofKind) "" 2 =
        parseUnbounded ([Kind.openRound, .openRound, .identifier, .finish].map ofKind) "" := by
  have hended : Ended ([Kind.openRound, .openRound, .identifier, .finish].map ofKind) := ⟨ofKind .finish, rfl, rfl⟩
  have hrest : (Parser.unbounded.run (body ([Kind.openRound, .openRound, .identifier, .finish].map ofKind))).rest =
      [] := by
    with_unfolding_all rfl
  obtain ⟨_, _, passed, hpassed, hlimit⟩ := limit_replaces_only_depth hended ""
  rw [hrest, List.append_nil] at hpassed
  have hnesting : nesting passed = 2 := hpassed ▸ rfl
  have hone := (hlimit 1).1.mpr (by omega)
  have htwo := mt (hlimit 2).1.mp (by omega)
  exact ⟨hended, hone, htwo, ((hlimit 2).2.1 htwo).1⟩

end ArrayExpr
