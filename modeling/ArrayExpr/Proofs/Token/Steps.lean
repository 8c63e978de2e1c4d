import ArrayExpr.Proofs.Grammar.Frontier
import ArrayExpr.Proofs.Token.Cursor

/-!
# Steps at a cursor

Whatever is done at a cursor, it moves some tokens further or stays (`Cursor.exists_perform_eq_forward`). So it keeps
standing in its sequence, at a token that is not behind the first end token (`StandsIn.forward`, `StandsIn.after`), and
it never goes back (`position_le_after`). A step other than reading stays unless it passes a token, and then it passes
one (`perform_cases`); at the end token nothing is passed (`cursor_never_leaves`).
-/

namespace ArrayExpr

open Token

namespace Cursor

/-! ## Moving forward -/

/-- A cursor is what it has passed, what lies ahead, and its end token with all beyond. -/
theorem ext_parts {c d : Cursor} (hpassed : c.passed = d.passed) (hahead : c.ahead = d.ahead)
    (hfinish : c.finish = d.finish) (hbeyond : c.beyond = d.beyond) : c = d := by
  obtain ⟨passed, ahead, finish, beyond, _, _⟩ := c
  obtain ⟨passed', ahead', finish', beyond', _, _⟩ := d
  cases hpassed
  cases hahead
  cases hfinish
  cases hbeyond
  rfl

variable (c : Cursor)

theorem forward_zero : c.forward 0 = c := ext_parts rfl rfl rfl rfl

theorem forward_forward (m n : Nat) : (c.forward m).forward n = c.forward (m + n) := by
  refine ext_parts ?_ List.drop_drop rfl rfl
  show ((c.ahead.drop m).take n).reverse ++ ((c.ahead.take m).reverse ++ c.passed) =
    (c.ahead.take (m + n)).reverse ++ c.passed
  rw [List.take_add, List.reverse_append, List.append_assoc]

theorem forward_of_ahead_nil (h : c.ahead = []) (n : Nat) : c.forward n = c :=
  ext_parts (by simp [forward, h]) (by simp [forward, h]) rfl rfl

theorem passed_forward_one (h : c.isAtEnd = false) : (c.forward 1).passed = c.peek :: c.passed := by
  unfold isAtEnd at h
  cases hahead : c.ahead with
  | nil => simp [hahead] at h
  | cons t rest => simp [forward, peek, hahead]

theorem position_le_forward (n : Nat) : c.position ≤ (c.forward n).position := by
  simp [position, forward]

/-! ## Standing in a sequence -/

variable {c} {tokens : List Token}

/-- The cursor stands in the sequence, and has passed no end token. -/
structure StandsIn (tokens : List Token) (c : Cursor) : Prop where
  tokens_eq : c.tokens = tokens
  passed_not_finish : ∀ t ∈ c.passed, t.isFinish = false

/-- A cursor starts in its sequence. -/
theorem standsIn_of_ofTokens (h : ofTokens tokens = some c) : c.StandsIn tokens := by
  rcases ofTokens_cases tokens with ⟨_, hnone⟩ | ⟨_, c', hc, hpassed, hahead, htokens⟩
  · rw [hnone] at h
    cases h
  · cases hc.symm.trans h
    refine ⟨?_, fun t ht => ?_⟩
    · rw [Cursor.tokens, hpassed, hahead]
      exact htokens.symm
    · rw [hpassed] at ht
      cases ht

namespace StandsIn

/-- It keeps standing there when it moves. -/
theorem forward (h : c.StandsIn tokens) (n : Nat) : (c.forward n).StandsIn tokens := by
  refine ⟨?_, fun t ht => ?_⟩
  · rw [← h.tokens_eq]
    simp [Cursor.tokens, Cursor.forward, List.append_assoc]
  · rcases List.mem_append.mp ht with ht | ht
    · exact c.ahead_not_finish t (List.mem_of_mem_take (List.mem_reverse.mp ht))
    · exact h.passed_not_finish t ht

/-- The token at the cursor is the one at its position. -/
theorem getElem?_position (h : c.StandsIn tokens) : tokens[c.position]? = some c.peek := by
  have hlength : c.position = c.passed.reverse.length := (List.length_reverse ..).symm
  rw [← h.tokens_eq, Cursor.tokens, List.append_assoc, hlength, List.getElem?_append_right (Nat.le_refl _),
    Nat.sub_self, peek]
  cases c.ahead <;> rfl

/-- The tokens ahead are those up to the first end token. -/
theorem findIdx_isFinish (h : c.StandsIn tokens) : tokens.findIdx (·.isFinish) = c.position + c.ahead.length := by
  have hnone : ∀ t ∈ c.passed.reverse ++ c.ahead, t.isFinish = false := by
    intro t ht
    rcases List.mem_append.mp ht with ht | ht
    · exact h.passed_not_finish t (List.mem_reverse.mp ht)
    · exact c.ahead_not_finish t ht
  have hlength : (c.passed.reverse ++ c.ahead).length = c.position + c.ahead.length := by
    rw [List.length_append, List.length_reverse, position]
  rw [← h.tokens_eq, Cursor.tokens, List.findIdx_append, if_neg, List.findIdx_cons, c.finish_isFinish]
  · simpa using hlength
  · rw [List.findIdx_lt_length]
    rintro ⟨t, ht, hfinish⟩
    exact Bool.false_ne_true ((hnone t ht).symm.trans hfinish)

/-- The cursor is at its end where the first end token is, and nowhere behind it. -/
theorem position_le (h : c.StandsIn tokens) : c.position ≤ tokens.findIdx (·.isFinish) := by
  rw [h.findIdx_isFinish]
  exact Nat.le_add_right _ _

theorem isAtEnd_iff (h : c.StandsIn tokens) : c.isAtEnd = true ↔ c.position = tokens.findIdx (·.isFinish) := by
  rw [h.findIdx_isFinish, isAtEnd, List.isEmpty_iff, ← List.length_eq_zero_iff]
  omega

end StandsIn

/-! ## One step -/

/-- The step passes a token, by its result: it advances, or it accepts or expects one and finds it. -/
def Step.passes : Step → Except Diagnostic StepResult → Bool
  | .advance, _ => true
  | .accept _, .ok (.truth found) => found
  | .expect .., .ok _ => true
  | _, _ => false

variable (program : String) (limit : Nat)

/-- What a step does to the cursor: it passes no token and stays, or it passes one and moves by one, or it reads. -/
theorem perform_cases (c : Cursor) (step : Step) :
    (step.passes (c.perform program step limit).1 = false ∧ (c.perform program step limit).2 = c) ∨
    (step.passes (c.perform program step limit).1 = true ∧ (c.perform program step limit).2 = c.forward 1) ∨
    ∃ rule n, step = .read rule ∧ step.passes (c.perform program step limit).1 = false ∧
      (c.perform program step limit).2 = c.forward n := by
  cases step with
  | peek => exact Or.inl ⟨rfl, rfl⟩
  | previous => exact Or.inl ⟨rfl, rfl⟩
  | isAtEnd => exact Or.inl ⟨rfl, rfl⟩
  | check => exact Or.inl ⟨rfl, rfl⟩
  | advance => exact Or.inr (Or.inl ⟨rfl, rfl⟩)
  | accept kinds =>
    by_cases h : kinds.any c.check = true
    · rw [perform, accept, if_pos h]
      exact Or.inr (Or.inl ⟨rfl, rfl⟩)
    · rw [perform, accept, if_neg h]
      exact Or.inl ⟨rfl, rfl⟩
  | expect kind purpose opening =>
    by_cases h : c.check kind = true
    · rw [perform, expect, if_pos h]
      exact Or.inr (Or.inl ⟨rfl, rfl⟩)
    · rw [perform, expect, if_neg h]
      exact Or.inl ⟨rfl, rfl⟩
  | read rule =>
    refine Or.inr (Or.inr ⟨rule, _, rfl, ?_, rfl⟩)
    unfold Step.passes
    rfl

/-- A step moves forward or stays. -/
theorem exists_perform_eq_forward (c : Cursor) (step : Step) : ∃ n, (c.perform program step limit).2 = c.forward n := by
  rcases perform_cases program limit c step with ⟨_, hstay⟩ | ⟨_, hmove⟩ | ⟨_, n, _, _, hread⟩
  · exact ⟨0, hstay.trans c.forward_zero.symm⟩
  · exact ⟨1, hmove⟩
  · exact ⟨n, hread⟩

theorem check_of_isAtEnd (h : c.isAtEnd = true) (kind : Kind) : c.check kind = false := by
  rw [check, List.isEmpty_iff.mp h]
  rfl

/-! ## Any number of steps -/

/-- The cursor after some steps, whether or not they succeed. -/
def after (c : Cursor) (steps : List Step) (limit : Nat := nestingLimit) : Cursor :=
  steps.foldl (fun c step => (c.perform program step limit).2) c

/-- Steps move forward or stay, however many there are. -/
theorem exists_after_eq_forward (c : Cursor) (steps : List Step) : ∃ n, c.after program steps limit = c.forward n := by
  induction steps generalizing c with
  | nil => exact ⟨0, c.forward_zero.symm⟩
  | cons step steps ih =>
    obtain ⟨m, hm⟩ := exists_perform_eq_forward program limit c step
    obtain ⟨n, hn⟩ := ih (c.forward m)
    refine ⟨m + n, ?_⟩
    rw [after, List.foldl_cons, hm, ← c.forward_forward]
    exact hn

theorem position_le_after (c : Cursor) (steps : List Step) : c.position ≤ (c.after program steps limit).position := by
  obtain ⟨n, hn⟩ := exists_after_eq_forward program limit c steps
  rw [hn]
  exact c.position_le_forward n

/-- No steps leave the sequence. -/
theorem StandsIn.after (h : c.StandsIn tokens) (steps : List Step) : (c.after program steps limit).StandsIn tokens := by
  obtain ⟨n, hn⟩ := exists_after_eq_forward program limit c steps
  rw [hn]
  exact h.forward n

end Cursor

open Cursor

/-- Where a cursor stands, and what steps do to it: it stands at a token that is not behind the first end token, and
a step moves it by the token that it passes, if any. At the end token no step moves it and nothing is found. -/
structure Cursor.Lawful (tokens : List Token) (program : String) (limit : Nat) (c : Cursor) : Prop where
  position_le : c.position ≤ tokens.findIdx (·.isFinish)
  getElem?_position : tokens[c.position]? = some c.peek
  isAtEnd_iff : c.isAtEnd = true ↔ c.position = tokens.findIdx (·.isFinish)
  position_le_after : ∀ steps, c.position ≤ (c.after program steps limit).position
  stays : ∀ step, (∀ rule, step ≠ .read rule) → step.passes (c.perform program step limit).1 = false →
    (c.perform program step limit).2 = c
  passes : ∀ step, step.passes (c.perform program step limit).1 = true → c.isAtEnd = false →
    (c.perform program step limit).2.position = c.position + 1
  stays_at_end : c.isAtEnd = true → ∀ step, (c.perform program step limit).2 = c
  check_at_end : c.isAtEnd = true → ∀ kind, (c.perform program (.check kind) limit).1 = .ok (.truth false)
  accept_at_end : c.isAtEnd = true → ∀ kinds, (c.perform program (.accept kinds) limit).1 = .ok (.truth false)
  expect_at_end : c.isAtEnd = true → ∀ kind purpose opening, ∃ d,
    (c.perform program (.expect kind purpose opening) limit).1 = .error d

/-- A cursor that stands in its sequence is lawful. -/
theorem Cursor.StandsIn.lawful {tokens : List Token} {c : Cursor} (h : c.StandsIn tokens) (program : String)
    (limit : Nat) : c.Lawful tokens program limit where
  position_le := h.position_le
  getElem?_position := h.getElem?_position
  isAtEnd_iff := h.isAtEnd_iff
  position_le_after := Cursor.position_le_after program limit c
  stays step hstep hpasses := by
    rcases perform_cases program limit c step with ⟨_, hstay⟩ | ⟨hpasses', _⟩ | ⟨rule, _, hread, _⟩
    · exact hstay
    · exact absurd (hpasses.symm.trans hpasses') Bool.false_ne_true
    · exact absurd hread (hstep rule)
  passes step hpasses hend := by
    rcases perform_cases program limit c step with ⟨hpasses', _⟩ | ⟨_, hmove⟩ | ⟨_, _, _, hpasses', _⟩
    · exact absurd (hpasses'.symm.trans hpasses) Bool.false_ne_true
    · rw [hmove, position, c.passed_forward_one hend]
      rfl
    · exact absurd (hpasses'.symm.trans hpasses) Bool.false_ne_true
  stays_at_end hend step := by
    obtain ⟨n, hn⟩ := exists_perform_eq_forward program limit c step
    rw [hn, c.forward_of_ahead_nil (List.isEmpty_iff.mp hend)]
  check_at_end hend kind := by rw [perform, check_of_isAtEnd hend]
  accept_at_end hend kinds := by
    have hnone : kinds.any c.check = false := by simp [check_of_isAtEnd hend]
    rw [perform, accept, hnone]
    rfl
  expect_at_end hend kind purpose opening := by
    refine ⟨.missingToken program kind purpose opening c.peek, ?_⟩
    rw [perform, expect, check_of_isAtEnd hend]
    rfl

/-- **A cursor never leaves its sequence**: whatever steps are taken from its start, whether or not they succeed. -/
theorem cursor_never_leaves {tokens : List Token} {start : Cursor} (h : Cursor.ofTokens tokens = some start)
    (program : String) (steps : List Step) (limit : Nat) : (start.after program steps limit).tokens = tokens ∧
      (start.after program steps limit).Lawful tokens program limit :=
  have hstands := (standsIn_of_ofTokens h).after program limit steps
  ⟨hstands.tokens_eq, hstands.lawful program limit⟩

/-- A cursor that passes a name, fails to read an expression behind it and goes on does not reach the name behind the
first end token. -/
theorem lawful_before_second_end : ∃ start,
    Cursor.ofTokens ([Kind.identifier, .finish, .identifier, .finish].map ofKind) = some start ∧
      (start.after "" [.advance, .read .expression, .expect .closeRound "" none, .advance]).position ≤ 1 ∧
      (start.after "" [.advance, .read .expression, .expect .closeRound "" none, .advance]).Lawful
        ([Kind.identifier, .finish, .identifier, .finish].map ofKind) "" nestingLimit := by
  have hsome : (Cursor.ofTokens ([Kind.identifier, .finish, .identifier, .finish].map ofKind)).isSome = true := rfl
  obtain ⟨start, hstart⟩ := Option.isSome_iff_exists.mp hsome
  obtain ⟨_, hlawful⟩ := cursor_never_leaves hstart ""
    [.advance, .read .expression, .expect .closeRound "" none, .advance] nestingLimit
  exact ⟨start, hstart, hlawful.position_le, hlawful⟩

end ArrayExpr
