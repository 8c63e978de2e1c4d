import ArrayExpr.Proofs.Token.Layout

/-!
# What is recorded while a text is read

If asked to, `scan` records each token that it reads. Up to the first illegal character, a text is read as if it ended
there: no lexeme reaches over that character, separators before it are skipped to the same places, and a carriage return
in front of it is a break by itself (`Lexer.tokens_readText_append`). So the record of a text that is refused is that of
its legal front, without the end token that the front has by itself (`recorded_up_to_illegal`).
-/

namespace ArrayExpr

open Text

/-! ## Cut texts -/

namespace Lexer

/-- An illegal character ends what is read: the tokens are those of the text before it, from every place on. -/
theorem tokens_readText_append {c : Char} (hc : Illegal c) (before after : List Char) (number : Int) (col : Nat) :
    (readText number col (before ++ c :: after)).tokens = (readText number col before).tokens := by
  obtain ⟨hbegun, hseparator⟩ := illegal_iff.mp hc
  induction before using byLexemes generalizing number col with
  | nil =>
    rw [List.nil_append, readText_illegal number col hc, readText, lines_nil, List.headD_nil, readLine]
    rfl
  | other b rest hb ih =>
    cases hseparates : isSeparator b with
    | false =>
      have hillegal := illegal_iff.mpr ⟨hb, hseparates⟩
      rw [List.cons_append, readText_illegal number col hillegal, readText_illegal number col hillegal]
    | true =>
      -- the next character decides where the rest is read, and the illegal one is no line feed
      have hplace : behindSeparator number col b (rest ++ c :: after).head? =
          behindSeparator number col b rest.head? := by
        cases rest with
        | nil =>
          have hfeed : c ≠ '\n' := by
            rintro rfl
            exact absurd hseparator (by decide)
          simp [behindSeparator, hfeed]
        | cons d rest => rfl
      rw [List.cons_append, readText_separator number col hseparates, readText_separator number col hseparates, hplace]
      exact ih _ _
  | lexeme kind text rest hlexeme hends ih =>
    have hends' := hends.append_cons hbegun after
    rw [List.append_assoc, readText_lexeme number col hlexeme hends', readText_lexeme number col hlexeme hends]
    exact congrArg (_ :: ·) (ih _ _)

end Lexer

/-! ## Records -/

/-- To record tokens changes no result. -/
theorem result_scan (debug : Bool) (program : String) : (scan debug program).result = tokenize program := by
  cases debug <;> rfl

theorem events_of_tokenize_ok {program : String} {tokens : List Token} (h : tokenize program = .ok tokens) :
    (scan true program).events = tokens.map .token := by
  obtain ⟨hnone, rfl⟩ := tokenize_eq_ok_iff.mp h
  show (Lexer.read program).tokens.map Event.token = _
  rw [Lexer.read, Reading.append_of_offence_eq_none hnone]

/-- What is recorded of a text that is refused: the tokens up to the offence, and no end token. -/
theorem events_of_tokenize_error {program : String} {failure : Failure} (h : tokenize program = .error failure) :
    (scan true program).events = (Lexer.readText 1 0 program.toList).tokens.map .token := by
  obtain ⟨_, _, ho, _⟩ := tokenize_eq_error_iff.mp h
  show (Lexer.read program).tokens.map Event.token = _
  rw [Lexer.read, Reading.append_of_offence_eq_some ho, Lexer.readLines_lines]

/-- A text without illegal characters has tokens, and these end in their only end token. -/
theorem exists_tokens_of_legal {program : String} (h : ∀ c ∈ program.toList, ¬ Illegal c) :
    ∃ tokens finish, tokenize program = .ok (tokens ++ [finish]) ∧ finish.isFinish = true ∧
      (∀ t ∈ tokens, t.isFinish = false) ∧ tokens = (Lexer.readText 1 0 program.toList).tokens := by
  cases htokens : tokenize program with
  | error failure =>
    obtain ⟨c, hmem, hc⟩ := (exists_tokenize_eq_error_iff program).mp ⟨failure, htokens⟩
    exact absurd hc (h c hmem)
  | ok tokens =>
    obtain ⟨hnone, rfl⟩ := tokenize_eq_ok_iff.mp htokens
    refine ⟨_, _, rfl, rfl, (Lexer.tiling_readLines hnone).isFinish_eq_false, ?_⟩
    rw [Lexer.readLines_lines]

/-- **What is recorded up to an illegal character is what the text before it has.** The text in front of the first
illegal character has tokens. If the whole text is read with a record, then it is refused for that character, and
recorded are the tokens of the front in their order, with their places, but for the end token. Of a text without
illegal characters all tokens are recorded in their order, the end token as the last one. -/
theorem recorded_up_to_illegal :
    (∀ (program : String) (before : List Char) (c : Char) (after : List Char),
      program.toList = before ++ c :: after → (∀ b ∈ before, ¬ Illegal b) → Illegal c →
      ∃ tokens finish d, tokenize (String.ofList before) = .ok (tokens ++ [finish]) ∧ finish.isFinish = true ∧
        (∀ t ∈ tokens, t.isFinish = false) ∧ (scan true program).result = .error (.lexical d) ∧
        d.problem = .unexpectedCharacter (String.singleton c) ∧ (scan true program).events = tokens.map .token) ∧
    ∀ program : String, (∀ c ∈ program.toList, ¬ Illegal c) →
      ∃ tokens finish, (scan true program).result = .ok (tokens ++ [finish]) ∧
        tokenize program = .ok (tokens ++ [finish]) ∧ finish.isFinish = true ∧ (∀ t ∈ tokens, t.isFinish = false) ∧
        (scan true program).events = (tokens ++ [finish]).map .token := by
  constructor
  · intro program before c after hsplit hlegal hc
    obtain ⟨rows, row, _, hrefused⟩ := exists_tokenize_eq_error hlegal hc
    have herror := (hrefused program after hsplit).1
    rw [← String.toList_ofList (l := before)] at hlegal
    obtain ⟨tokens, finish, htokens, hfinish, hbody, hread⟩ := exists_tokens_of_legal hlegal
    refine ⟨tokens, finish, _, htokens, hfinish, hbody, (result_scan true program).trans herror, rfl, ?_⟩
    rw [events_of_tokenize_error herror, hsplit, Lexer.tokens_readText_append hc, hread, String.toList_ofList]
  · intro program hlegal
    obtain ⟨tokens, finish, htokens, hfinish, hbody, _⟩ := exists_tokens_of_legal hlegal
    exact ⟨tokens, finish, (result_scan true program).trans htokens, htokens, hfinish, hbody,
      events_of_tokenize_ok htokens⟩

/-- A carriage return in front of an illegal character ends the line of the name before it, in the cut text as well. -/
theorem recorded_before_hash : ∃ tokens finish d, tokenize "ab\r" = .ok (tokens ++ [finish]) ∧
    finish.isFinish = true ∧ (scan true "ab\r# c").result = .error (.lexical d) ∧
    (scan true "ab\r# c").events = tokens.map .token ∧
    tokens.map .token = [Event.token ⟨"ab", .identifier, .onLine 1 0 2⟩] := by
  have hall : ['a', 'b', '\r'].all (fun b => !decide (Illegal b)) = true := by decide +kernel
  have hlegal : ∀ b ∈ ['a', 'b', '\r'], ¬ Illegal b := by
    intro b hb
    simpa using List.all_eq_true.mp hall b hb
  have hc : Illegal '#' := by decide +kernel
  obtain ⟨tokens, finish, d, htokens, hfinish, _, hrefused, _, hevents⟩ :=
    recorded_up_to_illegal.1 "ab\r# c" ['a', 'b', '\r'] '#' [' ', 'c'] rfl hlegal hc
  have hrecord : (scan true "ab\r# c").events = [.token ⟨"ab", .identifier, .onLine 1 0 2⟩] := by decide +kernel
  exact ⟨tokens, finish, d, htokens, hfinish, hrefused, hevents, hevents.symm.trans hrecord⟩

end ArrayExpr
