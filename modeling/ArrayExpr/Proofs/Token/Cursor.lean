import ArrayExpr.Analysis

/-!
# Cursors and token sequences

A cursor can be put at the start of a sequence exactly if the sequence ends in an end token (`Token.Ended`). What is
ahead of it then are the tokens before the first end token (`Token.body`). What a parse gives follows from the run over
those tokens and from the first end token (`Run.verdict`, `parse_result`): it succeeds exactly if an expression is read
and nothing is left (`parse_eq_ok_iff`), and it never looks beyond the first end token (`parse_append_cons`).
-/

namespace ArrayExpr

namespace Token

/-- The tokens before the first end token. -/
def body (tokens : List Token) : List Token := tokens.takeWhile (!·.isFinish)

/-- The sequence ends in an end token. -/
def Ended (tokens : List Token) : Prop := ∃ last ∈ tokens.getLast?, last.isFinish = true

theorem ended_append_cons (front : List Token) (t : Token) (rest : List Token) :
    Ended (front ++ t :: rest) ↔ Ended (t :: rest) := by
  rw [Ended, Ended, List.getLast?_append, List.getLast?_cons, Option.some_or]

theorem ended_cons_iff (t : Token) (rest : List Token) : Ended (t :: rest) ↔ (rest.getLastD t).isFinish = true := by
  rw [Ended, List.getLast?_cons]
  simp

theorem body_append {front rest : List Token} {finish : Token} (hfront : ∀ t ∈ front, t.isFinish = false)
    (hfinish : finish.isFinish = true) : body (front ++ finish :: rest) = front := by
  rw [body, List.takeWhile_append_of_pos fun t ht => by simp [hfront t ht],
    List.takeWhile_cons_of_neg (by simp [hfinish]), List.append_nil]

end Token

open Token

/-- What is said of a run over the tokens before an end token: the tree, if it takes them all, and otherwise what is
wrong at the first token left. -/
def Run.verdict (program : String) (finish : Token) (r : Run Tree) : Except Diagnostic Tree :=
  let got := r.rest.head?.getD finish
  match r.outcome with
  | .error fault => .error (fault.diagnose program got)
  | .ok tree =>
    if r.rest.isEmpty then .ok tree
    else .error { program, span := got.span, problem := .trailingTokens got }

/-- A tree is the verdict exactly if it was read and nothing is left. -/
theorem Run.verdict_eq_ok_iff {program : String} {finish : Token} {r : Run Tree} {t : Tree} :
    r.verdict program finish = .ok t ↔ r.outcome = .ok t ∧ r.rest = [] := by
  unfold verdict
  cases r.outcome with
  | error fault => simp
  | ok u =>
    cases r.rest with
    | nil => simp
    | cons => simp

namespace Cursor

/-- **Where a cursor can start**: before the first token of a sequence that ends in an end token. -/
theorem ofTokens_cases (tokens : List Token) :
    (¬ Ended tokens ∧ ofTokens tokens = none) ∨
    (Ended tokens ∧ ∃ c, ofTokens tokens = some c ∧ c.passed = [] ∧ c.ahead = body tokens ∧
      tokens = body tokens ++ c.finish :: c.beyond) := by
  have hsplit := (List.takeWhile_append_dropWhile (p := (!·.isFinish)) (l := tokens)).symm
  unfold ofTokens
  dsimp only
  split
  · next hnil =>
    refine Or.inl ⟨?_, rfl⟩
    rintro ⟨last, hlast, hfinish⟩
    rw [hnil, List.append_nil] at hsplit
    rw [hsplit] at hlast
    have := List.all_eq_true.mp List.all_takeWhile last (List.mem_of_getLast? hlast)
    simp [hfinish] at this
  · next finish beyond hcons =>
    rw [hcons] at hsplit
    have hended : Ended tokens ↔ (beyond.getLastD finish).isFinish = true := by
      rw [hsplit, ended_append_cons, ended_cons_iff]
    split
    · next hlast => exact Or.inr ⟨hended.mpr hlast, _, rfl, rfl, rfl, hsplit⟩
    · next hlast => exact Or.inl ⟨fun h => hlast (hended.mp h), rfl⟩

theorem ahead_forward (c : Cursor) {rest : List Token} (h : rest <:+ c.ahead) :
    (c.forward (c.ahead.length - rest.length)).ahead = rest :=
  (List.suffix_iff_eq_drop.mp h).symm

/-- The result of a parse is the verdict on the run over the tokens ahead. -/
theorem parse_result (c : Cursor) (program : String) (limit : Nat) :
    (c.parse program limit).result =
      ((Parser.ofRule limit .expression).run c.ahead).verdict program c.finish := by
  have hahead := c.ahead_forward ((Parser.ofRule limit .expression).rest_suffix c.ahead)
  unfold parse read Run.verdict
  dsimp only
  cases ((Parser.ofRule limit .expression).run c.ahead).outcome with
  | error fault =>
    rw [peek, hahead]
    rfl
  | ok t =>
    simp only [isAtEnd, peek, hahead]
    rfl

end Cursor

/-! ## Parsing a sequence -/

/-- What is made of an error does not matter to a success. -/
theorem mapError_eq_ok_iff {f : ε → ε'} {x : Except ε α} {a : α} : x.mapError f = .ok a ↔ x = .ok a := by
  cases x with
  | error e =>
    show Except.error (f e) = Except.ok a ↔ _
    simp
  | ok b =>
    show Except.ok b = Except.ok a ↔ _
    rw [Except.ok.injEq, Except.ok.injEq]

/-- What is known of a success says that there is one. -/
theorem exists_ok_of_toOption_map {x : Except ε α} {f : α → β} {b : β} (h : x.toOption.map f = some b) :
    ∃ a, x = .ok a ∧ f a = b := by
  cases x with
  | error e => cases h
  | ok a => exact ⟨a, rfl, Option.some.inj h⟩

/-- A result is an error if that error is found in it. -/
theorem eq_error_of_match {x : Except ε α} {e : ε} (h : (match x with | .error e => some e | .ok _ => none) = some e) :
    x = .error e := by
  cases x with
  | error e' =>
    cases h
    rfl
  | ok a => cases h

theorem parse_of_not_ended {tokens : List Token} (h : ¬ Ended tokens) (program : String) (limit : Nat) :
    parse tokens program limit = .error .unended := by
  rcases Cursor.ofTokens_cases tokens with ⟨_, hnone⟩ | ⟨hended, _⟩
  · rw [parse, parseTraced, hnone]
  · exact absurd hended h

/-- **The tree of a sequence** that ends in an end token is the verdict on the run over its body. -/
theorem parse_of_ended {tokens : List Token} (h : Ended tokens) : ∃ finish,
    tokens.find? (·.isFinish) = some finish ∧ ∀ program limit, parse tokens program limit =
      (((Parser.ofRule limit .expression).run (body tokens)).verdict program finish).mapError .syntactic := by
  rcases Cursor.ofTokens_cases tokens with ⟨hended, _⟩ | ⟨_, c, hc, _, hahead, htokens⟩
  · exact absurd h hended
  · refine ⟨c.finish, ?_, fun program limit => ?_⟩
    · have hnone : (body tokens).find? (·.isFinish) = none :=
        List.find?_eq_none.mpr fun t ht => by simp [c.ahead_not_finish t (hahead ▸ ht)]
      rw [htokens, List.find?_append, hnone, Option.none_or]
      exact List.find?_cons_of_pos c.finish_isFinish
    · rw [parse, parseTraced, hc, ← hahead, ← c.parse_result]
      rfl

/-- A sequence has a tree exactly if it ends in an end token and its body is read as an expression. -/
theorem parse_eq_ok_iff {tokens : List Token} {program : String} {limit : Nat} {t : Tree} :
    parse tokens program limit = .ok t ↔ Ended tokens ∧
      ((Parser.ofRule limit .expression).run (body tokens)).outcome = .ok t ∧
      ((Parser.ofRule limit .expression).run (body tokens)).rest = [] := by
  by_cases hended : Ended tokens
  · obtain ⟨finish, _, hparse⟩ := parse_of_ended hended
    rw [hparse, ← Run.verdict_eq_ok_iff (r := (Parser.ofRule limit .expression).run (body tokens))]
    rw [mapError_eq_ok_iff]
    exact (and_iff_right hended).symm
  · rw [parse_of_not_ended hended]
    simp [hended]

/-- Tokens beyond the first end token do not matter. -/
theorem parse_append_cons (front : List Token) {finish : Token} {beyond : List Token} (hfinish : finish.isFinish = true)
    (hended : Ended (finish :: beyond)) (program : String) (limit : Nat) :
    parse (front ++ finish :: beyond) program limit = parse (front ++ [finish]) program limit := by
  have hlast : Ended [finish] := ⟨finish, rfl, hfinish⟩
  obtain ⟨first, hfirst, hparse⟩ := parse_of_ended ((ended_append_cons front finish beyond).mpr hended)
  obtain ⟨first', hfirst', hparse'⟩ := parse_of_ended ((ended_append_cons front finish []).mpr hlast)
  rw [List.find?_append, List.find?_cons_of_pos hfinish] at hfirst hfirst'
  have hbody : body (front ++ finish :: beyond) = body (front ++ [finish]) := by
    simp only [body, List.takeWhile_append, List.takeWhile_cons, hfinish, Bool.not_true, Bool.false_eq_true, if_false]
  rw [hparse, hparse', hbody, Option.some.inj (hfirst.symm.trans hfirst')]

/-! ## Analysing a program -/

section

variable {program : String} {limit : Nat}

theorem analyze_of_tokenize {tokens : List Token} (h : tokenize program = .ok tokens) :
    analyze program limit = parse tokens program limit := by
  rw [analyze, h]
  rfl

theorem analyze_of_tokenize_error {failure : Failure} (h : tokenize program = .error failure) :
    analyze program limit = .error failure := by
  rw [analyze, h]
  rfl

/-- A program has a tree exactly if it has tokens and these have the tree. -/
theorem analyze_eq_ok_iff {t : Tree} : analyze program limit = .ok t ↔
    ∃ tokens, tokenize program = .ok tokens ∧ parse tokens program limit = .ok t := by
  cases htokens : tokenize program with
  | error failure => simp [analyze_of_tokenize_error htokens]
  | ok tokens => simp [analyze_of_tokenize htokens]

end

end ArrayExpr
