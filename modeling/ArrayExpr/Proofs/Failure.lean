import ArrayExpr.Proofs.Grammar.Recognition
import ArrayExpr.Proofs.Parser.Course
import ArrayExpr.Proofs.Parser.Rejection
import ArrayExpr.Proofs.Token.Offence

/-!
# How an analysis can fail

A program has an expression, or it is refused for its text or for its tokens, and each diagnostic has a message and so a
report (`analyze_fails_as_documented`). Nothing else can go wrong: whatever name is looked up, it is that of a kind
(`scanLine_ne_unknownKind`), the tokens of a program end in their only end token, and in all steps of reading the cursor
stands at a token, and looks back only at one that it has accepted (`SafeSteps`).
-/

namespace ArrayExpr

open Token Cursor

/-! ## Diagnostics -/

/-- The diagnostic on a fault has a message. -/
theorem Fault.exists_message (fault : Fault) (program : String) (got : Token) :
    ∃ message, (fault.diagnose program got).message? = some message := by
  cases fault with
  | noOperand =>
    unfold Diagnostic.message? diagnose
    dsimp only
    cases got.isFinish <;> exact ⟨_, rfl⟩
  | unclosed => exact ⟨_, rfl⟩
  | tooDeep => exact ⟨_, rfl⟩

theorem Run.exists_message_of_verdict {program : String} {finish : Token} {r : Run Tree} {d : Diagnostic}
    (h : r.verdict program finish = .error d) : ∃ message, d.message? = some message := by
  rcases verdict_eq_error_iff.mp h with ⟨fault, _, rfl⟩ | ⟨_, got, _, _, _, rfl⟩
  · exact fault.exists_message program _
  · exact ⟨_, rfl⟩

theorem exists_message_of_tokenize {program : String} {failure : Failure} (h : tokenize program = .error failure) :
    ∃ d message, failure = .lexical d ∧ d.message? = some message := by
  obtain ⟨c, span, _, rfl⟩ := tokenize_eq_error_iff.mp h
  exact ⟨_, _, rfl, rfl⟩

theorem Diagnostic.report?_of_message {d : Diagnostic} {message : String} (h : d.message? = some message) :
    d.report? = some (d.reportWith message d.remark) := by
  rw [report?, h]
  rfl

/-- A token that is named as the one found is the first one left, or else the first end token. -/
theorem mem_of_rest_suffix {tokens rest : List Token} {finish : Token} (hrest : rest <:+ body tokens)
    (hfinish : tokens.find? (·.isFinish) = some finish) : rest.head?.getD finish ∈ tokens := by
  cases rest with
  | nil => exact List.mem_of_find?_eq_some hfinish
  | cons got rest => exact (List.takeWhile_sublist _).subset (hrest.subset List.mem_cons_self)

/-- What can be wrong with ended tokens: a diagnostic that names one of them and has a message. -/
theorem exists_diagnostic_of_parse_error {tokens : List Token} (hended : Ended tokens) {program : String} {limit : Nat}
    {failure : Failure} (h : parse tokens program limit = .error failure) :
    ∃ d got message, failure = .syntactic d ∧ d.problem.got? = some got ∧ got ∈ tokens ∧
      d.message? = some message := by
  obtain ⟨finish, hfinish, hparse⟩ := parse_of_ended hended
  rw [hparse] at h
  obtain ⟨d, hverdict, rfl⟩ := exists_of_mapError_eq_error h
  obtain ⟨message, hmessage⟩ := Run.exists_message_of_verdict hverdict
  have hsuffix := (Parser.ofRule limit .expression).rest_suffix (body tokens)
  exact ⟨d, _, message, rfl, Run.got?_of_verdict_eq_error hverdict, mem_of_rest_suffix hsuffix hfinish, hmessage⟩

/-! ## Steps -/

/-- Safe steps: before and after each of them the cursor stands at a token of the sequence, and where they look
back, they have just accepted a token and see that one. -/
structure SafeSteps (tokens : List Token) (program : String) (limit : Nat) (start : Cursor) (steps : List Step) :
    Prop where
  in_range : ∀ taken rest, steps = taken ++ rest →
    tokens[(start.after program taken limit).position]? = some (start.after program taken limit).peek
  previous_accepted : ∀ taken rest, steps = taken ++ .previous :: rest → ∃ before kinds,
    taken = before ++ [.accept kinds] ∧
    (start.after program before limit).accept kinds = (true, start.after program taken limit) ∧
    (start.after program taken limit).position = (start.after program before limit).position + 1 ∧
    (start.after program taken limit).previous = (start.after program before limit).peek

/-- **The steps of every course are safe**, from the start of any sequence. -/
theorem Course.safeSteps {tokens : List Token} {start : Cursor} (hstart : Cursor.ofTokens tokens = some start)
    {program : String} {limit : Nat} {task : Task} {steps : List Step} {stop : Cursor}
    {result : Except Diagnostic (List Tree)} (h : Course program limit task start steps stop result) :
    SafeSteps tokens program limit start steps where
  in_range taken _ _ := ((standsIn_of_ofTokens hstart).after program limit taken).getElem?_position
  previous_accepted taken rest hsteps := by
    have hlooks : LooksBack program limit start steps := h.looksBack
    rw [hsteps] at hlooks
    obtain ⟨before, kinds, htaken, haccept⟩ := hlooks.exists_accept
    obtain ⟨hposition, hprevious⟩ := previous_of_accept haccept
    exact ⟨before, kinds, htaken, haccept, hposition, hprevious⟩

/-- The expression at the start of a sequence is read by a course, and every such course is safe up to where it
stops. -/
theorem reads_in_safeSteps {tokens : List Token} {start : Cursor} (hstart : Cursor.ofTokens tokens = some start)
    (program : String) (limit : Nat) :
    (∃ steps, Course program limit (.node .expression) start steps
      (start.read program (Parser.ofRule limit .expression)).2
      ((start.read program (Parser.ofRule limit .expression)).1.result.map ([·]))) ∧
    ∀ steps stop result, Course program limit (.node .expression) start steps stop result →
      SafeSteps tokens program limit start steps ∧ tokens[stop.position]? = some stop.peek := by
  refine ⟨exists_course program limit .expression start, fun steps stop result hcourse => ?_⟩
  have hsafe := hcourse.safeSteps hstart
  have hstop := hsafe.in_range steps [] (List.append_nil steps).symm
  rw [hcourse.after_eq] at hstop
  exact ⟨hsafe, hstop⟩

/-! ## Names of kinds -/

/-- A lexeme follows the pattern of its first character, whose name is looked up: its kind is found. -/
theorem Lexeme.exists_pattern {kind : Kind} {text : List Char} (h : Lexeme kind text) :
    ∃ c cs pattern, text = c :: cs ∧ Lexer.pattern? c = some pattern ∧ Kind.ofName pattern.name = .ok kind := by
  obtain ⟨c, cs, htext, hbegun, _⟩ := h.exists_cons
  obtain ⟨pattern, hpattern, hname, _⟩ := Lexer.pattern?_of_begunBy? hbegun
  exact ⟨c, cs, pattern, htext, hpattern, hname ▸ kind.ofName_name⟩

/-- No line is refused for a name of which there is no kind. -/
theorem scanLine_ne_unknownKind (debug : Bool) (program line : String) (number : Int) (error : Kind.LookupError) :
    (scanLine debug program line number).result ≠ .error (.unknownKind error) := by
  intro h
  have hresult : (scanLine debug program line number).result = (Lexer.readLine number 0 line.toList).result program := by
    cases debug <;> rfl
  rw [hresult, Reading.result] at h
  cases ho : (Lexer.readLine number 0 line.toList).offence with
  | none =>
    rw [ho] at h
    cases h
  | some o =>
    obtain ⟨c, span, rfl, _⟩ := Lexer.of_offence_readLine ho
    rw [ho] at h
    cases h

/-! ## The analysis -/

/-- The tokens of a program end in their only end token. Before it each token follows a pattern whose name is looked up,
and is of the kind that is found. -/
theorem exists_only_end {program : String} {tokens : List Token} (h : tokenize program = .ok tokens) :
    ∃ front finish, tokens = front ++ [finish] ∧ finish.isFinish = true ∧ ∀ t ∈ front, t.isFinish = false ∧
      ∃ c cs pattern, t.text.toList = c :: cs ∧ Lexer.pattern? c = some pattern ∧
        Kind.ofName pattern.name = .ok t.kind := by
  obtain ⟨front, finish, hsplit, htiling, hnone, _, _, _, rfl⟩ := tiling_of_tokenize h
  exact ⟨front, _, hsplit, rfl, fun t ht => ⟨hnone t ht, (htiling.lexeme t ht).exists_pattern⟩⟩

/-- **What an analysis comes to**: an expression, or a diagnostic with a report, on the text or on one of the tokens. -/
theorem analyze_cases (program : String) (limit : Nat) :
    (∃ parts span, analyze program limit = .ok (.node .expression parts span)) ∨
    (∃ d message, analyze program limit = .error (.lexical d) ∧ tokenize program = .error (.lexical d) ∧
      d.message? = some message ∧ d.report? = some (d.reportWith message d.remark)) ∨
    ∃ tokens d got message, analyze program limit = .error (.syntactic d) ∧ tokenize program = .ok tokens ∧
      d.problem.got? = some got ∧ got ∈ tokens ∧ d.message? = some message ∧
      d.report? = some (d.reportWith message d.remark) := by
  cases htokens : tokenize program with
  | error failure =>
    obtain ⟨d, message, rfl, hmessage⟩ := exists_message_of_tokenize htokens
    have hreport := Diagnostic.report?_of_message hmessage
    exact Or.inr (Or.inl ⟨d, message, analyze_eq_lexical_iff.mpr htokens, rfl, hmessage, hreport⟩)
  | ok tokens =>
    rw [analyze_of_tokenize htokens]
    cases hparse : parse tokens program limit with
    | ok t =>
      obtain ⟨hd, _⟩ := derivation_of_parse hparse
      cases hd with
      | expression hparts => exact Or.inl ⟨_, _, rfl⟩
    | error failure =>
      have hended := (tiling_body htokens).1
      obtain ⟨d, got, message, rfl, hgot, hmem, hmessage⟩ := exists_diagnostic_of_parse_error hended hparse
      have hreport := Diagnostic.report?_of_message hmessage
      exact Or.inr (Or.inr ⟨tokens, d, got, message, rfl, rfl, hgot, hmem, hmessage, hreport⟩)

/-- **An analysis fails only in two ways.** A program has an expression; or its text is refused, or its tokens are, with
a diagnostic that has a message, and in the second case names one of the tokens. It never fails for a name that is
looked up: units of text follow patterns, and apart from blanks and what is refused, the name of each pattern is that of
a kind. The tokens of a program end in their only end token, those before it are of the kinds that are found by the
names of the patterns they follow, and the expression is read in safe steps. -/
theorem analyze_fails_as_documented (program : String) (limit : Nat) :
    ((∃ parts span, analyze program limit = .ok (.node .expression parts span)) ∨
      (∃ d message, analyze program limit = .error (.lexical d) ∧ tokenize program = .error (.lexical d) ∧
        d.message? = some message ∧ d.report? = some (d.reportWith message d.remark)) ∨
      ∃ tokens d got message, analyze program limit = .error (.syntactic d) ∧ tokenize program = .ok tokens ∧
        d.problem.got? = some got ∧ got ∈ tokens ∧ d.message? = some message ∧
        d.report? = some (d.reportWith message d.remark)) ∧
    (∀ c pattern, Lexer.pattern? c = some pattern →
      pattern.name = "SPACE" ∨ pattern.name = "ERROR" ∨ ∃ kind, Kind.ofName pattern.name = .ok kind) ∧
    (∀ debug line number error, (scanLine debug program line number).result ≠ .error (.unknownKind error)) ∧
    ∀ tokens, tokenize program = .ok tokens →
      (∃ front finish, tokens = front ++ [finish] ∧ finish.isFinish = true ∧ ∀ t ∈ front, t.isFinish = false ∧
        ∃ c cs pattern, t.text.toList = c :: cs ∧ Lexer.pattern? c = some pattern ∧
          Kind.ofName pattern.name = .ok t.kind) ∧
      ∃ start, Cursor.ofTokens tokens = some start ∧
        (∃ steps, Course program limit (.node .expression) start steps
          (start.read program (Parser.ofRule limit .expression)).2
          ((start.read program (Parser.ofRule limit .expression)).1.result.map ([·]))) ∧
        ∀ steps stop result, Course program limit (.node .expression) start steps stop result →
          SafeSteps tokens program limit start steps ∧ tokens[stop.position]? = some stop.peek := by
  refine ⟨analyze_cases program limit, fun _ _ => Lexer.Pattern.known_of_pattern?, fun debug line number error =>
    scanLine_ne_unknownKind debug program line number error, fun tokens htokens => ⟨exists_only_end htokens, ?_⟩⟩
  rcases Cursor.ofTokens_cases tokens with ⟨hended, _⟩ | ⟨_, start, hstart, _⟩
  · exact absurd (tiling_body htokens).1 hended
  · exact ⟨start, hstart, reads_in_safeSteps hstart program limit⟩

end ArrayExpr
