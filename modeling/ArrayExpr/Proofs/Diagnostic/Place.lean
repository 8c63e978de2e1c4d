import ArrayExpr.Proofs.Diagnostic.Highlight
import ArrayExpr.Proofs.Diagnostic.Message
import ArrayExpr.Proofs.Failure
import ArrayExpr.Proofs.Parser.Diagnosis

/-!
# Where reports point

Each token of a program stands at its place in the lines, and the tokens stand in their order. So the place of a
diagnostic lies in the lines of the program, and it covers the illegal character, the token that was found, or what
reaches from the opening bracket of a group that is not closed to the token that was found (`Diagnostic.Points`). The
report then marks exactly the lines of this place and colours exactly what it covers (`report_points_at_place`).
-/

namespace ArrayExpr

open Text Token

/-! ## Diagnostics at their places -/

/-- **What the place of a problem covers**: an illegal character, of which there is none before it; the token that was
found; or what reaches from the innermost bracket that is not matched before that token to the end of the token. -/
inductive Problem.Covers (program : String) : Problem → List (List Char) → Prop
  | character {before after : List Char} {c : Char} : program.toList = before ++ c :: after →
      (∀ b ∈ before, ¬ Illegal b) → Illegal c →
      Covers program (.unexpectedCharacter (String.singleton c)) [[c]]
  | found {tokens : List Token} {got : Token} {problem : Problem} : tokenize program = .ok tokens → got ∈ tokens →
      problem ∈ [.unexpectedEnd got, .unexpectedToken got, .trailingTokens got] →
      Covers program problem [got.text.toList]
  | group {front outer after : List Token} {opening got : Token} {bracket : Bracket} :
      tokenize program = .ok (front ++ got :: after) → unmatched front = opening :: outer →
      opening.kind = bracket.opening →
      Covers program (.expectedToken bracket.closing bracket.purpose got)
        ((opening.span.upTo got.span).portions (lines program.toList))

/-- A diagnostic that points at its place in a program, with one line around it. -/
structure Diagnostic.Points (program : String) (d : Diagnostic) : Prop where
  program_eq : d.program = program
  linesBefore_eq : d.linesBefore = 1
  linesAfter_eq : d.linesAfter = 1
  within : d.span.Within (lines program.toList)
  covers : d.problem.Covers program (d.span.portions (lines program.toList))

/-- A diagnostic on the text is on the first illegal character, at its place in the lines. -/
theorem exists_illegal_of_tokenize_error {program : String} {d : Diagnostic}
    (h : tokenize program = .error (.lexical d)) : ∃ (before : List Char) (c : Char) (after : List Char) (n col : Nat)
      (whole : List Char), program.toList = before ++ c :: after ∧ (∀ b ∈ before, ¬ Illegal b) ∧ Illegal c ∧
      d = .unexpected program c (.onLine (n + 1 : Nat) col (col + 1 : Nat)) ∧
      (lines program.toList)[n]? = some whole ∧ whole[col]? = some c := by
  obtain ⟨before, c, after, hsplit, hlegal, hc⟩ :=
    exists_first_illegal ((exists_tokenize_eq_error_iff program).mp ⟨_, h⟩)
  obtain ⟨rows, row, _, hrefused⟩ := exists_tokenize_eq_error hlegal hc
  obtain ⟨htokenize, whole, hwhole, hcol⟩ := hrefused program after hsplit
  cases h.symm.trans htokenize
  exact ⟨before, c, after, rows.length, row.length, whole, hsplit, hlegal, hc, rfl, hwhole, hcol⟩

/-- A diagnostic on the text points at its place. -/
theorem points_of_tokenize_error {program : String} {d : Diagnostic} (h : tokenize program = .error (.lexical d)) :
    d.Points program := by
  obtain ⟨before, c, after, n, col, whole, hsplit, hlegal, hc, rfl, hwhole, hcol⟩ :=
    exists_illegal_of_tokenize_error h
  have hstands : Span.StandsAt (lines program.toList) (.onLine (n + 1 : Nat) col (col + 1 : Nat)) [c] := by
    obtain ⟨hlt, hget⟩ := List.getElem?_eq_some_iff.mp hcol
    have hcut : whole = whole.take col ++ [c] ++ whole.drop (col + 1) := by
      rw [← hget, List.take_append_getElem, List.take_append_drop]
    refine ⟨n, whole.take col, whole.drop (col + 1), hwhole.trans (congrArg some hcut), ?_⟩
    rw [List.length_take_of_le (Nat.le_of_lt hlt)]
    rfl
  refine ⟨rfl, rfl, rfl, hstands.within, ?_⟩
  show Problem.Covers program _ (Span.portions (.onLine (n + 1 : Nat) col (col + 1 : Nat)) _)
  rw [hstands.portions_eq]
  exact .character hsplit hlegal hc

/-- A diagnostic on a token that was found points at it. -/
theorem points_of_found {program : String} (hne : program ≠ "") {tokens : List Token} {got : Token}
    (htokens : tokenize program = .ok tokens) (hgot : got ∈ tokens) {problem : Problem}
    (hproblem : problem ∈ [.unexpectedEnd got, .unexpectedToken got, .trailingTokens got]) :
    ({ program, span := got.span, problem } : Diagnostic).Points program := by
  have hstands := (tiling_of_tokenize htokens).standsAt (lines_ne_nil hne) hgot
  refine ⟨rfl, rfl, rfl, hstands.within, ?_⟩
  rw [hstands.portions_eq]
  exact .found htokens hgot hproblem

/-- The place of a group that is not closed reaches from its opening bracket to the token that was found. -/
theorem span_of_group {program : String} (hne : program ≠ "") {front after : List Token} {opening got : Token}
    (htokens : tokenize program = .ok (front ++ got :: after)) (hmem : opening ∈ front) (expected : Kind)
    (purpose : String) : opening.span.Before got.span ∧
      (Diagnostic.missingToken program expected purpose (some opening) got).span = opening.span.upTo got.span := by
  have htiling := tiling_of_tokenize htokens
  have hbefore : opening.span.Before got.span :=
    (List.pairwise_append.mp htiling.ordered).2.2 opening hmem got List.mem_cons_self
  have hstands := htiling.standsAt (lines_ne_nil hne) (List.mem_append_left _ hmem)
  have hstands' := htiling.standsAt (lines_ne_nil hne) (List.mem_append_right _ List.mem_cons_self)
  exact ⟨hbefore,
    Span.join_eq_upTo hstands.on_line.1 hstands.on_line.2 hstands'.on_line.1 hstands'.on_line.2 hbefore⟩

/-- A diagnostic on a group that is not closed points at the group. -/
theorem points_of_group {program : String} (hne : program ≠ "") {front outer after : List Token} {opening got : Token}
    {bracket : Bracket} (htokens : tokenize program = .ok (front ++ got :: after))
    (hunmatched : unmatched front = opening :: outer) (hopening : opening.kind = bracket.opening) :
    (Diagnostic.missingToken program bracket.closing bracket.purpose (some opening) got).Points program := by
  have hmem : opening ∈ front := mem_of_mem_unmatched (hunmatched ▸ List.mem_cons_self)
  have htiling := tiling_of_tokenize htokens
  have hstands := htiling.standsAt (lines_ne_nil hne) (List.mem_append_left _ hmem)
  have hstands' := htiling.standsAt (lines_ne_nil hne) (List.mem_append_right _ List.mem_cons_self)
  obtain ⟨hbefore, hspan⟩ := span_of_group hne htokens hmem bracket.closing bracket.purpose
  refine ⟨rfl, rfl, rfl, ?_, ?_⟩
  · rw [hspan]
    exact hstands.within.upTo hstands'.within hbefore
  · rw [hspan]
    exact .group htokens hunmatched hopening

/-- A diagnostic on the tokens points at its place, unless their groups nest too deep. -/
theorem points_of_parse_error {program : String} (hne : program ≠ "") {tokens : List Token}
    (htokens : tokenize program = .ok tokens) {limit : Nat} {d : Diagnostic}
    (h : parse tokens program limit = .error (.syntactic d)) (hdeep : ∀ got, d.problem ≠ .nestingTooDeep got) : d.Points program := by
  obtain ⟨⟨_, front, got, after, frontier, _, _, rfl, _, hreach, _, hrejects⟩⟩ := exists_stop h hdeep
  have hgot : got ∈ front ++ got :: after := List.mem_append_right _ List.mem_cons_self
  cases hrejects with
  | noOperand =>
    refine points_of_found hne htokens hgot ?_
    split <;> simp
  | @unclosed group outer edge hedge =>
    exact points_of_group hne htokens (Frontier.unmatched_of_reach hreach) group.kind_opening
  | trailing => exact points_of_found hne htokens hgot (by simp)

/-- **Every diagnostic of a program points at its place**, unless its groups nest too deep. -/
theorem exists_points_of_analyze {program : String} (hne : program ≠ "") {limit : Nat} {failure : Failure}
    (h : analyze program limit = .error failure)
    (hdeep : ∀ d got, failure = .syntactic d → d.problem ≠ .nestingTooDeep got) :
    ∃ d message, (failure = .lexical d ∨ failure = .syntactic d) ∧ d.Points program ∧ d.message? = some message := by
  cases htokens : tokenize program with
  | error failure =>
    obtain ⟨d, message, rfl, hmessage⟩ := exists_message_of_tokenize htokens
    cases h.symm.trans (analyze_of_tokenize_error htokens)
    exact ⟨d, message, Or.inl rfl, points_of_tokenize_error htokens, hmessage⟩
  | ok tokens =>
    rw [analyze_of_tokenize htokens] at h
    obtain ⟨d, _, message, rfl, _, _, hmessage⟩ := exists_diagnostic_of_parse_error (tiling_body htokens).1 h
    exact ⟨d, message, Or.inr rfl, points_of_parse_error hne htokens h (hdeep d · rfl), hmessage⟩

/-! ## Reports -/

theorem Problem.Covers.hasLinePurpose {program : String} {d : Diagnostic} {texts : List (List Char)}
    (h : d.problem.Covers program texts) : d.HasLinePurpose := by
  intro expected purpose got hproblem
  rw [hproblem] at h
  cases h with
  | found _ _ hmem => simp at hmem
  | @group _ _ _ _ _ bracket => cases bracket <;> decide

namespace Diagnostic

/-- The report on a diagnostic with a message. -/
def toReport (d : Diagnostic) (message : String) : Report :=
  ⟨d.problem.title, message, d.remark, d.linesBefore, d.linesAfter, Quotation.red⟩

open Quotation

variable {program : String} {d : Diagnostic}

/-- The lines that the report on a diagnostic quotes. -/
def quoted (d : Diagnostic) : List QuotedLine := ofProgram d.program d.span d.linesBefore d.linesAfter

theorem Points.exists_line (h : d.Points program) {q : QuotedLine} (hq : q ∈ d.quoted) :
    ∃ line, (lines program.toList)[q.number - 1]? = some line ∧ q.body.Shows line := by
  rw [quoted, h.program_eq] at hq
  obtain ⟨line, hline, hbody⟩ := exists_of_mem_ofProgram h.within.one_le_startLine hq
  exact ⟨line, hline, hbody ▸ LineBody.ofLine_shows _ _ _⟩

/-- **The report on a diagnostic that points at its place**: its lines can be told apart, the marked ones are those of the
place, and the coloured texts are what the place covers. -/
theorem Points.shows (h : d.Points program) {message : String} (hmessage : d.message? = some message) :
    ∃ rows, (d.toReport message).Shows d.quoted rows (d.reportWith message d.remark) ∧
      (d.reportWith message d.remark).toList.splitOn '\n' = ((d.toReport message).lines rows).map String.toList ∧
      (marked d.quoted).map QuotedLine.number =
        List.range' d.span.startLine.toNat (d.span.endLine + 1 - d.span.startLine).toNat ∧
      (marked d.quoted).map (fun q => q.body.within) = d.span.portions (lines program.toList) := by
  have hshows := (d.toReport message).shows_render d.program d.span
  have hbefore : 0 ≤ d.linesBefore := by rw [h.linesBefore_eq]; decide
  have hafter : 0 ≤ d.linesAfter := by rw [h.linesAfter_eq]; decide
  obtain ⟨_, _, hstart, _⟩ := h.within.start
  obtain ⟨_, _, hstop, _⟩ := h.within.stop
  refine ⟨_, hshows, hshows.splitOn_eq ?_ d.isLine_remark (show IsLine red by decide) fun q hq => ?_, ?_, ?_⟩
  · have hcolon : IsLine ": " := by decide
    have hline := isLine_message h.covers.hasLinePurpose hmessage
    simp [toReport, hcolon, hline, d.problem.isLine_title]
  · obtain ⟨line, hline, hbody⟩ := h.exists_line hq
    refine ⟨line, hbody, fun hfeed => ?_⟩
    exact absurd (mem_of_mem_lines (List.mem_of_getElem? hline) hfeed).2 (by decide)
  · rw [quoted, h.program_eq]
    exact map_number_marked h.within.one_le_startLine hbefore hafter h.within.startLine_le h.within.endLine_le
  · rw [quoted, h.program_eq]
    exact map_within_marked h.within.one_le_startLine hbefore hafter h.within.startLine_le hstart hstop

end Diagnostic

open Quotation

/-- **Reports point at the real place.** If a program that is not empty is refused, and not because its groups nest too
deep, then the place of the diagnostic lies in the lines of the program. The report is a text of several lines: a
heading, rows of lines of the program, and perhaps a remark. Exactly the rows of the lines of the place are marked. They
colour the first illegal character of the program, or the token that was found, or what reaches from the bracket of the
group that is not closed to the end of that token. -/
theorem report_points_at_place {program : String} (hne : program ≠ "") {limit : Nat} {failure : Failure}
    (h : analyze program limit = .error failure)
    (hdeep : ∀ d got, failure = .syntactic d → d.problem ≠ .nestingTooDeep got) :
    ∃ d message text quoted rows, (failure = .lexical d ∨ failure = .syntactic d) ∧
      d.span.Within (lines program.toList) ∧
      d.message? = some message ∧ failure.report? = some text ∧ (d.toReport message).Shows quoted rows text ∧
      text.toList.splitOn '\n' = ((d.toReport message).lines rows).map String.toList ∧
      (∀ q ∈ quoted, ∃ line, (lines program.toList)[q.number - 1]? = some line ∧ q.body.Shows line) ∧
      (marked quoted).map QuotedLine.number =
        List.range' d.span.startLine.toNat (d.span.endLine + 1 - d.span.startLine).toNat ∧
      d.problem.Covers program ((marked quoted).map fun q => q.body.within) := by
  obtain ⟨d, message, hfailure, hpoints, hmessage⟩ := exists_points_of_analyze hne h hdeep
  obtain ⟨rows, hshows, hsplit, hnumbers, hwithin⟩ := hpoints.shows hmessage
  have hreport : failure.report? = some (d.reportWith message d.remark) := by
    rcases hfailure with rfl | rfl <;> exact Diagnostic.report?_of_message hmessage
  refine ⟨d, message, _, d.quoted, rows, hfailure, hpoints.within, hmessage, hreport, hshows, hsplit,
    fun q hq => hpoints.exists_line hq, hnumbers, ?_⟩
  rw [hwithin]
  exact hpoints.covers

/-- The report on a group that is not closed on the next line marks both lines. -/
theorem report_of_unclosed_group : ∃ d message text quoted rows, analyze "(a +\nb c" = .error (.syntactic d) ∧
    d.report? = some text ∧ (d.toReport message).Shows quoted rows text ∧
    (marked quoted).map QuotedLine.number = [1, 2] ∧
    d.problem.Covers "(a +\nb c" ((marked quoted).map fun q => q.body.within) := by
  have hfailure : (match analyze "(a +\nb c" with | .error failure => some failure | .ok _ => none) =
      some (.syntactic (.missingToken "(a +\nb c" .closeRound Bracket.round.purpose
        (some ⟨"(", .openRound, .onLine 1 0 1⟩) ⟨"c", .identifier, .onLine 2 2 3⟩)) := by decide +kernel
  cases h : analyze "(a +\nb c" with
  | ok t =>
    rw [h] at hfailure
    cases hfailure
  | error failure =>
    rw [h] at hfailure
    cases hfailure
    obtain ⟨d, message, text, quoted, rows, hd, _, _, htext, hshows, _, _, hnumbers, hcovers⟩ :=
      report_points_at_place (by decide) h fun d got hd => by
        cases hd
        exact fun hproblem => nomatch hproblem
    cases hd with
    | inl hd => cases hd
    | inr hd =>
      cases hd
      exact ⟨_, message, text, quoted, rows, rfl, htext, hshows, hnumbers, hcovers⟩

end ArrayExpr
