import ArrayExpr.Proofs.Diagnostic.Place

/-!
# Excerpts and highlighted text

The excerpt of a diagnostic and the text that its report colours on the first marked line are cut from the same line at
the same column (`Diagnostic.Points.exists_first`). But the excerpt always ends at the end column of the place, and what
is coloured ends there only if the place is on one line: otherwise the end column belongs to another line, and the rest
of the first line is coloured. So the excerpt is a front of the coloured text (`Diagnostic.Points.excerpt_of_first`).
Only the place of a group that is not closed can be on several lines, and it starts at a bracket (`on_line_or_group`).
Hence the two are equal exactly if the place is on one line or its first line ends before the end column
(`excerpt_eq_highlight_iff`).
-/

namespace ArrayExpr

open Text Token Quotation

/-! ## Cut lines -/

/-- What is cut between two columns is the rest of the line from the first one on, exactly if the line ends before the
second column or before the first. -/
theorem Text.drop_take_eq_drop_iff (row : List α) (start stop : Nat) :
    (row.take stop).drop start = row.drop start ↔ row.length ≤ start ∨ row.length ≤ stop := by
  constructor
  · intro h
    have hlength := congrArg List.length h
    simp only [List.length_drop, List.length_take] at hlength
    omega
  · rintro (h | h)
    · rw [List.drop_eq_nil_of_le h, List.drop_eq_nil_of_le (by simp; omega)]
    · rw [List.take_of_length_le h]

/-- A span that starts before the end of its first line. -/
def Span.StartsBeforeEnd (s : Span) (rows : List (List Char)) : Prop :=
  ∃ row, rows[(s.startLine - 1).toNat]? = some row ∧ s.startCol < row.length

namespace Diagnostic

variable {program : String} {d : Diagnostic}

/-- The excerpt is cut from the first line of the place between the two columns. -/
theorem toList_excerpt (h : d.Points program) {row : List Char}
    (hrow : (lines program.toList)[(d.span.startLine - 1).toNat]? = some row) :
    d.excerpt.toList = (row.take d.span.endCol.toNat).drop d.span.startCol.toNat := by
  have hfirst : 0 < d.span.startLine := by
    have := h.within.one_le_startLine
    omega
  obtain ⟨_, _, hstart, _⟩ := h.within.start
  obtain ⟨_, _, hstop, _⟩ := h.within.stop
  rw [excerpt, h.program_eq, if_pos hfirst, hrow]
  dsimp only
  rw [String.toList_ofList, slice_of_nonneg row hstart hstop]

/-- The first marked line among those that are quoted of a program at a place: it shows the line of the program on
which the place starts, and colours what the place covers of it. -/
structure FirstMarked (program : String) (place : Span) (quoted : List QuotedLine) (q : QuotedLine) (row : List Char) :
    Prop where
  head_eq : (marked quoted).head? = some q
  number_eq : (q.number : Int) = place.startLine
  row_eq : (lines program.toList)[q.number - 1]? = some row
  shows : q.body.Shows row
  within_eq : q.body.within = place.portion q.number row

/-- A report on a diagnostic that points at its place has a first marked line. -/
theorem Points.exists_first (h : d.Points program) : ∃ q row, FirstMarked program d.span d.quoted q row := by
  have hfirst := h.within.one_le_startLine
  have hle := h.within.startLine_le
  have hbefore : 0 ≤ d.linesBefore := by rw [h.linesBefore_eq]; decide
  have hafter : 0 ≤ d.linesAfter := by rw [h.linesAfter_eq]; decide
  obtain ⟨row, hrow, hstart, _⟩ := h.within.start
  obtain ⟨_, _, hstop, _⟩ := h.within.stop
  have hnumber : ((d.span.startLine.toNat : Nat) : Int) = d.span.startLine := by omega
  have hindex : (d.span.startLine - 1).toNat = d.span.startLine.toNat - 1 := by omega
  have hcount : 1 + (d.span.startLine.toNat - 1) = d.span.startLine.toNat := by omega
  have htouches : d.span.Touches (d.span.startLine.toNat : Nat) := by
    constructor <;> omega
  rw [hindex] at hrow
  refine ⟨quote d.span (row, d.span.startLine.toNat), row, ?_, hnumber, hrow, LineBody.ofLine_shows _ _ _,
    LineBody.within_ofLine htouches hstart hstop row⟩
  rw [quoted, h.program_eq, marked_ofProgram hfirst hbefore hafter hle, Span.filter_touches hfirst, List.head?_map,
    List.head?_drop, List.getElem?_take_of_lt (by omega), List.getElem?_zipIdx, hrow, hcount]
  rfl

theorem Points.quoted_ne_nil (h : d.Points program) : d.quoted ≠ [] := by
  obtain ⟨q, row, hfirst⟩ := h.exists_first
  intro hquoted
  have hhead := hfirst.head_eq
  rw [hquoted] at hhead
  cases hhead

/-- The excerpt is a front of the coloured text, and all of it exactly if the place is on one line or the line ends
before the columns do. -/
theorem Points.excerpt_of_first (h : d.Points program) {quoted : List QuotedLine} {q : QuotedLine} {row : List Char}
    (hfirst : FirstMarked program d.span quoted q row) : d.excerpt.toList <+: q.body.within ∧
      (d.excerpt.toList = q.body.within ↔ d.span.startLine = d.span.endLine ∨
        row.length ≤ d.span.startCol.toNat ∨ row.length ≤ d.span.endCol.toNat) := by
  obtain ⟨-, hnumber, hrow, -, hwithin⟩ := hfirst
  have hle := h.within.startLine_le
  obtain ⟨_, _, hstart, _⟩ := h.within.start
  obtain ⟨_, _, hstop, _⟩ := h.within.stop
  have hindex : q.number - 1 = (d.span.startLine - 1).toNat := by omega
  have htouches : d.span.Touches q.number := by
    constructor <;> omega
  rw [hindex] at hrow
  rw [toList_excerpt h hrow, hwithin, Span.portion_eq htouches hstart hstop, if_pos hnumber, hnumber]
  by_cases hline : d.span.startLine = d.span.endLine
  · rw [if_pos hline]
    simp [hline]
  · rw [if_neg hline, List.take_length]
    constructor
    · rw [List.drop_take]
      exact List.take_prefix _ _
    · rw [drop_take_eq_drop_iff]
      simp [hline]

/-- If the place is on one line, or starts before the end of its line, then the start column does not matter. -/
theorem Points.excerpt_of_place (h : d.Points program)
    (hplace : d.span.startLine = d.span.endLine ∨ d.span.StartsBeforeEnd (lines program.toList)) :
    ∃ q row, FirstMarked program d.span d.quoted q row ∧ d.excerpt.toList <+: q.body.within ∧
      (d.excerpt.toList = q.body.within ↔ d.span.startLine = d.span.endLine ∨ row.length ≤ d.span.endCol) := by
  obtain ⟨q, row, hfirst⟩ := h.exists_first
  obtain ⟨hfront, hwhole⟩ := h.excerpt_of_first hfirst
  refine ⟨q, row, hfirst, hfront, hwhole.trans ?_⟩
  rcases hplace with hline | ⟨row', hrow, hlt⟩
  · simp [hline]
  · have hnumber := hfirst.number_eq
    have hindex : (d.span.startLine - 1).toNat = q.number - 1 := by omega
    rw [hindex, hfirst.row_eq] at hrow
    cases hrow
    obtain ⟨_, _, hstop, _⟩ := h.within.stop
    omega

end Diagnostic

/-! ## Places on several lines -/

theorem EndedTiling.text_ne_nil {rows : List (List Char)} {tokens : List Token} (h : EndedTiling rows tokens)
    {t : Token} (ht : t ∈ tokens) (hfinish : t.isFinish = false) : t.text.toList ≠ [] := by
  obtain ⟨tiles, finish, rfl, htiling, _, _, _, _, rfl⟩ := h
  rcases List.mem_append.mp ht with ht | ht
  · exact (htiling.lexeme t ht).ne_nil
  · rw [List.mem_singleton.mp ht] at hfinish
    cases hfinish

/-- The place of a diagnostic on the tokens is on one line, or it is that of a group that is not closed, and begins
with the opening bracket. -/
theorem on_line_or_group {program : String} (hne : program ≠ "") {tokens : List Token}
    (htokens : tokenize program = .ok tokens) {limit : Nat} {d : Diagnostic}
    (h : parse tokens program limit = .error (.syntactic d))
    (hdeep : ∀ got, d.problem ≠ .nestingTooDeep got) : d.span.startLine = d.span.endLine ∨
      (∃ (bracket : Bracket) (got : Token), d.problem = .expectedToken bracket.closing bracket.purpose got) ∧
        d.span.StartsBeforeEnd (lines program.toList) := by
  obtain ⟨⟨_, front, got, after, frontier, _, _, rfl, hfront, hreach, _, hrejects⟩⟩ := exists_stop h hdeep
  have htiling := tiling_of_tokenize htokens
  have hgot := htiling.standsAt (lines_ne_nil hne) (List.mem_append_right front List.mem_cons_self)
  cases hrejects with
  | noOperand => exact Or.inl hgot.on_line.1
  | trailing => exact Or.inl hgot.on_line.1
  | @unclosed group outer edge hedge =>
    right
    have hmem : group.opening ∈ front :=
      mem_of_mem_unmatched ((Frontier.unmatched_of_reach hreach).symm ▸ List.mem_cons_self)
    have hmem' := List.mem_append_left (got :: after) hmem
    have hlength := List.length_pos_iff.mpr (htiling.text_ne_nil hmem' (hfront _ hmem))
    obtain ⟨n, before, behind, hrow, hspan⟩ := htiling.standsAt (lines_ne_nil hne) hmem'
    have hplace := (span_of_group hne htokens hmem group.bracket.closing group.bracket.purpose).2
    refine ⟨⟨group.bracket, got, rfl⟩, before ++ group.opening.text.toList ++ behind, ?_, ?_⟩
    · show (lines program.toList)[((Diagnostic.missingToken ..).span.startLine - 1).toNat]? = _
      rw [hplace, hspan, ← hrow]
      congr 1
      simp only [Span.upTo, Span.onLine]
      omega
    · show (Diagnostic.missingToken ..).span.startCol < _
      rw [hplace, hspan]
      simp only [Span.upTo, Span.onLine, List.length_append]
      omega

/-- The place of a diagnostic of a program is on one line, or it is that of a group that is not closed. -/
theorem on_line_or_group_of_analyze {program : String} (hne : program ≠ "") {limit : Nat} {failure : Failure}
    (h : analyze program limit = .error failure)
    (hdeep : ∀ d got, failure = .syntactic d → d.problem ≠ .nestingTooDeep got) {d : Diagnostic}
    (hfailure : failure = .lexical d ∨ failure = .syntactic d) : d.span.startLine = d.span.endLine ∨
      (∃ (bracket : Bracket) (got : Token), d.problem = .expectedToken bracket.closing bracket.purpose got) ∧
        d.span.StartsBeforeEnd (lines program.toList) := by
  rcases hfailure with rfl | rfl
  · obtain ⟨_, _, _, _, _, _, _, _, _, rfl, _⟩ := exists_illegal_of_tokenize_error (analyze_eq_lexical_iff.mp h)
    exact Or.inl rfl
  · cases htokens : tokenize program with
    | error failure =>
      obtain ⟨_, _, rfl, _⟩ := exists_message_of_tokenize htokens
      cases h.symm.trans (analyze_of_tokenize_error htokens)
    | ok tokens =>
      rw [analyze_of_tokenize htokens] at h
      exact on_line_or_group hne htokens h (hdeep d · rfl)

/-! ## Excerpts of programs -/

open Diagnostic

theorem analyze_empty (limit : Nat) : ∃ d, analyze "" limit = .error (.syntactic d) ∧ d.message?.isSome ∧
    d.quoted = [] ∧ d.excerpt = "" ∧ d.span.startLine = d.span.endLine := by
  have htokens : tokenize "" = .ok [⟨"", .finish, .onLine 1 0 0⟩] := tokenize_eq_ok_iff.mpr (by decide +kernel)
  have hfailure : analyze "" limit = .error (.syntactic
      ⟨"", .onLine 1 0 0, .unexpectedEnd ⟨"", .finish, .onLine 1 0 0⟩, 1, 1⟩) :=
    (analyze_of_tokenize htokens).trans (by with_unfolding_all rfl)
  exact ⟨_, hfailure, by decide +kernel, by decide +kernel, by decide +kernel, rfl⟩

/-- **When the excerpt is the highlighted text.** Let a program be refused, and not because its groups nest too deep. The
report quotes no line exactly if the program is empty, and then the excerpt of the diagnostic is empty. Otherwise the
excerpt is a front of what is coloured on the first marked line, which shows the line on which the place starts; and it
is all of that exactly if the place is on one line or this line ends before the end column of the place. Only the place
of a group that is not closed is on several lines. -/
theorem excerpt_eq_highlight_iff {program : String} {limit : Nat} {failure : Failure}
    (h : analyze program limit = .error failure)
    (hdeep : ∀ d got, failure = .syntactic d → d.problem ≠ .nestingTooDeep got) :
    ∃ d message text quoted rows, (failure = .lexical d ∨ failure = .syntactic d) ∧ d.message? = some message ∧
      failure.report? = some text ∧ (d.toReport message).Shows quoted rows text ∧
      (quoted = [] ↔ program = "") ∧ (quoted = [] → d.excerpt = "") ∧
      (quoted ≠ [] → ∃ q row, FirstMarked program d.span quoted q row ∧ d.excerpt.toList <+: q.body.within ∧
        (d.excerpt.toList = q.body.within ↔ d.span.startLine = d.span.endLine ∨ row.length ≤ d.span.endCol)) ∧
      (d.span.startLine ≠ d.span.endLine →
        ∃ (bracket : Bracket) (got : Token), d.problem = .expectedToken bracket.closing bracket.purpose got) := by
  by_cases hne : program = ""
  · subst hne
    obtain ⟨d, hempty, hsome, hquoted, hexcerpt, hline⟩ := analyze_empty limit
    obtain ⟨message, hmessage⟩ := Option.isSome_iff_exists.mp hsome
    cases hempty.symm.trans h
    refine ⟨d, message, _, d.quoted, _, Or.inr rfl, hmessage, report?_of_message hmessage,
      (d.toReport message).shows_render d.program d.span, iff_of_true hquoted rfl, fun _ => hexcerpt, ?_, ?_⟩
    · intro hsome
      exact absurd hquoted hsome
    · intro hlines
      exact absurd hline hlines
  · obtain ⟨d, message, hfailure, hpoints, hmessage⟩ := exists_points_of_analyze hne h hdeep
    have hplace := on_line_or_group_of_analyze hne h hdeep hfailure
    have hreport : failure.report? = some (d.reportWith message d.remark) := by
      rcases hfailure with rfl | rfl <;> exact report?_of_message hmessage
    refine ⟨d, message, _, d.quoted, _, hfailure, hmessage, hreport,
      (d.toReport message).shows_render d.program d.span, iff_of_false hpoints.quoted_ne_nil hne, ?_, ?_, ?_⟩
    · intro hquoted
      exact absurd hquoted hpoints.quoted_ne_nil
    · intro _
      exact hpoints.excerpt_of_place (hplace.imp_right And.right)
    · intro hlines
      exact (hplace.resolve_left hlines).1

/-- A bracket that is not closed on the next line: the bracket is coloured, but the end column is that of the token found
there, and the excerpt is empty. -/
theorem excerpt_of_broken_group : ∃ d message text quoted rows q, analyze "abc[\nd e" = .error (.syntactic d) ∧
    d.report? = some text ∧ (d.toReport message).Shows quoted rows text ∧ (marked quoted).head? = some q ∧
    q.number = 1 ∧ q.body.within = ['['] ∧ d.excerpt = "" := by
  have hfailure : analyze "abc[\nd e" = .error (.syntactic (.missingToken "abc[\nd e" .closeSquare
      Bracket.square.purpose (some ⟨"[", .openSquare, .onLine 1 3 4⟩) ⟨"e", .identifier, .onLine 2 2 3⟩)) :=
    eq_error_of_match (by decide +kernel)
  obtain ⟨d, message, text, quoted, rows, hd, _, htext, hshows, hquoted, _, hmarked, _⟩ :=
    excerpt_eq_highlight_iff hfailure fun d got hd => by
      cases hd
      exact fun hproblem => nomatch hproblem
  cases hd with
  | inl hd => cases hd
  | inr hd =>
    cases hd
    have hsome : quoted ≠ [] := fun hnil => absurd (hquoted.mp hnil) (by decide)
    obtain ⟨q, row, ⟨hhead, hnumber, hrow, _, hwithin⟩, _, _⟩ := hmarked hsome
    have hplace : q.number = 1 := Int.ofNat.inj hnumber
    have hline : (lines "abc[\nd e".toList)[0]? = some ['a', 'b', 'c', '['] := by decide +kernel
    rw [hplace, hline] at hrow
    cases hrow
    refine ⟨_, message, text, quoted, rows, q, hfailure, htext, hshows, hhead, hplace, ?_, by decide +kernel⟩
    rw [hwithin, hplace]
    decide +kernel

end ArrayExpr
