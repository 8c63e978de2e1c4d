import ArrayExpr.Proofs.Text.Illegal
import ArrayExpr.Proofs.Text.Lines
import ArrayExpr.Proofs.Token.Scanning

/-!
# Offences

Reading meets an offence exactly if some character is illegal, and then the first such character is the offence. No
lexeme reaches over an illegal character, so that what stands in a line before the first one is read without an offence
(`Lexer.offence_readLine`). So are the lines before it, and the lines after it are not read (`Lexer.exists_offence`).
Hence the diagnostic names that character at its place, whatever comes later (`tokenize_error_iff_illegal`).
-/

namespace ArrayExpr

open Text

/-! ## Lines -/

theorem Kind.mayPrecede_of_begunBy? (kind : Kind) {c : Char} (h : begunBy? c = none) : kind.MayPrecede c := by
  obtain ⟨hletter, hdigit, _⟩ := begunBy?_eq_none_iff.mp h
  cases kind <;> simp [MayPrecede, hletter, hdigit]

/-- A lexeme that ends before some characters still does if others follow that begin with one that begins no token. -/
theorem Kind.EndsBefore.append_cons {kind : Kind} {after : List Char} (h : kind.EndsBefore after) {c : Char}
    (hc : begunBy? c = none) (more : List Char) : kind.EndsBefore (after ++ c :: more) := by
  cases after with
  | nil =>
    intro d hd
    cases hd
    exact kind.mayPrecede_of_begunBy? hc
  | cons d after => exact h

namespace Reading

theorem empty_append (r : Reading) : empty.append r = r := rfl

theorem append_assoc (a b c : Reading) : (a.append b).append c = a.append (b.append c) := by
  obtain ⟨ts, _ | o⟩ := a
  · obtain ⟨us, _ | o⟩ := b
    · exact congrArg (Reading.mk · c.offence) (List.append_assoc ts us c.tokens)
    · rfl
  · rfl

end Reading

namespace Lexer

variable {number : Int} {col : Nat}

theorem offence_readLine_eq_none {row : List Char} (h : ∀ c ∈ row, ¬ Illegal c ∧ isLineBreak c = false) :
    (readLine number col row).offence = none := by
  rw [Option.eq_none_iff_forall_not_mem]
  intro o ho
  obtain ⟨c, _, _, hmem, hbegun, hblank⟩ := of_offence_readLine ho
  obtain ⟨hlegal, hbreak⟩ := h c hmem
  exact hlegal (illegal_iff.mpr ⟨hbegun, isSeparator_eq_false_iff.mpr ⟨hblank, hbreak⟩⟩)

/-- The offence of a line is its first illegal character, at its column. -/
theorem offence_readLine {row : List Char} (h : ∀ b ∈ row, ¬ Illegal b ∧ isLineBreak b = false) {c : Char}
    (hc : Illegal c) (more : List Char) : (readLine number col (row ++ c :: more)).offence =
      some (.character c (.onLine number (col + row.length : Nat) (col + row.length + 1 : Nat))) := by
  obtain ⟨hbegun, hseparator⟩ := illegal_iff.mp hc
  obtain ⟨hblank, _⟩ := isSeparator_eq_false_iff.mp hseparator
  induction row using byLexemes generalizing col with
  | nil =>
    rw [List.nil_append, readLine_offence number col hbegun hblank]
    rfl
  | other b rest hb ih =>
    obtain ⟨⟨hlegal, hbreak⟩, hrest⟩ := List.forall_mem_cons.mp h
    have hb' : isBlank b = true := by
      by_contra hnot
      exact hlegal (illegal_iff.mpr ⟨hb, isSeparator_eq_false_iff.mpr ⟨Bool.eq_false_iff.mpr hnot, hbreak⟩⟩)
    rw [List.cons_append, readLine_blank _ _ hb', ih hrest, List.length_cons, Nat.add_right_comm, Nat.add_assoc col]
  | lexeme kind text after hlexeme hends ih =>
    have hafter := @ih (col + text.length) fun b hb => h b (List.mem_append_right _ hb)
    rw [List.append_assoc, readLine_lexeme number col hlexeme (hends.append_cons hbegun more), List.length_append,
      ← Nat.add_assoc]
    exact hafter

/-- To read lines is to read the first of them, and then the others with their numbers. -/
theorem readLines_append (number : Int) (rows more : List (List Char)) :
    readLines number (rows ++ more) = (readLines number rows).append (readLines (number + rows.length) more) := by
  induction rows generalizing number with
  | nil =>
    rw [List.nil_append, readLines, Reading.empty_append, List.length_nil, Int.natCast_zero, Int.add_zero]
  | cons row rows ih =>
    rw [List.cons_append, readLines, readLines, ih, Reading.append_assoc, List.length_cons, Int.natCast_succ,
      Int.add_comm (rows.length : Int), Int.add_assoc]

/-- Legal lines are read without an offence. -/
theorem offence_readLines_eq_none {rows : List (List Char)}
    (h : ∀ row ∈ rows, ∀ c ∈ row, ¬ Illegal c ∧ isLineBreak c = false) : (readLines number rows).offence = none := by
  induction rows generalizing number with
  | nil => rfl
  | cons row rows ih =>
    obtain ⟨hrow, hrows⟩ := List.forall_mem_cons.mp h
    rw [readLines, Reading.append_offence_eq_none_iff]
    exact ⟨offence_readLine_eq_none hrow, ih hrows⟩

end Lexer

/-! ## Programs -/

/-- **The first illegal character of a text is its offence.** Its place is given by the characters before it. -/
theorem Lexer.exists_offence {before : List Char} (hlegal : ∀ b ∈ before, ¬ Illegal b) {c : Char} (hc : Illegal c) :
    ∃ rows row, lines (before ++ [c]) = rows ++ [row ++ [c]] ∧ ∀ after,
      (readLines 1 (lines (before ++ c :: after))).offence =
        some (.character c (.onLine (rows.length + 1 : Nat) row.length (row.length + 1 : Nat))) ∧
      ∃ whole, (lines (before ++ c :: after))[rows.length]? = some whole ∧ whole[row.length]? = some c := by
  obtain ⟨rows, row, hlines⟩ := exists_lines_append before
  have hbreak : isLineBreak c = false := hc.2.2.2.2
  have hlegal' : ∀ line ∈ rows ++ [row], ∀ b ∈ line, ¬ Illegal b ∧ isLineBreak b = false := by
    intro line hline b hb
    have hmem := List.mem_flatten_of_mem hline hb
    rw [flatten_of_lines_concat (hlines c [] hbreak) hbreak, List.mem_filter] at hmem
    exact ⟨hlegal b hmem.1, by simpa using hmem.2⟩
  refine ⟨rows, row, hlines c [] hbreak, fun after => ⟨?_, ?_⟩⟩
  · have hrows : (readLines 1 rows).offence = none :=
      offence_readLines_eq_none fun line hline => hlegal' line (List.mem_append_left _ hline)
    have hnumber : (1 : Int) + rows.length = (rows.length + 1 : Nat) := by omega
    have hrow : (readLine (rows.length + 1 : Nat) 0 (row ++ c :: (lines after).headD [])).offence =
        some (.character c (.onLine (rows.length + 1 : Nat) (0 + row.length : Nat) (0 + row.length + 1 : Nat))) :=
      offence_readLine (hlegal' row (List.mem_append_right _ List.mem_cons_self)) hc _
    rw [hlines c after hbreak, readLines_append, Reading.append_of_offence_eq_none hrows, hnumber, readLines,
      Reading.append_of_offence_eq_some hrow, hrow, Nat.zero_add]
  · rw [hlines c after hbreak]
    exact ⟨row ++ c :: (lines after).headD [], by simp, by simp⟩

/-- The diagnostic on a character of a program that belongs to no token. -/
def Diagnostic.unexpected (program : String) (c : Char) (span : Span) : Diagnostic :=
  { program, span, problem := .unexpectedCharacter (String.singleton c) }

/-- A program is refused while its text is read exactly if there is an offence. It is a character, never a name of
which there is no kind. -/
theorem tokenize_eq_error_iff {program : String} {failure : Failure} : tokenize program = .error failure ↔
    ∃ c span, (Lexer.readLines 1 (lines program.toList)).offence = some (.character c span) ∧
      failure = .lexical (.unexpected program c span) := by
  show (Lexer.read program).result program = .error failure ↔ _
  rw [Lexer.read]
  cases ho : (Lexer.readLines 1 (lines program.toList)).offence with
  | none => simp [Reading.append_of_offence_eq_none ho, Reading.result]
  | some o =>
    obtain ⟨n, row, _, ho'⟩ := Lexer.of_offence_readLines ho
    obtain ⟨c, span, rfl, _⟩ := Lexer.of_offence_readLine ho'
    rw [Reading.append_of_offence_eq_some ho, Reading.result, ho]
    constructor
    · intro h
      exact ⟨c, span, rfl, (Except.error.inj h).symm⟩
    · rintro ⟨c', span', hsame, rfl⟩
      cases hsame
      rfl

/-- What is wrong with tokens is not wrong with the text. -/
theorem parse_ne_lexical (tokens : List Token) (program : String) (limit : Nat) (d : Diagnostic) :
    parse tokens program limit ≠ .error (.lexical d) := by
  intro h
  by_cases hended : Token.Ended tokens
  · obtain ⟨finish, _, hparse⟩ := parse_of_ended hended
    rw [hparse] at h
    cases hverdict : ((Parser.ofRule limit .expression).run (Token.body tokens)).verdict program finish with
    | error d' =>
      rw [hverdict] at h
      cases h
    | ok t =>
      rw [hverdict] at h
      cases h
  · rw [parse_of_not_ended hended] at h
    cases h

/-- What is wrong with the text always wins: a program whose text is refused is not parsed. -/
theorem analyze_eq_lexical_iff {program : String} {limit : Nat} {d : Diagnostic} :
    analyze program limit = .error (.lexical d) ↔ tokenize program = .error (.lexical d) := by
  cases htokens : tokenize program with
  | error failure => rw [analyze_of_tokenize_error htokens, Except.error.injEq, Except.error.injEq]
  | ok tokens => simp [analyze_of_tokenize htokens, parse_ne_lexical]

/-- A text with illegal characters has a first one. -/
theorem Text.exists_first_illegal {cs : List Char} (h : ∃ c ∈ cs, Illegal c) :
    ∃ before c after, cs = before ++ c :: after ∧ (∀ b ∈ before, ¬ Illegal b) ∧ Illegal c := by
  obtain ⟨d, hmem, hd⟩ := h
  have hsome : (cs.find? fun c => decide (Illegal c)).isSome = true :=
    List.find?_isSome.mpr ⟨d, hmem, decide_eq_true hd⟩
  obtain ⟨c, hc⟩ := Option.isSome_iff_exists.mp hsome
  obtain ⟨hillegal, before, after, hsplit, hlegal⟩ := List.find?_eq_some_iff_append.mp hc
  exact ⟨before, c, after, hsplit, fun b hb => by simpa using hlegal b hb, of_decide_eq_true hillegal⟩

/-- The excerpt of a diagnostic on a character is that character, if it stands at the place. -/
theorem Diagnostic.excerpt_unexpected {program : String} {c : Char} {n col : Nat} {row : List Char}
    (hrow : (lines program.toList)[n]? = some row) (hc : row[col]? = some c) :
    (Diagnostic.unexpected program c (.onLine (n + 1 : Nat) col (col + 1 : Nat))).excerpt = String.singleton c := by
  have hnumber : (((n + 1 : Nat) : Int) - 1).toNat = n := by omega
  have hpos : (0 : Int) < (n + 1 : Nat) := by omega
  rw [excerpt, unexpected, Span.onLine, if_pos hpos]
  dsimp only
  rw [hnumber, hrow]
  dsimp only
  rw [slice_succ hc]
  rfl

/-- A program is refused for its first illegal character, at its place in the lines. -/
theorem exists_tokenize_eq_error {before : List Char} (hlegal : ∀ b ∈ before, ¬ Illegal b) {c : Char}
    (hc : Illegal c) : ∃ rows row, lines (before ++ [c]) = rows ++ [row ++ [c]] ∧
      ∀ (program : String) (after : List Char), program.toList = before ++ c :: after →
        tokenize program = .error (.lexical (.unexpected program c
          (.onLine (rows.length + 1 : Nat) row.length (row.length + 1 : Nat)))) ∧
        ∃ whole, (lines program.toList)[rows.length]? = some whole ∧ whole[row.length]? = some c := by
  obtain ⟨rows, row, hlines, hoffence⟩ := Lexer.exists_offence hlegal hc
  refine ⟨rows, row, hlines, fun program after hsplit => ?_⟩
  obtain ⟨ho, hplace⟩ := hoffence after
  rw [← hsplit] at ho hplace
  exact ⟨tokenize_eq_error_iff.mpr ⟨_, _, ho, rfl⟩, hplace⟩

/-- A program is refused while its text is read exactly if some character is illegal. -/
theorem exists_tokenize_eq_error_iff (program : String) :
    (∃ failure, tokenize program = .error failure) ↔ ∃ c ∈ program.toList, Illegal c := by
  constructor
  · rintro ⟨failure, h⟩
    obtain ⟨_, _, ho, _⟩ := tokenize_eq_error_iff.mp h
    obtain ⟨n, row, hrow, ho⟩ := Lexer.of_offence_readLines ho
    obtain ⟨c, _, _, hmem, hbegun, hblank⟩ := Lexer.of_offence_readLine ho
    obtain ⟨hprogram, hbreak⟩ := mem_of_mem_lines (List.mem_of_getElem? hrow) hmem
    exact ⟨c, hprogram, illegal_iff.mpr ⟨hbegun, isSeparator_eq_false_iff.mpr ⟨hblank, hbreak⟩⟩⟩
  · intro h
    obtain ⟨before, c, after, hsplit, hlegal, hc⟩ := exists_first_illegal h
    obtain ⟨rows, row, _, hrefused⟩ := exists_tokenize_eq_error hlegal hc
    exact ⟨_, (hrefused program after hsplit).1⟩

/-- A program that has no tokens is refused for a character. -/
theorem exists_lexical_iff (program : String) :
    (∃ d, tokenize program = .error (.lexical d)) ↔ ∃ failure, tokenize program = .error failure := by
  constructor
  · rintro ⟨d, h⟩
    exact ⟨_, h⟩
  · rintro ⟨failure, h⟩
    obtain ⟨_, _, _, rfl⟩ := tokenize_eq_error_iff.mp h
    exact ⟨_, h⟩

/-- **A text is refused for a character, and for the first one.** Reading a program fails exactly if some character is
illegal, and then the analysis fails for the same reason, whatever the syntax is. The diagnostic is on the first illegal
character: this one stands at the end of the last line of what reaches up to it, the diagnostic points there in every
program that begins so, and its excerpt is that character. The separators of files, groups and records are legal; the
separator of units, the underscore, combining marks and numerals that are no decimal digits are not. -/
theorem tokenize_error_iff_illegal (limit : Nat) :
    (∀ program : String, ((∃ failure, tokenize program = .error failure) ↔ ∃ c ∈ program.toList, Illegal c) ∧
      ((∃ d, analyze program limit = .error (.lexical d)) ↔ ∃ c ∈ program.toList, Illegal c)) ∧
    (∀ (before : List Char) (c : Char), (∀ b ∈ before, ¬ Illegal b) → Illegal c →
      ∃ rows row, lines (before ++ [c]) = rows ++ [row ++ [c]] ∧
        ∀ (program : String) (after : List Char), program.toList = before ++ c :: after →
          ∃ d, tokenize program = .error (.lexical d) ∧ analyze program limit = .error (.lexical d) ∧
            d.problem = .unexpectedCharacter (String.singleton c) ∧
            d.span = .onLine (rows.length + 1 : Nat) row.length (row.length + 1 : Nat) ∧
            (∃ whole, (lines program.toList)[rows.length]? = some whole ∧ whole[row.length]? = some c) ∧
            d.excerpt = String.singleton c) ∧
    (∀ c, isMark c = true ∨ isNumeral c = true → Illegal c) ∧ Illegal '_' ∧ Illegal '\x1f' ∧
    isSeparator '\x1c' = true ∧ isSeparator '\x1d' = true ∧ isSeparator '\x1e' = true := by
  refine ⟨fun program => ⟨exists_tokenize_eq_error_iff program, ?_⟩, fun before c hlegal hc => ?_, ?_,
    by decide +kernel, by decide +kernel, rfl, rfl, rfl⟩
  · simp only [analyze_eq_lexical_iff, exists_lexical_iff, exists_tokenize_eq_error_iff]
  · obtain ⟨rows, row, hlines, hrefused⟩ := exists_tokenize_eq_error hlegal hc
    refine ⟨rows, row, hlines, fun program after hsplit => ?_⟩
    obtain ⟨htokenize, whole, hwhole, hcol⟩ := hrefused program after hsplit
    exact ⟨_, htokenize, analyze_eq_lexical_iff.mpr htokenize, rfl, rfl, ⟨whole, hwhole, hcol⟩,
      Diagnostic.excerpt_unexpected hwhole hcol⟩
  · rintro c (hmark | hnumeral)
    · exact illegal_of_isMark hmark
    · exact illegal_of_isNumeral hnumeral

/-- An underscore behind a name and a line break is refused at its place in the second line. -/
theorem error_of_underscore : ∃ d, tokenize "a\r\nb _ $" = .error (.lexical d) ∧ d.span = .onLine 2 2 3 ∧ d.excerpt = "_" := by
  have hall : ['a', '\r', '\n', 'b', ' '].all (fun b => !decide (Illegal b)) = true := by decide +kernel
  have hlegal : ∀ b ∈ ['a', '\r', '\n', 'b', ' '], ¬ Illegal b := fun b hb => by
    simpa using List.all_eq_true.mp hall b hb
  have hc : Illegal '_' := by decide +kernel
  obtain ⟨rows, row, hlines, hrefused⟩ := (tokenize_error_iff_illegal nestingLimit).2.1 _ _ hlegal hc
  have hrows : lines (['a', '\r', '\n', 'b', ' '] ++ ['_']) = [['a']] ++ [['b', ' '] ++ ['_']] := by decide
  rw [hrows] at hlines
  obtain ⟨rfl, hrow⟩ := List.append_inj' hlines rfl
  obtain ⟨rfl, _⟩ := List.append_inj' (List.singleton_inj.mp hrow) rfl
  obtain ⟨d, htokenize, _, _, hspan, _, hexcerpt⟩ := hrefused "a\r\nb _ $" [' ', '$'] (by decide)
  exact ⟨d, htokenize, hspan, hexcerpt⟩

end ArrayExpr
