import ArrayExpr.Proofs.Text.Portion
import ArrayExpr.Proofs.Token.Cursor
import ArrayExpr.Proofs.Token.Tiling

/-!
# Reading a program

What is read of a line are whole lexemes in their order (`of_mem_readLine`, `ordered_readLine`), and if no character is
an offence, then all others are blank (`covered_readLine`). Line by line this gives a tiling of the lines
(`tiling_readLines`). An offence belongs to no token and is not blank, so that lines with one have no tiling
(`Tiling.offence_eq_none`). Hence a program is read exactly to the one tiling of its lines, with the end token behind
it (`tokenize_ok_iff_tiling`). All its tokens stand at their places in their order, the end token behind all others
(`EndedTiling.standsAt`, `EndedTiling.ordered`).
-/

namespace ArrayExpr

open Text

/-- The token ends a program of these lines: it stands behind their last character. -/
def Token.EndOf (lines : List (List Char)) (t : Token) : Prop :=
  ∃ col : Nat, (lines = [] → col = 0) ∧ (∀ last ∈ lines.getLast?, col = last.length) ∧
    t = ⟨"", .finish, .onLine (max 1 lines.length : Nat) col col⟩

/-- A tiling of lines and the token that ends them, which is the only end token. -/
def EndedTiling (lines : List (List Char)) (tokens : List Token) : Prop :=
  ∃ tiles finish, tokens = tiles ++ [finish] ∧ Tiling lines tiles ∧ (∀ t ∈ tiles, t.isFinish = false) ∧
    finish.EndOf lines

/-! ## Readings -/

namespace Reading

theorem append_of_offence_eq_none {a : Reading} (h : a.offence = none) (b : Reading) :
    a.append b = ⟨a.tokens ++ b.tokens, b.offence⟩ := by
  rw [append, h]

theorem append_of_offence_eq_some {a : Reading} {o : Offence} (h : a.offence = some o) (b : Reading) :
    a.append b = a := by
  rw [append, h]

theorem append_offence_eq_none_iff {a b : Reading} :
    (a.append b).offence = none ↔ a.offence = none ∧ b.offence = none := by
  cases h : a.offence with
  | none => simp [append_of_offence_eq_none h]
  | some o => simp [append_of_offence_eq_some h, h]

end Reading

/-! ## Reading a line -/

namespace Lexer

section Line

variable {number : Int} {col : Nat} {cs : List Char}

/-- Tokens read of a line are whole lexemes and stand where they were read. -/
theorem of_mem_readLine {t : Token} (ht : t ∈ (readLine number col cs).tokens) :
    Lexeme t.kind t.text.toList ∧ ∃ skipped after, cs = skipped ++ t.text.toList ++ after ∧
      t.kind.EndsBefore after ∧
      t.span = .onLine number (col + skipped.length : Nat) (col + skipped.length + t.text.toList.length : Nat) := by
  induction cs using byUnits generalizing col with
  | nil =>
    rw [readLine] at ht
    cases ht
  | blank c rest hblank ih =>
    rw [readLine_blank number col hblank] at ht
    obtain ⟨hlexeme, skipped, after, hrest, hends, hspan⟩ := ih ht
    refine ⟨hlexeme, c :: skipped, after, by rw [hrest]; rfl, hends, ?_⟩
    rw [hspan, List.length_cons, Nat.add_right_comm, Nat.add_assoc col]
  | offence c rest hbegun hblank =>
    rw [readLine_offence number col hbegun hblank] at ht
    cases ht
  | lexeme kind text after hlexeme hends ih =>
    rw [readLine_lexeme number col hlexeme hends] at ht
    rcases List.mem_cons.mp ht with rfl | ht
    · rw [String.toList_ofList]
      exact ⟨hlexeme, [], after, rfl, hends, rfl⟩
    · obtain ⟨hlexeme', skipped, after', hafter, hends', hspan⟩ := ih ht
      refine ⟨hlexeme', text ++ skipped, after', ?_, hends', ?_⟩
      · rw [hafter, List.append_assoc, List.append_assoc, List.append_assoc]
      · rw [hspan, List.length_append, ← Nat.add_assoc]

/-- Tokens are read in their order. -/
theorem ordered_readLine : (readLine number col cs).tokens.Pairwise Token.Before := by
  induction cs using byUnits generalizing col with
  | nil =>
    rw [readLine]
    exact List.Pairwise.nil
  | blank c rest hblank ih =>
    rw [readLine_blank number col hblank]
    exact ih
  | offence c rest hbegun hblank =>
    rw [readLine_offence number col hbegun hblank]
    exact List.Pairwise.nil
  | lexeme kind text after hlexeme hends ih =>
    rw [readLine_lexeme number col hlexeme hends]
    refine List.pairwise_cons.mpr ⟨fun t ht => ?_, ih⟩
    obtain ⟨_, skipped, _, _, _, hspan⟩ := of_mem_readLine ht
    rw [Token.Before, hspan]
    refine Or.inr ⟨rfl, ?_⟩
    show ((col + text.length : Nat) : Int) ≤ (col + text.length + skipped.length : Nat)
    omega

/-- Without an offence each character is blank or part of a token. -/
theorem covered_readLine (h : (readLine number col cs).offence = none) : ∀ (i : Nat) (c : Char), cs[i]? = some c →
    isBlank c = true ∨ ∃ t ∈ (readLine number col cs).tokens, t.Covers number (col + i) := by
  induction cs using byUnits generalizing col with
  | nil => exact fun _ _ hc => nomatch hc
  | blank d rest hblank ih =>
    rw [readLine_blank number col hblank] at h ⊢
    intro i c hc
    cases i with
    | zero =>
      cases hc
      exact Or.inl hblank
    | succ i =>
      have hcol : col + (i + 1) = col + 1 + i := by omega
      rw [hcol]
      exact ih h i c hc
  | offence d rest hbegun hblank =>
    rw [readLine_offence number col hbegun hblank] at h
    cases h
  | lexeme kind text after hlexeme hends ih =>
    rw [readLine_lexeme number col hlexeme hends] at h ⊢
    intro i c hc
    by_cases hi : i < text.length
    · refine Or.inr ⟨_, List.mem_cons_self, rfl, ?_, ?_⟩
      · show (col : Int) ≤ (col + i : Nat)
        omega
      · show ((col + i : Nat) : Int) < (col + text.length : Nat)
        omega
    · rw [List.getElem?_append_right (by omega)] at hc
      rcases ih h _ c hc with hblank | ⟨t, ht, hcovers⟩
      · exact Or.inl hblank
      · have hcol : col + text.length + (i - text.length) = col + i := by omega
        rw [hcol] at hcovers
        exact Or.inr ⟨t, List.mem_cons_of_mem _ ht, hcovers⟩

/-- An offence is a character of the line that is not blank and begins no token, never an unknown name. -/
theorem of_offence_readLine {o : Offence} (h : (readLine number col cs).offence = some o) :
    ∃ c span, o = .character c span ∧ c ∈ cs ∧ Kind.begunBy? c = none ∧ isBlank c = false := by
  induction cs using byUnits generalizing col with
  | nil =>
    rw [readLine] at h
    cases h
  | blank c rest hblank ih =>
    rw [readLine_blank number col hblank] at h
    obtain ⟨d, span, ho, hmem, hothers⟩ := ih h
    exact ⟨d, span, ho, List.mem_cons_of_mem _ hmem, hothers⟩
  | offence c rest hbegun hblank =>
    rw [readLine_offence number col hbegun hblank] at h
    exact ⟨c, _, (Option.some.inj h).symm, List.mem_cons_self, hbegun, hblank⟩
  | lexeme kind text after hlexeme hends ih =>
    rw [readLine_lexeme number col hlexeme hends] at h
    obtain ⟨d, span, ho, hmem, hothers⟩ := ih h
    exact ⟨d, span, ho, List.mem_append_right _ hmem, hothers⟩

end Line

/-! ## Reading line after line -/

section Lines

variable {number : Int} {lines : List (List Char)}

/-- A token was read of one of the lines. -/
theorem of_mem_readLines {t : Token} (ht : t ∈ (readLines number lines).tokens) :
    ∃ (n : Nat) (row : List Char), lines[n]? = some row ∧ t ∈ (readLine (number + n) 0 row).tokens := by
  induction lines generalizing number with
  | nil => cases ht
  | cons row rest ih =>
    have hhead : t ∈ (readLine number 0 row).tokens → ∃ (n : Nat) (row' : List Char),
        (row :: rest)[n]? = some row' ∧ t ∈ (readLine (number + n) 0 row').tokens :=
      fun h => ⟨0, row, rfl, by simpa using h⟩
    rw [readLines] at ht
    cases ho : (readLine number 0 row).offence with
    | some o =>
      rw [Reading.append_of_offence_eq_some ho] at ht
      exact hhead ht
    | none =>
      rw [Reading.append_of_offence_eq_none ho] at ht
      rcases List.mem_append.mp ht with ht | ht
      · exact hhead ht
      · obtain ⟨n, row', hrow, hmem⟩ := ih ht
        refine ⟨n + 1, row', hrow, ?_⟩
        rwa [Int.natCast_succ, Int.add_comm (n : Int), ← Int.add_assoc]

/-- Without an offence in the whole there is none in any line, and all tokens of the lines were read. -/
theorem mem_readLines (h : (readLines number lines).offence = none) {n : Nat} {row : List Char}
    (hrow : lines[n]? = some row) : (readLine (number + n) 0 row).offence = none ∧
      ∀ t ∈ (readLine (number + n) 0 row).tokens, t ∈ (readLines number lines).tokens := by
  induction lines generalizing number n with
  | nil => cases hrow
  | cons row' rest ih =>
    rw [readLines, Reading.append_offence_eq_none_iff] at h
    rw [readLines, Reading.append_of_offence_eq_none h.1]
    cases n with
    | zero =>
      cases hrow
      rw [Int.natCast_zero, Int.add_zero]
      exact ⟨h.1, fun t ht => List.mem_append_left _ ht⟩
    | succ n =>
      obtain ⟨hnone, hmem⟩ := ih h.2 hrow
      rw [Int.natCast_succ, Int.add_comm (n : Int), ← Int.add_assoc]
      exact ⟨hnone, fun t ht => List.mem_append_right _ (hmem t ht)⟩

/-- An offence was met in one of the lines. -/
theorem of_offence_readLines {o : Offence} (h : (readLines number lines).offence = some o) :
    ∃ (n : Nat) (row : List Char), lines[n]? = some row ∧ (readLine (number + n) 0 row).offence = some o := by
  induction lines generalizing number with
  | nil => cases h
  | cons row rest ih =>
    rw [readLines] at h
    cases ho : (readLine number 0 row).offence with
    | some o' =>
      rw [Reading.append_of_offence_eq_some ho, ho] at h
      exact ⟨0, row, rfl, by simpa [h] using ho⟩
    | none =>
      rw [Reading.append_of_offence_eq_none ho] at h
      obtain ⟨n, row', hrow, ho'⟩ := ih h
      refine ⟨n + 1, row', hrow, ?_⟩
      rwa [Int.natCast_succ, Int.add_comm (n : Int), ← Int.add_assoc]

theorem standsOn_of_mem_readLines {t : Token} (ht : t ∈ (readLines number lines).tokens) :
    Lexeme t.kind t.text.toList ∧
      ∃ (n : Nat) (row : List Char), lines[n]? = some row ∧ t.StandsOn (number + n) row := by
  obtain ⟨n, row, hrow, hmem⟩ := of_mem_readLines ht
  obtain ⟨hlexeme, before, after, hsplit, hends, hspan⟩ := of_mem_readLine hmem
  rw [Nat.zero_add] at hspan
  exact ⟨hlexeme, n, row, hrow, before, after, hsplit, hends, hspan⟩

/-- Lines are read in their order. -/
theorem ordered_readLines : (readLines number lines).tokens.Pairwise Token.Before := by
  induction lines generalizing number with
  | nil => exact List.Pairwise.nil
  | cons row rest ih =>
    rw [readLines]
    cases ho : (readLine number 0 row).offence with
    | some o =>
      rw [Reading.append_of_offence_eq_some ho]
      exact ordered_readLine
    | none =>
      rw [Reading.append_of_offence_eq_none ho]
      refine List.pairwise_append.mpr ⟨ordered_readLine, ih, fun t ht u hu => Or.inl ?_⟩
      obtain ⟨_, _, _, _, _, hspan⟩ := of_mem_readLine ht
      obtain ⟨_, n, _, _, _, _, _, _, hspan'⟩ := standsOn_of_mem_readLines hu
      rw [hspan, hspan']
      show number < number + 1 + n
      omega

/-- **What is read of lines without an offence is their tiling.** -/
theorem tiling_readLines (h : (readLines 1 lines).offence = none) : Tiling lines (readLines 1 lines).tokens where
  lexeme _ ht := (standsOn_of_mem_readLines ht).1
  place t ht := by
    obtain ⟨n, row, hrow, hstands⟩ := (standsOn_of_mem_readLines ht).2
    rw [Int.add_comm] at hstands
    exact ⟨n, row, hrow, hstands⟩
  ordered := ordered_readLines
  cover n row hrow col c hc := by
    obtain ⟨hnone, hmem⟩ := mem_readLines h hrow
    rcases covered_readLine hnone col c hc with hblank | ⟨t, ht, hcovers⟩
    · exact Or.inl hblank
    · rw [Nat.zero_add, Int.add_comm] at hcovers
      exact Or.inr ⟨t, hmem t ht, hcovers⟩

end Lines

end Lexer

/-! ## Programs -/

/-- A character that a token on a line covers is part of its text. -/
theorem Token.StandsOn.mem_of_covers {number number' : Int} {row : List Char} {t : Token}
    (h : t.StandsOn number row) {col : Nat} (hcovers : t.Covers number' col) {c : Char} (hc : row[col]? = some c) :
    c ∈ t.text.toList := by
  obtain ⟨before, after, rfl, _, hspan⟩ := h
  obtain ⟨_, hstart, hend⟩ := hcovers
  rw [hspan] at hstart hend
  have hstart : before.length ≤ col := Int.ofNat_le.mp hstart
  have hend : col < before.length + t.text.toList.length := Int.ofNat_lt.mp hend
  rw [List.append_assoc, List.getElem?_append_right hstart, List.getElem?_append_left (by omega)] at hc
  exact List.mem_of_getElem? hc

/-- Lines that have a tiling are read without an offence. -/
theorem Tiling.offence_eq_none {lines : List (List Char)} {tokens : List Token} (h : Tiling lines tokens) :
    (Lexer.readLines 1 lines).offence = none := by
  rw [Option.eq_none_iff_forall_not_mem]
  intro o ho
  obtain ⟨n, row, hrow, ho⟩ := Lexer.of_offence_readLines ho
  obtain ⟨c, _, _, hmem, hbegun, hblank⟩ := Lexer.of_offence_readLine ho
  obtain ⟨col, hcol⟩ := List.getElem?_of_mem hmem
  rcases h.cover n row hrow col c hcol with hblank' | ⟨t, ht, hcovers⟩
  · rw [hblank] at hblank'
    cases hblank'
  · have hstands := h.standsOn_of_covers ht hrow hcovers
    exact (h.lexeme t ht).begunBy?_ne_none (hstands.mem_of_covers hcovers hcol) hbegun

theorem Tiling.isFinish_eq_false {lines : List (List Char)} {tokens : List Token} (h : Tiling lines tokens) :
    ∀ t ∈ tokens, t.isFinish = false := by
  intro t ht
  have hne := (h.lexeme t ht).ne_finish
  exact beq_eq_false_iff_ne.mpr hne

/-- The end token of lines ends them. -/
theorem Lexer.endOf_endToken (lines : List (List Char)) : (endToken lines).EndOf lines := by
  refine ⟨(lines.getLastD []).length, ?_, ?_, ?_⟩
  · rintro rfl
    rfl
  · intro last hlast
    rw [List.getLastD_eq_getLast?, hlast]
    rfl
  · rw [endToken]
    congr 2
    omega

/-- Lines have one end token. -/
theorem Token.EndOf.eq {lines : List (List Char)} {t u : Token} (ht : t.EndOf lines) (hu : u.EndOf lines) : t = u := by
  obtain ⟨col, hnil, hlast, rfl⟩ := ht
  obtain ⟨col', hnil', hlast', rfl⟩ := hu
  have hcol : col = col' := by
    cases h : lines.getLast? with
    | none => rw [hnil (List.getLast?_eq_none_iff.mp h), hnil' (List.getLast?_eq_none_iff.mp h)]
    | some last => rw [hlast last h, hlast' last h]
  rw [hcol]

section

variable {lines : List (List Char)} {tokens : List Token}

/-- Each token stands at its place, the end token too, unless there are no lines. -/
theorem EndedTiling.standsAt (h : EndedTiling lines tokens) (hne : lines ≠ []) {t : Token} (ht : t ∈ tokens) :
    Span.StandsAt lines t.span t.text.toList := by
  obtain ⟨tiles, finish, rfl, htiling, _, col, _, hcol, rfl⟩ := h
  rcases List.mem_append.mp ht with ht | ht
  · obtain ⟨n, row, hrow, before, after, rfl, _, hspan⟩ := htiling.place t ht
    exact ⟨n, before, after, hrow, hspan⟩
  · have hlast := List.getLast?_eq_some_getLast hne
    have hnumber : max 1 lines.length = lines.length - 1 + 1 := by
      have := List.length_pos_iff.mpr hne
      omega
    rw [List.mem_singleton.mp ht, hcol _ hlast, hnumber]
    refine ⟨lines.length - 1, lines.getLast hne, [], ?_, rfl⟩
    rw [← List.getLast?_eq_getElem?, hlast]
    simp

/-- The tokens stand in their order, the end token behind all others. -/
theorem EndedTiling.ordered (h : EndedTiling lines tokens) : tokens.Pairwise Token.Before := by
  obtain ⟨tiles, finish, rfl, htiling, _, col, _, hcol, rfl⟩ := h
  refine List.pairwise_append.mpr ⟨htiling.ordered, List.pairwise_singleton _ _, fun t ht u hu => ?_⟩
  obtain ⟨n, row, hrow, before, after, rfl, _, hspan⟩ := htiling.place t ht
  have hlt : n < lines.length := (List.getElem?_eq_some_iff.mp hrow).1
  rw [List.mem_singleton.mp hu, Token.Before, hspan]
  simp only [Span.Before, Span.onLine]
  by_cases hlast : n + 1 = lines.length
  · have hrow' : lines.getLast? = some (before ++ t.text.toList ++ after) := by
      rw [List.getLast?_eq_getElem?, ← hlast]
      exact hrow
    have hlength := hcol _ hrow'
    rw [List.length_append, List.length_append] at hlength
    omega
  · omega

end

/-- The tokens of a program are those of its lines and the end token, if there is no offence. -/
theorem tokenize_eq_ok_iff {program : String} {tokens : List Token} :
    tokenize program = .ok tokens ↔ (Lexer.readLines 1 (lines program.toList)).offence = none ∧
      tokens = (Lexer.readLines 1 (lines program.toList)).tokens ++ [Lexer.endToken (lines program.toList)] := by
  show (Lexer.read program).result program = .ok tokens ↔ _
  rw [Lexer.read]
  cases ho : (Lexer.readLines 1 (lines program.toList)).offence with
  | some o => simp [Reading.append_of_offence_eq_some ho, Reading.result, ho]
  | none =>
    simp only [Reading.append_of_offence_eq_none ho, Reading.result, Except.ok.injEq, true_and]
    exact eq_comm

/-- The tokens of a program are the tiling of its lines, and the token that ends them. -/
theorem tiling_of_tokenize {program : String} {tokens : List Token} (h : tokenize program = .ok tokens) :
    EndedTiling (lines program.toList) tokens := by
  obtain ⟨hnone, htokens⟩ := tokenize_eq_ok_iff.mp h
  have htiling := Lexer.tiling_readLines hnone
  exact ⟨_, _, htokens, htiling, htiling.isFinish_eq_false, Lexer.endOf_endToken _⟩

/-- The tokens of a program end in an end token, and before it they are a tiling of its lines. -/
theorem tiling_body {program : String} {tokens : List Token} (h : tokenize program = .ok tokens) :
    Token.Ended tokens ∧ Tiling (lines program.toList) (Token.body tokens) := by
  obtain ⟨tiles, finish, rfl, htiling, hnone, _, _, _, rfl⟩ := tiling_of_tokenize h
  refine ⟨⟨_, List.getLast?_concat, rfl⟩, ?_⟩
  rwa [Token.body_append hnone rfl]

theorem tokenize_of_tiling {program : String} {tokens : List Token}
    (h : EndedTiling (lines program.toList) tokens) : tokenize program = .ok tokens := by
  obtain ⟨tiles, finish, rfl, htiling, _, hend⟩ := h
  have hnone := htiling.offence_eq_none
  refine tokenize_eq_ok_iff.mpr ⟨hnone, ?_⟩
  rw [htiling.eq (Lexer.tiling_readLines hnone), hend.eq (Lexer.endOf_endToken _)]

/-- **Reading is the unique maximal-munch tiling.** A program is read to given tokens exactly if these are a tiling of
its lines by whole lexemes and the token that ends them, and its lines have no other tiling. -/
theorem tokenize_ok_iff_tiling (program : String) :
    (∀ tokens, tokenize program = .ok tokens ↔ EndedTiling (lines program.toList) tokens) ∧
    ∀ tokens others, EndedTiling (lines program.toList) tokens → EndedTiling (lines program.toList) others →
      others = tokens := by
  refine ⟨fun tokens => ⟨tiling_of_tokenize, tokenize_of_tiling⟩, fun tokens others h h' => ?_⟩
  have hothers := tokenize_of_tiling h'
  rw [tokenize_of_tiling h] at hothers
  exact (Except.ok.inj hothers).symm

end ArrayExpr
