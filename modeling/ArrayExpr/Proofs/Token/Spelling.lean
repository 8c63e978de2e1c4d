import ArrayExpr.Proofs.Text.Lines
import ArrayExpr.Proofs.Token.Scanning
import ArrayExpr.Tree.Source

/-!
# Spelled tokens are read again

Tokens that have lexemes are spelled as one line, in which each of them is followed by a space or hugs its neighbour. No
lexeme goes on into the next one: a space is part of none, nothing continues a bracket, and a bracket continues nothing
(`endsBefore_gap`). So the spelling is read to tokens of the same contents (`readLine_spell`, `tokenize_spell`).
-/

namespace ArrayExpr

open Text

/-! ## What ends a lexeme -/

theorem Kind.mayPrecede_of_isBlank (kind : Kind) {c : Char} (h : isBlank c = true) : kind.MayPrecede c := by
  have hletter := isLetter_of_isBlank h
  have hdigit := isDigit_of_isBlank h
  cases kind <;> simp [MayPrecede, hletter, hdigit]

theorem Kind.mayPrecede_of_symbol (kind : Kind) {kind' : Kind} {c : Char} (h : ofSymbol? c = some kind') :
    kind.MayPrecede c := by
  obtain ⟨hletter, hdigit, _⟩ := classes_of_symbol h
  cases kind <;> simp [MayPrecede, hletter, hdigit]

theorem Kind.mayPrecede_of_hugsNext {kind : Kind} (h : kind.hugsNext = true) (c : Char) : kind.MayPrecede c := by
  cases kind with
  | openRound => trivial
  | openSquare => trivial
  | _ => cases h

theorem Kind.hasLexeme_of_hugsPrevious {kind : Kind} (h : kind.hugsPrevious = true) : kind.hasLexeme = true := by
  cases kind <;> first | rfl | cases h

theorem Lexeme.eq_spelling {kind : Kind} {text : List Char} (h : Lexeme kind text) (hfixed : kind.hasLexeme = true) :
    text = kind.spelling.toList := by
  cases h with
  | identifier => cases hfixed
  | number => cases hfixed
  | fixed => rfl

theorem endsBefore_nil (kind : Kind) : kind.EndsBefore [] := by
  intro c hc
  cases hc

namespace Token

/-- All tokens have lexemes of their kinds. -/
def Lexical (tokens : List Token) : Prop := ∀ t ∈ tokens, Lexeme t.kind t.text.toList

theorem lexical_cons {t : Token} {ts : List Token} :
    Lexical (t :: ts) ↔ Lexeme t.kind t.text.toList ∧ Lexical ts := List.forall_mem_cons

/-- Tokens have lexemes if tokens that say the same have. -/
theorem Lexical.congr {ts us : List Token} (h : Lexical ts) (hcontent : us.map content = ts.map content) :
    Lexical us := by
  intro u hu
  have hmem : u.content ∈ ts.map content := hcontent ▸ List.mem_map_of_mem hu
  obtain ⟨t, ht, heq⟩ := List.mem_map.mp hmem
  obtain ⟨htext, hkind⟩ := Prod.mk.inj heq
  rw [← htext, ← hkind]
  exact h t ht

/-! ## Spelling -/

/-- Tokens that say the same are spelled the same. -/
theorem spell_congr {ts us : List Token} (h : ts.map content = us.map content) : spell ts = spell us := by
  induction ts generalizing us with
  | nil => rw [List.map_eq_nil_iff.mp h.symm]
  | cons t ts ih =>
    obtain ⟨u, us, rfl, hhead, htail⟩ := List.map_eq_cons_iff.mp h.symm
    obtain ⟨htext, hkind⟩ := Prod.mk.inj hhead
    cases ts with
    | nil =>
      rw [List.map_eq_nil_iff.mp htail, spell, spell, htext]
    | cons t' ts =>
      obtain ⟨u', us, rfl, hnext, _⟩ := List.map_eq_cons_iff.mp htail
      have hkind' : u'.kind = t'.kind := congrArg Prod.snd hnext
      rw [spell, spell, gap, gap, htext, hkind, hkind', ih htail.symm]

/-- Between two tokens stands a space, or nothing and one of the two is a bracket that hugs the other. -/
theorem gap_cases (t u : Token) :
    gap t u = [' '] ∨ gap t u = [] ∧ (t.kind.hugsNext = true ∨ u.kind.hugsPrevious = true) := by
  rw [gap, ← Bool.or_eq_true]
  cases t.kind.hugsNext || u.kind.hugsPrevious with
  | true => exact Or.inr ⟨rfl, rfl⟩
  | false => exact Or.inl rfl

theorem exists_spell_cons (t : Token) (ts : List Token) : ∃ rest, spell (t :: ts) = t.text.toList ++ rest := by
  cases ts with
  | nil => exact ⟨[], (List.append_nil _).symm⟩
  | cons u us => exact ⟨gap t u ++ spell (u :: us), List.append_assoc _ _ _⟩

/-- The lexeme of a token ends before the next token. -/
theorem endsBefore_gap (t : Token) {u : Token} (hu : Lexeme u.kind u.text.toList) (ts : List Token) :
    t.kind.EndsBefore (gap t u ++ spell (u :: ts)) := by
  rcases gap_cases t u with hspace | ⟨hnone, hnext | hprevious⟩
  · rw [hspace]
    intro c hc
    cases hc
    exact t.kind.mayPrecede_of_isBlank (by decide)
  · exact fun c _ => Kind.mayPrecede_of_hugsNext hnext c
  · obtain ⟨rest, hrest⟩ := exists_spell_cons u ts
    have hfixed := Kind.hasLexeme_of_hugsPrevious hprevious
    obtain ⟨c, hspelling, hsymbol⟩ := Kind.exists_spelling hfixed
    rw [hnone, hrest, hu.eq_spelling hfixed, hspelling]
    intro d hd
    cases hd
    exact t.kind.mayPrecede_of_symbol hsymbol

end Token

open Token

/-- A spelling is read to tokens that say the same. -/
theorem Lexer.readLine_spell (number : Int) (col : Nat) {ts : List Token} (h : Lexical ts) :
    (readLine number col (spell ts)).offence = none ∧
      (readLine number col (spell ts)).tokens.map content = ts.map content := by
  fun_induction spell ts generalizing col with
  | case1 =>
    rw [readLine]
    exact ⟨rfl, rfl⟩
  | case2 t =>
    have hread := readLine_lexeme number col (h t List.mem_cons_self) (endsBefore_nil t.kind)
    rw [List.append_nil, readLine] at hread
    rw [hread]
    exact ⟨rfl, by simp [Reading.cons, Reading.empty, content]⟩
  | case3 t u ts ih =>
    obtain ⟨ht, hrest⟩ := lexical_cons.mp h
    have hread := readLine_lexeme number col ht (endsBefore_gap t (lexical_cons.mp hrest).1 ts)
    rw [List.append_assoc, hread]
    -- behind the gap the rest is spelled, at a column that depends on the gap
    have hgap : ∃ col', readLine number (col + t.text.toList.length) (gap t u ++ spell (u :: ts)) =
        readLine number col' (spell (u :: ts)) := by
      rcases gap_cases t u with hspace | ⟨hnone, _⟩
      · rw [hspace]
        exact ⟨_, readLine_blank number _ (by decide) _⟩
      · rw [hnone]
        exact ⟨_, rfl⟩
    obtain ⟨col', hcol'⟩ := hgap
    obtain ⟨hnone, hsame⟩ := ih col' hrest
    rw [hcol']
    exact ⟨hnone, by simpa [Reading.cons, content] using hsame⟩

/-! ## The line of a spelling -/

/-- A spelling has spaces and the characters of the tokens. -/
theorem Token.mem_spell {c : Char} : ∀ {ts : List Token}, c ∈ spell ts → c = ' ' ∨ ∃ t ∈ ts, c ∈ t.text.toList
  | [], h => nomatch h
  | [t], h => Or.inr ⟨t, List.mem_cons_self, h⟩
  | t :: u :: ts, h => by
    rw [spell, List.append_assoc, List.mem_append, List.mem_append] at h
    rcases h with htext | hgap | hrest
    · exact Or.inr ⟨t, List.mem_cons_self, htext⟩
    · rcases gap_cases t u with hspace | ⟨hnone, _⟩
      · rw [hspace] at hgap
        exact Or.inl (List.mem_singleton.mp hgap)
      · rw [hnone] at hgap
        cases hgap
    · rcases mem_spell hrest with hspace | ⟨v, hv, hc⟩
      · exact Or.inl hspace
      · exact Or.inr ⟨v, List.mem_cons_of_mem _ hv, hc⟩

theorem Token.isLineBreak_of_mem_spell {ts : List Token} (h : Lexical ts) {c : Char} (hc : c ∈ spell ts) :
    isLineBreak c = false := by
  rw [Bool.eq_false_iff]
  intro hbreak
  rcases mem_spell hc with rfl | ⟨t, ht, hmem⟩
  · exact absurd hbreak (by decide)
  · exact (h t ht).begunBy?_ne_none hmem (begunBy?_of_isLineBreak hbreak)

/-- The lines of a spelling are read to tokens that say the same. -/
theorem Lexer.readLines_spell {ts : List Token} (h : Lexical ts) :
    (readLines 1 (lines (spell ts))).offence = none ∧
      (readLines 1 (lines (spell ts))).tokens.map content = ts.map content := by
  by_cases hnil : spell ts = []
  · have hread := readLine_spell 1 0 h
    rw [hnil, readLine] at hread
    rw [hnil, lines_nil, readLines]
    exact hread
  · rw [Text.lines_of_no_break (fun c hc => isLineBreak_of_mem_spell h hc) hnil]
    obtain ⟨hnone, hsame⟩ := readLine_spell 1 0 h
    rw [readLines, Reading.append_of_offence_eq_none hnone]
    exact ⟨rfl, by simpa [readLines, Reading.empty] using hsame⟩

/-- Tokens that have lexemes are spelled to a program with tokens that say the same. -/
theorem tokenize_spell {ts : List Token} (h : Lexical ts) :
    ∃ tokens, tokenize (String.ofList (spell ts)) = .ok tokens ∧ Ended tokens ∧
      (body tokens).map content = ts.map content := by
  obtain ⟨hnone, hsame⟩ := Lexer.readLines_spell h
  have hread : tokenize (String.ofList (spell ts)) =
      .ok ((Lexer.readLines 1 (lines (spell ts))).tokens ++ [Lexer.endToken (lines (spell ts))]) := by
    rw [tokenize_eq_ok_iff, String.toList_ofList]
    exact ⟨hnone, rfl⟩
  refine ⟨_, hread, (tiling_body hread).1, ?_⟩
  rw [Token.body_append (Lexer.tiling_readLines hnone).isFinish_eq_false rfl, hsame]

end ArrayExpr
