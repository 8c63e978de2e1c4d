import ArrayExpr.Proofs.Token.Offence

/-!
# Reading texts that are laid out differently

A text may be read from any place of a program on (`readText`), and what is read says the same from everywhere: the
places differ, but not the `gist`, which is the contents of the tokens and the character of the offence. Lexemes are
read as tokens, separators are skipped, and an illegal character stops the reading; the line breaks among the
separators matter no more than the blanks. So one run of separators may stand for another (`Alike.layout`), as long as
there is one: a lexeme before it ends there.
-/

namespace ArrayExpr

open Text

/-- The character that is refused. -/
def Offence.char? : Offence → Option Char
  | character char _ => some char
  | unknownName _ => none

namespace Reading

/-- What a reading says, places apart: the contents of its tokens, and the character of its offence. -/
def gist (r : Reading) : List (String × Kind) × Option (Option Char) :=
  (r.tokens.map Token.content, r.offence.map Offence.char?)

theorem gist_cons (t : Token) (r : Reading) : (cons t r).gist = (t.content :: r.gist.1, r.gist.2) := rfl

theorem cons_append (t : Token) (a b : Reading) : (cons t a).append b = cons t (a.append b) := by
  obtain ⟨ts, _ | o⟩ := a <;> rfl

end Reading

namespace Text

/-- Characters that break no line stand in front of the first line. -/
theorem lines_append {text : List Char} (h : ∀ c ∈ text, isLineBreak c = false) (after : List Char) :
    (lines (text ++ after)).headD [] = text ++ (lines after).headD [] ∧
      (lines (text ++ after)).tail = (lines after).tail := by
  induction text with
  | nil => exact ⟨rfl, rfl⟩
  | cons c text ih =>
    obtain ⟨hc, htext⟩ := List.forall_mem_cons.mp h
    obtain ⟨hhead, htail⟩ := ih htext
    rw [List.cons_append, lines_cons_of_not_break hc, extendFirst_eq, hhead]
    exact ⟨rfl, htail⟩

/-- The first line of a text is empty or begins as the text does. -/
theorem head?_headD_lines (cs : List Char) :
    ((lines cs).headD []).head? = none ∨ ((lines cs).headD []).head? = cs.head? := by
  cases cs with
  | nil => exact Or.inl rfl
  | cons c rest =>
    cases hc : isLineBreak c with
    | false =>
      rw [lines_cons_of_not_break hc, extendFirst_eq]
      exact Or.inr rfl
    | true =>
      rcases lines_cons_of_break hc rest with ⟨rfl, hfeed, _⟩ | ⟨_, hlines⟩
      · obtain ⟨rest', rfl⟩ := List.head?_eq_some_iff.mp hfeed
        exact Or.inl rfl
      · rw [hlines]
        exact Or.inl rfl

end Text

namespace Lexer

/-- What is read of a text that goes on at a column of a line. -/
def readText (number : Int) (col : Nat) (cs : List Char) : Reading :=
  (readLine number col ((lines cs).headD [])).append (readLines (number + 1) (lines cs).tail)

variable (number : Int) (col : Nat)

theorem readLines_lines (cs : List Char) : readLines number (lines cs) = readText number 0 cs := by
  rw [readText]
  cases lines cs with
  | nil =>
    rw [List.headD_nil, readLine]
    rfl
  | cons row rows => rfl

/-! ## Steps -/

/-- A whole lexeme is read as a token. -/
theorem readText_lexeme {kind : Kind} {text after : List Char} (h : Lexeme kind text) (hends : kind.EndsBefore after) :
    readText number col (text ++ after) =
      .cons ⟨String.ofList text, kind, .onLine number col (col + text.length : Nat)⟩
        (readText number (col + text.length) after) := by
  have hbreak : ∀ c ∈ text, isLineBreak c = false := fun c hc => by
    rw [Bool.eq_false_iff]
    exact fun hb => h.begunBy?_ne_none hc (begunBy?_of_isLineBreak hb)
  obtain ⟨hhead, htail⟩ := lines_append hbreak after
  have hends' : kind.EndsBefore ((lines after).headD []) := by
    intro c hc
    rcases head?_headD_lines after with hnone | hsame
    · rw [hnone] at hc
      cases hc
    · exact hends c (hsame ▸ hc)
  rw [readText, hhead, htail, readLine_lexeme number col h hends', Reading.cons_append, readText]

/-- The place behind a separator, which may depend on the next character: a line break begins a new line, but a carriage
return in front of a line feed leaves that to the feed. -/
def behindSeparator (c : Char) (next : Option Char) : Int × Nat :=
  if isLineBreak c then if c = '\r' ∧ next = some '\n' then (number, col) else (number + 1, 0)
  else (number, col + 1)

/-- A separator is skipped: the rest of the text is read at the place behind it. -/
theorem readText_separator {c : Char} (h : isSeparator c = true) (rest : List Char) :
    readText number col (c :: rest) = readText (behindSeparator number col c rest.head?).1
      (behindSeparator number col c rest.head?).2 rest := by
  unfold behindSeparator
  cases hbreak : isLineBreak c with
  | true =>
    rcases lines_cons_of_break hbreak rest with ⟨hreturn, hfeed, hlines⟩ | ⟨hends, hlines⟩
    · rw [if_pos rfl, if_pos ⟨hreturn, hfeed⟩, readText, hlines, readText]
    · rw [if_pos rfl, if_neg fun h => hends h.1 h.2, readText, hlines, List.headD_cons, readLine, List.tail_cons,
        Reading.empty_append, readLines_lines]
  | false =>
    have hblank : isBlank c = true := by simpa [isSeparator, hbreak] using h
    rw [readText, lines_cons_of_not_break hbreak, extendFirst_eq, List.headD_cons, readLine_blank _ _ hblank]
    rfl

theorem exists_readText_separator {c : Char} (h : isSeparator c = true) (rest : List Char) :
    ∃ number' col', readText number col (c :: rest) = readText number' col' rest :=
  ⟨_, _, readText_separator number col h rest⟩

theorem readText_illegal {c : Char} (h : Illegal c) (rest : List Char) :
    readText number col (c :: rest) = ⟨[], some (.character c (.onLine number col (col + 1)))⟩ := by
  obtain ⟨hbegun, hseparator⟩ := illegal_iff.mp h
  obtain ⟨hblank, hbreak⟩ := isSeparator_eq_false_iff.mp hseparator
  rw [readText, lines_cons_of_not_break hbreak, extendFirst_eq, List.headD_cons, readLine_offence _ _ hbegun hblank]
  rfl

/-! ## Texts that say the same -/

/-- The texts say the same, wherever they are read. -/
def Alike (cs ds : List Char) : Prop := ∀ (number number' : Int) (col col' : Nat),
  (readText number col cs).gist = (readText number' col' ds).gist

namespace Alike

variable {cs ds es : List Char}

theorem symm (h : Alike cs ds) : Alike ds cs := fun number number' col col' => (h number' number col' col).symm

theorem trans (h : Alike cs ds) (h' : Alike ds es) : Alike cs es := fun number number' col col' =>
  (h number number col col).trans (h' number number' col col')

theorem nil : Alike [] [] := by
  intro number number' col col'
  rw [readText, readText, lines_nil, List.headD_nil, readLine, readLine]
  rfl

theorem lexeme {kind : Kind} {text : List Char} (hlexeme : Lexeme kind text) (hcs : kind.EndsBefore cs)
    (hds : kind.EndsBefore ds) (h : Alike cs ds) : Alike (text ++ cs) (text ++ ds) := by
  intro number number' col col'
  rw [readText_lexeme number col hlexeme hcs, readText_lexeme number' col' hlexeme hds, Reading.gist_cons,
    Reading.gist_cons, h number number' _ (col' + text.length)]
  rfl

theorem separator {c : Char} (hc : isSeparator c = true) (h : Alike cs ds) : Alike (c :: cs) ds := by
  intro number number' col col'
  obtain ⟨_, _, hskip⟩ := exists_readText_separator number col hc cs
  rw [hskip]
  exact h ..

/-- A character that begins no token may stand in front of both texts. -/
theorem other {c : Char} (hc : Kind.begunBy? c = none) (h : Alike cs ds) : Alike (c :: cs) (c :: ds) := by
  cases hseparator : isSeparator c with
  | true => exact ((h.separator hseparator).symm.separator hseparator).symm
  | false =>
    have hillegal := illegal_iff.mpr ⟨hc, hseparator⟩
    intro number number' col col'
    rw [readText_illegal number col hillegal, readText_illegal number' col' hillegal]
    rfl

/-- What a text says does not depend on its place. -/
theorem refl (cs : List Char) : Alike cs cs := by
  induction cs using byLexemes with
  | nil => exact nil
  | other c rest hc ih => exact other hc ih
  | lexeme kind text after hlexeme hends ih => exact lexeme hlexeme hends hends ih

theorem separators {w : List Char} (hw : ∀ c ∈ w, isSeparator c = true) (cs : List Char) : Alike (w ++ cs) cs := by
  induction w with
  | nil => exact refl cs
  | cons c w ih =>
    obtain ⟨hc, hw⟩ := List.forall_mem_cons.mp hw
    exact separator hc (ih hw)

/-- **Layout does not matter**: separators may stand for others, if there are some. By induction along the lexemes
before them, of which the last one may reach up to the separators but not into them. -/
theorem layout {w w' : List Char} (hw : ∀ c ∈ w, isSeparator c = true) (hw' : ∀ c ∈ w', isSeparator c = true)
    (hne : w ≠ []) (hne' : w' ≠ []) (front back : List Char) :
    Alike (front ++ (w ++ back)) (front ++ (w' ++ back)) := by
  induction front using byLexemes with
  | nil => exact (separators hw back).trans (separators hw' back).symm
  | other c rest hc ih => exact other hc ih
  | lexeme kind text after hlexeme hends ih =>
    have hends' : ∀ {v : List Char}, (∀ c ∈ v, isSeparator c = true) → v ≠ [] →
        kind.EndsBefore (after ++ (v ++ back)) := by
      intro v hv hne
      obtain ⟨c, v, rfl⟩ := List.exists_cons_of_ne_nil hne
      exact hends.append_cons (begunBy?_of_isSeparator (hv c List.mem_cons_self)) (v ++ back)
    rw [List.append_assoc, List.append_assoc]
    exact lexeme hlexeme (hends' hw hne) (hends' hw' hne') ih

end Alike

end Lexer

/-! ## Programs -/

/-- Programs that say the same have tokens of the same contents, or are refused for the same character. -/
theorem tokenize_of_alike {program program' : String} (h : Lexer.Alike program.toList program'.toList) :
    (∃ ts us, tokenize program = .ok ts ∧ tokenize program' = .ok us ∧
      ts.map Token.content = us.map Token.content) ∨
    ∃ d e char, tokenize program = .error (.lexical d) ∧ tokenize program' = .error (.lexical e) ∧
      d.problem = .unexpectedCharacter char ∧ e.problem = .unexpectedCharacter char := by
  have hgist := h 1 1 0 0
  rw [← Lexer.readLines_lines, ← Lexer.readLines_lines, Reading.gist, Reading.gist, Prod.mk.injEq] at hgist
  obtain ⟨htokens, hoffence⟩ := hgist
  cases htokenize : tokenize program with
  | ok ts =>
    obtain ⟨hnone, rfl⟩ := tokenize_eq_ok_iff.mp htokenize
    rw [hnone, Option.map_none, eq_comm, Option.map_eq_none_iff] at hoffence
    refine Or.inl ⟨_, _, rfl, tokenize_eq_ok_iff.mpr ⟨hoffence, rfl⟩, ?_⟩
    rw [List.map_append, List.map_append, htokens]
    rfl
  | error failure =>
    obtain ⟨c, span, ho, rfl⟩ := tokenize_eq_error_iff.mp htokenize
    cases htokenize' : tokenize program' with
    | ok us =>
      rw [ho, (tokenize_eq_ok_iff.mp htokenize').1] at hoffence
      cases hoffence
    | error failure' =>
      obtain ⟨c', span', ho', rfl⟩ := tokenize_eq_error_iff.mp htokenize'
      rw [ho, ho'] at hoffence
      cases hoffence
      exact Or.inr ⟨_, _, String.singleton c, rfl, rfl, rfl, rfl⟩

end ArrayExpr
