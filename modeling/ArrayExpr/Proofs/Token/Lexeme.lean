import ArrayExpr.Proofs.Token.Pattern

/-!
# Lexemes

A text is a `Lexeme` of a kind if tokens of the kind may have it: an identifier is a letter followed by letters and
digits, a number is a run of digits, an operator or bracket has the spelling of its kind. A lexeme is whole if what
follows it in its line could not be part of it (`Kind.MayPrecede`). The lexer reads whole lexemes: a text begins with at
most one of them (`Lexeme.munch`), and after it the lexer goes on with the rest (`readLine_lexeme`).
-/

namespace ArrayExpr

open Text

/-- **Lexically valid texts of a kind.** -/
inductive Lexeme : Kind → List Char → Prop
  | identifier {c : Char} {cs : List Char} : isLetter c = true → (∀ d ∈ cs, isLetter d = true ∨ isDigit d = true) →
      Lexeme .identifier (c :: cs)
  | number {c : Char} {cs : List Char} : isDigit c = true → (∀ d ∈ cs, isDigit d = true) → Lexeme .number (c :: cs)
  | fixed {kind : Kind} : kind.hasLexeme = true → Lexeme kind kind.spelling.toList

/-- The character would not be part of a lexeme of the kind before it. -/
def Kind.MayPrecede : Kind → Char → Prop
  | identifier, c => isLetter c = false ∧ isDigit c = false
  | number, c => isDigit c = false
  | _, _ => True

/-- A lexeme of the kind ends before these characters. -/
def Kind.EndsBefore (kind : Kind) (after : List Char) : Prop := ∀ c ∈ after.head?, kind.MayPrecede c

theorem Kind.mayPrecede_iff (kind : Kind) (c : Char) : kind.MayPrecede c ↔ kind.continues c = false := by
  cases kind <;> simp [MayPrecede, continues]

/-! ## Characters of lexemes -/

/-- The spelling of an operator or bracket is the character that stands for it. -/
theorem Kind.exists_spelling {kind : Kind} (h : kind.hasLexeme = true) :
    ∃ c, kind.spelling.toList = [c] ∧ Kind.ofSymbol? c = some kind := by
  cases kind with
  | identifier => cases h
  | number => cases h
  | finish => cases h
  | openRound => exact ⟨'(', rfl, rfl⟩
  | closeRound => exact ⟨')', rfl, rfl⟩
  | openSquare => exact ⟨'[', rfl, rfl⟩
  | closeSquare => exact ⟨']', rfl, rfl⟩
  | plus => exact ⟨'+', rfl, rfl⟩
  | star => exact ⟨'*', rfl, rfl⟩
  | slash => exact ⟨'/', rfl, rfl⟩

theorem Kind.spelling_of_ofSymbol? {kind : Kind} {c : Char} (h : Kind.ofSymbol? c = some kind) :
    kind.hasLexeme = true ∧ kind.spelling.toList = [c] := by
  unfold Kind.ofSymbol? at h
  split at h
  all_goals first
    | cases h; exact ⟨rfl, rfl⟩
    | cases h

theorem begunBy?_of_isLetter {c : Char} (h : isLetter c = true) : Kind.begunBy? c = some .identifier := by
  rw [Kind.begunBy?, h]
  rfl

theorem begunBy?_of_isDigit {c : Char} (h : isDigit c = true) : Kind.begunBy? c = some .number := by
  rw [Kind.begunBy?, isLetter_of_isDigit h, h]
  rfl

theorem begunBy?_of_ofSymbol? {kind : Kind} {c : Char} (h : Kind.ofSymbol? c = some kind) :
    Kind.begunBy? c = some kind := by
  rw [Kind.begunBy?, (classes_of_symbol h).1, (classes_of_symbol h).2.1]
  exact h

variable {kind : Kind} {text : List Char}

/-- A lexeme is a character that begins its kind, and characters that continue it. -/
theorem Lexeme.exists_cons (h : Lexeme kind text) : ∃ c cs, text = c :: cs ∧ Kind.begunBy? c = some kind ∧
    ∀ d ∈ cs, kind.continues d = true := by
  cases h with
  | @identifier c cs hc hcs =>
    exact ⟨c, cs, rfl, begunBy?_of_isLetter hc, fun d hd => by simpa [Kind.continues] using hcs d hd⟩
  | @number c cs hc hcs => exact ⟨c, cs, rfl, begunBy?_of_isDigit hc, hcs⟩
  | fixed hfixed =>
    obtain ⟨c, hc, hs⟩ := Kind.exists_spelling hfixed
    exact ⟨c, [], hc, begunBy?_of_ofSymbol? hs, fun d hd => nomatch hd⟩

/-- A character that begins a kind, and characters that continue it, are a lexeme. -/
theorem lexeme_cons {c : Char} {cs : List Char} (hc : Kind.begunBy? c = some kind)
    (hcs : ∀ d ∈ cs, kind.continues d = true) : Lexeme kind (c :: cs) := by
  unfold Kind.begunBy? at hc
  split at hc
  · next hl =>
    cases hc
    exact .identifier hl fun d hd => by simpa [Kind.continues] using hcs d hd
  · split at hc
    · next hdigit =>
      cases hc
      exact .number hdigit hcs
    · obtain ⟨hfixed, hspelling⟩ := Kind.spelling_of_ofSymbol? hc
      have hnil : cs = [] := by
        cases cs with
        | nil => rfl
        | cons d ds =>
          have hd := hcs d List.mem_cons_self
          cases kind <;> simp [Kind.continues, Kind.hasLexeme] at hd hfixed
      rw [hnil, ← hspelling]
      exact .fixed hfixed

theorem Lexeme.ne_nil (h : Lexeme kind text) : text ≠ [] := by
  obtain ⟨c, cs, rfl, _⟩ := h.exists_cons
  exact List.cons_ne_nil c cs

theorem Lexeme.ne_finish (h : Lexeme kind text) : kind ≠ .finish := by
  rintro rfl
  cases h with
  | fixed hfixed => cases hfixed

/-- Each character of a lexeme could begin a token. -/
theorem Lexeme.begunBy?_ne_none (h : Lexeme kind text) {c : Char} (hc : c ∈ text) : Kind.begunBy? c ≠ none := by
  cases h with
  | identifier hfirst hothers =>
    rcases List.mem_cons.mp hc with rfl | hc
    · simp [begunBy?_of_isLetter hfirst]
    · rcases hothers c hc with hl | hd
      · simp [begunBy?_of_isLetter hl]
      · simp [begunBy?_of_isDigit hd]
  | number hfirst hothers =>
    rcases List.mem_cons.mp hc with rfl | hc
    · simp [begunBy?_of_isDigit hfirst]
    · simp [begunBy?_of_isDigit (hothers c hc)]
  | fixed hfixed =>
    obtain ⟨d, hd, hs⟩ := Kind.exists_spelling hfixed
    rw [hd, List.mem_singleton] at hc
    rw [hc, begunBy?_of_ofSymbol? hs]
    exact Option.some_ne_none _

/-! ## Whole lexemes -/

section Whole

variable {after : List Char}

/-- **Maximal munch**: the first character of a whole lexeme gives its kind, and the kind takes the rest of it and no
more. -/
theorem Lexeme.munch (h : Lexeme kind text) (hafter : kind.EndsBefore after) :
    ∃ c rest, text ++ after = c :: rest ∧ Kind.begunBy? c = some kind ∧ text = c :: rest.takeWhile kind.continues ∧
      after = rest.dropWhile kind.continues := by
  obtain ⟨c, cs, rfl, hc, hcs⟩ := h.exists_cons
  have hstop : ∀ d ∈ after.head?, kind.continues d = false := fun d hd => (kind.mayPrecede_iff d).mp (hafter d hd)
  have htake : after.takeWhile kind.continues = [] ∧ after.dropWhile kind.continues = after := by
    cases after with
    | nil => exact ⟨rfl, rfl⟩
    | cons d ds =>
      have hd := hstop d rfl
      exact ⟨List.takeWhile_cons_of_neg (by simp [hd]), List.dropWhile_cons_of_neg (by simp [hd])⟩
  refine ⟨c, cs ++ after, rfl, hc, ?_, ?_⟩
  · rw [List.takeWhile_append_of_pos hcs, htake.1, List.append_nil]
  · rw [List.dropWhile_append_of_pos hcs, htake.2]

/-- A line begins with at most one whole lexeme. -/
theorem Lexeme.eq_of_append_eq {kind' : Kind} {text' after' : List Char} (h : Lexeme kind text)
    (hafter : kind.EndsBefore after) (h' : Lexeme kind' text') (hafter' : kind'.EndsBefore after')
    (heq : text ++ after = text' ++ after') : kind = kind' ∧ text = text' := by
  obtain ⟨c, rest, hcons, hc, htext, _⟩ := h.munch hafter
  obtain ⟨c', rest', hcons', hc', htext', _⟩ := h'.munch hafter'
  rw [hcons, hcons', List.cons.injEq] at heq
  obtain ⟨rfl, rfl⟩ := heq
  rw [hc, Option.some.injEq] at hc'
  subst hc'
  exact ⟨rfl, htext.trans htext'.symm⟩

end Whole

/-- What begins with a character that begins a token begins with a whole lexeme. -/
theorem exists_lexeme_of_begunBy? {c : Char} (h : Kind.begunBy? c = some kind) (rest : List Char) :
    ∃ text after, c :: rest = text ++ after ∧ Lexeme kind text ∧ kind.EndsBefore after := by
  refine ⟨c :: rest.takeWhile kind.continues, rest.dropWhile kind.continues, ?_, ?_, ?_⟩
  · rw [List.cons_append, List.takeWhile_append_dropWhile]
  · exact lexeme_cons h fun d hd => List.all_eq_true.mp List.all_takeWhile d hd
  · intro d hd
    have hstop := List.head?_dropWhile_not kind.continues rest
    rw [hd] at hstop
    exact (kind.mayPrecede_iff d).mpr hstop

/-! ## Reading lexemes -/

namespace Lexer

/-- **Induction along the lexemes of a text**: it is empty, or begins with a character that begins no token, or begins
with a whole lexeme. -/
@[elab_as_elim]
theorem byLexemes {motive : List Char → Prop} (nil : motive [])
    (other : ∀ c rest, Kind.begunBy? c = none → motive rest → motive (c :: rest))
    (lexeme : ∀ kind text after, Lexeme kind text → kind.EndsBefore after → motive after → motive (text ++ after))
    (cs : List Char) : motive cs := by
  induction hn : cs.length using Nat.strongRecOn generalizing cs with
  | _ n ih =>
    cases cs with
    | nil => exact nil
    | cons c rest =>
      cases hbegun : Kind.begunBy? c with
      | none =>
        rw [List.length_cons] at hn
        exact other c rest hbegun (ih rest.length (by omega) rest rfl)
      | some kind =>
        obtain ⟨text, after, hsplit, hlexeme, hends⟩ := exists_lexeme_of_begunBy? hbegun rest
        have hlength := congrArg List.length hsplit
        have hpos := List.length_pos_iff.mpr hlexeme.ne_nil
        rw [List.length_append] at hlength
        rw [hsplit]
        exact lexeme kind text after hlexeme hends (ih after.length (by omega) after rfl)

/-- A whole lexeme is read as a token. -/
theorem readLine_lexeme (number : Int) (col : Nat) {after : List Char} (h : Lexeme kind text)
    (hafter : kind.EndsBefore after) : readLine number col (text ++ after) =
      .cons ⟨String.ofList text, kind, .onLine number col (col + text.length : Nat)⟩
        (readLine number (col + text.length) after) := by
  obtain ⟨c, rest, hcons, hc, htext, hrest⟩ := h.munch hafter
  rw [hcons, readLine_token number col hc htext, ← hrest]

/-- Induction along what the lexer does with a text: it skips a blank, refuses a character, or reads a whole lexeme. -/
@[elab_as_elim]
theorem byUnits {motive : List Char → Prop} (nil : motive [])
    (blank : ∀ c rest, isBlank c = true → motive rest → motive (c :: rest))
    (offence : ∀ c rest, Kind.begunBy? c = none → isBlank c = false → motive (c :: rest))
    (lexeme : ∀ kind text after, Lexeme kind text → kind.EndsBefore after → motive after → motive (text ++ after))
    (cs : List Char) : motive cs := by
  induction cs using byLexemes with
  | nil => exact nil
  | other c rest hbegun ih =>
    cases hblank : isBlank c with
    | true => exact blank c rest hblank ih
    | false => exact offence c rest hbegun hblank
  | lexeme kind text after hlexeme hends ih => exact lexeme kind text after hlexeme hends ih

end Lexer

end ArrayExpr
