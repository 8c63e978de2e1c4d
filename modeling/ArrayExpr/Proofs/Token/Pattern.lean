import ArrayExpr.Proofs.Text.Classes

/-!
# Patterns

The names of the patterns are those of kinds, except for blanks and for what is refused (`Pattern.known_of_pattern?`).
So the kind of a token is found by the name of its pattern. It is the kind that the first character begins
(`Kind.begunBy?`, `pattern?_of_begunBy?`), and the lexer does one of three things with that character: it reads a token
(`readLine_token`), skips a blank (`readLine_blank`) or refuses the character (`readLine_offence`).
-/

namespace ArrayExpr

open Text

namespace Kind

/-- The kind of the token that a character begins. -/
def begunBy? (c : Char) : Option Kind :=
  if isLetter c then some identifier
  else if isDigit c then some number
  else ofSymbol? c

/-- A token of the kind takes a character that stands after its first one. -/
def continues : Kind → Char → Bool
  | identifier, c => isLetter c || isDigit c
  | number, c => isDigit c
  | _, _ => false

theorem ofName_name (kind : Kind) : ofName kind.name = .ok kind := by cases kind <;> rfl

theorem name_ne (kind : Kind) : kind.name ≠ "SPACE" ∧ kind.name ≠ "ERROR" := by cases kind <;> decide

end Kind

variable {c : Char}

theorem Text.begunBy?_of_isBlank (h : isBlank c = true) : Kind.begunBy? c = none := by
  rw [Kind.begunBy?, isLetter_of_isBlank h, isDigit_of_isBlank h, ofSymbol?_of_isBlank h]
  rfl

theorem Text.begunBy?_of_isLineBreak (h : isLineBreak c = true) : Kind.begunBy? c = none := by
  have hall : lineBreaks.all (fun d => (Kind.begunBy? d).isNone) = true := by decide +kernel
  exact Option.isNone_iff_eq_none.mp (List.all_eq_true.mp hall c (List.contains_iff_mem.mp h))

namespace Lexer

/-! ## The pattern of a character -/

/-- The pattern of a token has the name of its kind and goes on as far. -/
theorem pattern?_of_begunBy? {kind : Kind} (h : Kind.begunBy? c = some kind) :
    ∃ pattern, pattern? c = some pattern ∧ pattern.name = kind.name ∧ pattern.continues = kind.continues := by
  unfold Kind.begunBy? at h
  split at h
  · next hletter =>
    cases h
    refine ⟨⟨"ID", isLetter, fun c => isLetter c || isDigit c⟩, ?_, rfl, rfl⟩
    simp [pattern?, patterns, hletter]
  · split at h
    · next hletter hdigit =>
      cases h
      refine ⟨⟨"NUMBER", isDigit, isDigit⟩, ?_, rfl, rfl⟩
      simp [pattern?, patterns, hletter, hdigit]
    · next hletter hdigit =>
      refine ⟨.symbol kind.name c, ?_⟩
      unfold Kind.ofSymbol? at h
      split at h
      all_goals first
        | cases h; exact ⟨by simp [pattern?, patterns, Pattern.symbol, Kind.name, hletter, hdigit], rfl, rfl⟩
        | cases h

/-- A character that begins no token is blank, or fits the last pattern only: that one leaves out the line feed, which
is blank. -/
theorem pattern?_of_begunBy?_eq_none (h : Kind.begunBy? c = none) : pattern? c = some
    (if isBlank c then ⟨"SPACE", isBlank, fun _ => false⟩ else ⟨"ERROR", (· != '\n'), fun _ => false⟩) := by
  have hletter : isLetter c = false := by
    rw [Bool.eq_false_iff]
    intro hletter
    simp [Kind.begunBy?, hletter] at h
  have hdigit : isDigit c = false := by
    rw [Bool.eq_false_iff]
    intro hdigit
    simp [Kind.begunBy?, hletter, hdigit] at h
  have hsymbols : ¬c = '+' ∧ ¬c = '*' ∧ ¬c = '/' ∧ ¬c = '(' ∧ ¬c = ')' ∧ ¬c = '[' ∧ ¬c = ']' := by
    refine ⟨?_, ?_, ?_, ?_, ?_, ?_, ?_⟩ <;> rintro rfl <;> simp [Kind.begunBy?, Kind.ofSymbol?, hletter, hdigit] at h
  cases hblank : isBlank c with
  | true => simp [pattern?, patterns, Pattern.symbol, hletter, hdigit, hsymbols, hblank]
  | false =>
    have hfeed : c ≠ '\n' := by
      rintro rfl
      exact absurd hblank (by decide)
    simp [pattern?, patterns, Pattern.symbol, hletter, hdigit, hsymbols, hblank, hfeed]

/-- **A name that is looked up is that of a kind.** -/
theorem Pattern.known_of_pattern? {pattern : Pattern} (h : pattern? c = some pattern) :
    pattern.name = "SPACE" ∨ pattern.name = "ERROR" ∨ ∃ kind, Kind.ofName pattern.name = .ok kind := by
  cases hbegun : Kind.begunBy? c with
  | none =>
    rw [pattern?_of_begunBy?_eq_none hbegun, Option.some.injEq] at h
    rw [← h]
    cases isBlank c
    · exact Or.inr (Or.inl rfl)
    · exact Or.inl rfl
  | some kind =>
    obtain ⟨pattern', hpattern, hname, _⟩ := pattern?_of_begunBy? hbegun
    cases h.symm.trans hpattern
    exact Or.inr (Or.inr ⟨kind, hname ▸ kind.ofName_name⟩)

/-! ## Steps of the lexer -/

section

variable (number : Int) (col : Nat)

theorem readLine_token {kind : Kind} (h : Kind.begunBy? c = some kind) {rest text : List Char}
    (htext : text = c :: rest.takeWhile kind.continues) : readLine number col (c :: rest) =
      .cons ⟨String.ofList text, kind, .onLine number col (col + text.length : Nat)⟩
        (readLine number (col + text.length) (rest.dropWhile kind.continues)) := by
  obtain ⟨pattern, hpattern, hname, hcontinues⟩ := pattern?_of_begunBy? h
  have hlookup : Kind.ofName pattern.name = .ok kind := hname ▸ kind.ofName_name
  rw [readLine, hpattern]
  simp only [hcontinues, hname, kind.name_ne, if_false, Token.ofName, kind.ofName_name, Except.map, htext]

theorem readLine_blank (h : isBlank c = true) (rest : List Char) :
    readLine number col (c :: rest) = readLine number (col + 1) rest := by
  rw [readLine, pattern?_of_begunBy?_eq_none (begunBy?_of_isBlank h), h]
  cases rest <;> rfl

theorem readLine_offence (h : Kind.begunBy? c = none) (hblank : isBlank c = false) (rest : List Char) :
    readLine number col (c :: rest) = ⟨[], some (.character c (.onLine number col (col + 1)))⟩ := by
  rw [readLine, pattern?_of_begunBy?_eq_none h, hblank]
  cases rest <;> rfl

end

end Lexer

end ArrayExpr
