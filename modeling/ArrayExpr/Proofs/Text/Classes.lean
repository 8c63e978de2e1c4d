import ArrayExpr.Token.Lexer

/-!
# Classes of characters

Letters, decimal digits and blank characters are three classes without common members, and the operators, the brackets
and the line breaks belong to none of the first two. The tables are ascending, so it is enough that no two of their
ranges meet (`Ranges.apart`).
-/

namespace ArrayExpr.Text

namespace Ranges

/-- No range of one table meets a range of the other. The tables are walked together: what ends before a range of the
first begins cannot meet a later one either. -/
def apart : Ranges → Ranges → Bool
  | [], _ => true
  | (first, last) :: rest, table =>
    match table.dropWhile (·.2 < first) with
    | [] => true
    | next :: others => decide (last < next.1) && apart rest (next :: others)

theorem contains_cons {range : Nat × Nat} {rest : Ranges} {n : Nat} :
    contains (range :: rest) n = true ↔ range.1 ≤ n ∧ (n ≤ range.2 ∨ contains rest n = true) := by
  simp only [contains, Bool.and_eq_true, Bool.or_eq_true, decide_eq_true_eq]

/-- A table still ascends if ranges in front are left out. -/
theorem exists_ascendingFrom_dropWhile (p : Nat × Nat → Bool) : ∀ {bound : Nat} {table : Ranges},
    ascendingFrom bound table = true → ∃ bound', ascendingFrom bound' (table.dropWhile p) = true
  | bound, [], h => ⟨bound, h⟩
  | bound, range :: rest, h => by
    by_cases hp : p range = true
    · rw [List.dropWhile_cons_of_pos hp]
      simp only [ascendingFrom, Bool.and_eq_true] at h
      exact exists_ascendingFrom_dropWhile p h.2
    · rw [List.dropWhile_cons_of_neg hp]
      exact ⟨bound, h⟩

/-- A member that is not below `first` is not lost with the ranges that end before `first`. -/
theorem contains_dropWhile {first n : Nat} (hn : first ≤ n) : ∀ {table : Ranges}, table.contains n = true →
    contains (table.dropWhile (·.2 < first)) n = true
  | [], h => h
  | range :: rest, h => by
    by_cases hlt : range.2 < first
    · rw [List.dropWhile_cons_of_pos (by simpa using hlt)]
      exact contains_dropWhile hn ((contains_cons.mp h).2.resolve_left (by omega))
    · rwa [List.dropWhile_cons_of_neg (by simpa using hlt)]

/-- Ascending tables that are apart have no common member. -/
theorem contains_eq_false_of_apart {n : Nat} : ∀ {a b : Ranges} {bound bound' : Nat}, a.ascendingFrom bound = true →
    b.ascendingFrom bound' = true → a.apart b = true → a.contains n = true → b.contains n = false
  | [], _, _, _, _, _, _, h => by simp [contains] at h
  | (first, last) :: rest, b, bound, bound', ha, hb, hab, h => by
    rw [Bool.eq_false_iff]
    intro h'
    obtain ⟨hfirst, hlast⟩ := contains_cons.mp h
    have hkept := contains_dropWhile hfirst h'
    obtain ⟨bound'', hb'⟩ := exists_ascendingFrom_dropWhile (·.2 < first) hb
    rw [apart] at hab
    split at hab
    · next hnil =>
      rw [hnil] at hkept
      cases hkept
    · next next others hcons =>
      rw [hcons] at hkept hb'
      simp only [Bool.and_eq_true, decide_eq_true_eq] at hab
      simp only [ascendingFrom, Bool.and_eq_true] at ha
      have hnext := (contains_cons.mp hkept).1
      have hrest := hlast.resolve_left (by omega)
      rw [contains_eq_false_of_apart ha.2 hb' hab.2 hrest] at hkept
      cases hkept

end Ranges

theorem letters_apart_digits : letters.apart digits = true := by decide +kernel

theorem blanks_apart_letters : blanks.apart letters = true := by decide +kernel

theorem blanks_apart_digits : blanks.apart digits = true := by decide +kernel

variable {c : Char}

theorem isDigit_of_isLetter (h : isLetter c = true) : isDigit c = false :=
  Ranges.contains_eq_false_of_apart letters_ascending digits_ascending letters_apart_digits h

theorem isLetter_of_isDigit (h : isDigit c = true) : isLetter c = false := by
  rw [Bool.eq_false_iff]
  intro hl
  rw [isDigit_of_isLetter hl] at h
  cases h

theorem isLetter_of_isBlank (h : isBlank c = true) : isLetter c = false :=
  Ranges.contains_eq_false_of_apart blanks_ascending letters_ascending blanks_apart_letters h

theorem isDigit_of_isBlank (h : isBlank c = true) : isDigit c = false :=
  Ranges.contains_eq_false_of_apart blanks_ascending digits_ascending blanks_apart_digits h

theorem classes_of_symbol {kind : Kind} (h : Kind.ofSymbol? c = some kind) :
    isLetter c = false ∧ isDigit c = false ∧ isBlank c = false := by
  unfold Kind.ofSymbol? at h
  split at h
  all_goals first
    | decide +kernel
    | cases h

theorem ofSymbol?_of_isBlank (h : isBlank c = true) : Kind.ofSymbol? c = none := by
  cases hs : Kind.ofSymbol? c with
  | none => rfl
  | some kind =>
    rw [(classes_of_symbol hs).2.2] at h
    cases h

end ArrayExpr.Text
