import ArrayExpr.Proofs.Span
import Mathlib.Data.List.Basic

/-!
# What a span covers

A span `Covers` the places from its start up to its end, and `Touches` the lines from its first to its last one. Its
`portion` of a line are the characters at the places that it covers, and its `portions` are those of all lines that it
touches, in their order. A portion is the piece of the line between two columns (`portion_eq`), of which either may be an
end of the line. A text that stands on a line is all that the span at its place covers (`StandsAt.portions_eq`), and a span
is `Within` lines if it begins and ends at places in them.
-/

namespace ArrayExpr

namespace Span

/-- The place is not before the start of the span, and it is before the end. -/
def Covers (s : Span) (line col : Int) : Prop :=
  (s.startLine < line ∨ s.startLine = line ∧ s.startCol ≤ col) ∧
    (line < s.endLine ∨ line = s.endLine ∧ col < s.endCol)

instance (s : Span) (line col : Int) : Decidable (s.Covers line col) := inferInstanceAs (Decidable (_ ∧ _))

/-- The line is not before the first line of the span and not behind the last one. -/
def Touches (s : Span) (line : Int) : Prop := s.startLine ≤ line ∧ line ≤ s.endLine

instance (s : Span) (line : Int) : Decidable (s.Touches line) := inferInstanceAs (Decidable (_ ∧ _))

/-- What the span covers of a line of a given number. -/
def portion (s : Span) (number : Int) (row : List Char) : List Char :=
  (row.zipIdx.filter fun p => s.Covers number p.2).map Prod.fst

/-- What the span covers of each of the lines that it touches. -/
def portions (s : Span) (lines : List (List Char)) : List (List Char) :=
  ((lines.zipIdx 1).filter fun p => s.Touches p.2).map fun p => s.portion p.2 p.1

example : (Span.mk 1 3 2 1).portions [['a', 'b', 'c'], [], ['d', 'e'], ['f']] = [['c'], [], ['d']] := by decide

/-! ## Portions as pieces -/

/-- Of a numbered list, the elements with numbers in a range are those in the middle. -/
theorem filter_zipIdx (xs : List α) (k first stop : Nat) :
    ((xs.zipIdx k).filter fun p => decide (first ≤ p.2 ∧ p.2 < stop)) =
      ((xs.zipIdx k).take (stop - k)).drop (first - k) := by
  induction xs generalizing k with
  | nil => simp
  | cons x xs ih =>
    rw [List.zipIdx_cons]
    by_cases hstop : k < stop
    · have hsucc : stop - k = (stop - (k + 1)) + 1 := by omega
      rw [hsucc, List.take_succ_cons]
      by_cases hfirst : first ≤ k
      · have hzero : first - k = 0 := by omega
        have hzero' : first - (k + 1) = 0 := by omega
        rw [List.filter_cons_of_pos (by simp [hfirst, hstop]), ih, hzero, hzero', List.drop_zero, List.drop_zero]
      · have hpred : first - k = (first - (k + 1)) + 1 := by omega
        rw [List.filter_cons_of_neg (by simp [hfirst]), ih, hpred, List.drop_succ_cons]
    · have hzero : stop - k = 0 := by omega
      have hzero' : stop - (k + 1) = 0 := by omega
      rw [List.filter_cons_of_neg (by simp [hstop]), ih, hzero, hzero', List.take_zero, List.take_zero, List.drop_nil,
        List.drop_nil]

/-- A portion is a piece of the line: from the start column or the start of the line, up to the end column or the
end of the line. -/
theorem portion_eq {s : Span} {number : Int} (h : s.Touches number) (hstart : 0 ≤ s.startCol) (hend : 0 ≤ s.endCol)
    (row : List Char) : s.portion number row =
      (row.take (if number = s.endLine then s.endCol.toNat else row.length)).drop
        (if number = s.startLine then s.startCol.toNat else 0) := by
  obtain ⟨hfirst, hlast⟩ := h
  have hsame : (row.zipIdx.filter fun p => decide (s.Covers number p.2)) =
      row.zipIdx.filter fun p => decide ((if number = s.startLine then s.startCol.toNat else 0) ≤ p.2 ∧
        p.2 < (if number = s.endLine then s.endCol.toNat else row.length)) := by
    refine List.filter_congr fun p hp => ?_
    have hlt : p.2 < row.length := List.snd_lt_of_mem_zipIdx hp
    rw [decide_eq_decide, Covers]
    split <;> split <;> omega
  rw [portion, hsame, filter_zipIdx, List.map_drop, List.map_take, List.zipIdx_map_fst, Nat.sub_zero, Nat.sub_zero]

/-- The lines that a span touches are those in the middle. -/
theorem filter_touches {s : Span} (hfirst : 1 ≤ s.startLine) (lines : List (List Char)) :
    ((lines.zipIdx 1).filter fun p => decide (s.Touches p.2)) =
      ((lines.zipIdx 1).take s.endLine.toNat).drop (s.startLine.toNat - 1) := by
  have hsame : ((lines.zipIdx 1).filter fun p => decide (s.Touches p.2)) =
      (lines.zipIdx 1).filter fun p => decide (s.startLine.toNat ≤ p.2 ∧ p.2 < s.endLine.toNat + 1) := by
    refine List.filter_congr fun p _ => ?_
    rw [decide_eq_decide, Touches]
    omega
  rw [hsame, filter_zipIdx, Nat.add_sub_cancel]

/-! ## Places in lines -/

/-- The span begins and ends at places in the lines, and does not end before it begins. The end of a line is a place
in it. -/
structure Within (lines : List (List Char)) (s : Span) : Prop where
  one_le_startLine : 1 ≤ s.startLine
  startLine_le : s.startLine ≤ s.endLine
  endLine_le : s.endLine ≤ lines.length
  ordered : s.startLine < s.endLine ∨ s.startLine = s.endLine ∧ s.startCol ≤ s.endCol
  start : ∃ row, lines[(s.startLine - 1).toNat]? = some row ∧ 0 ≤ s.startCol ∧ s.startCol ≤ row.length
  stop : ∃ row, lines[(s.endLine - 1).toNat]? = some row ∧ 0 ≤ s.endCol ∧ s.endCol ≤ row.length

/-- The text stands at the place of the span, on one line. -/
def StandsAt (lines : List (List Char)) (s : Span) (text : List Char) : Prop :=
  ∃ (n : Nat) (before after : List Char), lines[n]? = some (before ++ text ++ after) ∧
    s = .onLine (n + 1 : Nat) before.length (before.length + text.length : Nat)

variable {lines : List (List Char)} {s : Span} {text : List Char}

theorem Within.upTo {s' : Span} (h : s.Within lines) (h' : s'.Within lines) (hbefore : s.Before s') :
    (s.upTo s').Within lines := by
  obtain ⟨hone, hline, _, hordered, hstart, _⟩ := h
  obtain ⟨_, hline', hlast', hordered', _, hstop'⟩ := h'
  unfold Before at hbefore
  have horder : s.startLine < s'.endLine ∨ s.startLine = s'.endLine ∧ s.startCol ≤ s'.endCol := by omega
  exact ⟨hone, horder.elim Int.le_of_lt fun h => Int.le_of_eq h.1, hlast', horder, hstart, hstop'⟩

/-- The place of a text is in the lines. -/
theorem StandsAt.within (h : StandsAt lines s text) : s.Within lines := by
  obtain ⟨n, before, after, hrow, rfl⟩ := h
  have hlt : n < lines.length := (List.getElem?_eq_some_iff.mp hrow).1
  have hnumber : (((n + 1 : Nat) : Int) - 1).toNat = n := by omega
  have hrow' : lines[(((n + 1 : Nat) : Int) - 1).toNat]? = some (before ++ text ++ after) := by rw [hnumber, hrow]
  have hlength : (before ++ text ++ after).length = before.length + text.length + after.length := by
    rw [List.length_append, List.length_append]
  constructor
  case startLine_le => exact Int.le_refl _
  case ordered => exact Or.inr ⟨rfl, by simp only [onLine]; omega⟩
  case start => exact ⟨_, hrow', by simp only [onLine]; omega, by simp only [onLine]; omega⟩
  case stop => exact ⟨_, hrow', by simp only [onLine]; omega, by simp only [onLine]; omega⟩
  all_goals
    simp only [onLine]
    omega

theorem StandsAt.on_line (h : StandsAt lines s text) : s.startLine = s.endLine ∧ s.startCol ≤ s.endCol := by
  obtain ⟨n, before, after, _, rfl⟩ := h
  refine ⟨rfl, ?_⟩
  simp only [onLine]
  omega

/-- A text is what its place covers. -/
theorem StandsAt.portions_eq (h : StandsAt lines s text) : s.portions lines = [text] := by
  obtain ⟨n, before, after, hrow, rfl⟩ := h
  have hpair : (lines.zipIdx 1)[n]? = some (before ++ text ++ after, n + 1) := by
    rw [List.getElem?_zipIdx, hrow, Nat.add_comm n]
    rfl
  have hlt : n < (lines.zipIdx 1).length := (List.getElem?_eq_some_iff.mp hpair).1
  have hlines : ((lines.zipIdx 1).filter fun p => decide ((onLine (n + 1 : Nat) before.length
      (before.length + text.length : Nat)).Touches p.2)) = [(before ++ text ++ after, n + 1)] := by
    rw [filter_touches (by simp only [onLine]; omega)]
    simp only [onLine, Int.toNat_natCast, Nat.add_sub_cancel]
    rw [List.take_add_one, hpair]
    exact List.drop_left' (List.length_take_of_le (Nat.le_of_lt hlt))
  have htouches : (onLine (n + 1 : Nat) before.length (before.length + text.length : Nat)).Touches (n + 1 : Nat) :=
    ⟨Int.le_refl _, Int.le_refl _⟩
  rw [portions, hlines, List.map_singleton, portion_eq htouches (Int.natCast_nonneg _) (Int.natCast_nonneg _)]
  simp only [onLine, if_true, Int.toNat_natCast]
  rw [List.take_left' List.length_append, List.drop_left' rfl]

end Span

end ArrayExpr
