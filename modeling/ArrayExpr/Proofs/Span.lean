import ArrayExpr.Span

/-!
# Spans in order

One span is `Before` another if it ends where the other begins or earlier. The span from the start of the first to the
end of the second (`upTo`) is what their join should be, but `join` takes the greatest end column of two spans that
begin on the same line, also if they end on different lines. So a join may be too wide. It has the right lines and the
right start column, and also the right end column if it stands on one line (`Widens`); this is kept by further joins
(`Widens.join`).
-/

namespace ArrayExpr.Span

/-- The first span ends where the second one begins or before. -/
def Before (s s' : Span) : Prop := s.endLine < s'.startLine ∨ s.endLine = s'.startLine ∧ s.endCol ≤ s'.startCol

/-- The span begins before it ends. -/
def Forward (s : Span) : Prop := s.startLine < s.endLine ∨ s.startLine = s.endLine ∧ s.startCol < s.endCol

/-- From the start of one span to the end of another. -/
def upTo (s s' : Span) : Span := ⟨s.startLine, s'.endLine, s.startCol, s'.endCol⟩

/-- The span is another one up to its end column, which may be too far right if there are several lines. -/
structure Widens (s e : Span) : Prop where
  startLine : s.startLine = e.startLine
  endLine : s.endLine = e.endLine
  startCol : s.startCol = e.startCol
  le_endCol : e.endCol ≤ s.endCol
  endCol_of_line : e.startLine = e.endLine → s.endCol = e.endCol

variable {s s' e e' : Span}

theorem join_self (s : Span) : s.join s = s := by
  simp [join]

/-- The join of two spans on one line each, of which the first is before the second, reaches from the start of the first
to the end of the second. -/
theorem join_eq_upTo (hline : s.startLine = s.endLine) (hcol : s.startCol ≤ s.endCol)
    (hline' : s'.startLine = s'.endLine) (hcol' : s'.startCol ≤ s'.endCol) (hbefore : s.Before s') :
    s.join s' = s.upTo s' := by
  simp only [Before] at hbefore
  simp only [join, upTo, mk.injEq]
  refine ⟨by omega, by omega, ?_, ?_⟩
  · split
    · rfl
    · split <;> omega
  · split
    · rfl
    · split <;> omega

theorem Widens.refl (e : Span) : e.Widens e := ⟨rfl, rfl, rfl, Int.le_refl _, fun _ => rfl⟩

/-- A span with the right end column is right. -/
theorem Widens.eq_of_endCol_eq (h : s.Widens e) (hcol : s.endCol = e.endCol) : s = e := by
  obtain ⟨hstart, hend, hfirst, _, _⟩ := h
  cases s
  cases e
  cases hstart
  cases hend
  cases hfirst
  cases hcol
  rfl

theorem Forward.upTo (he : e.Forward) (he' : e'.Forward) (hbefore : e.Before e') : (e.upTo e').Forward := by
  simp only [Forward, Before, Span.upTo] at *
  omega

theorem Widens.endCol_join (h : s.Widens e) (h' : s'.Widens e') (he : e.Forward) (hbefore : e.Before e') :
    (s.join s').endCol = if e.startLine = e'.startLine then max e.endCol s'.endCol else s'.endCol := by
  have hcol := h.endCol_of_line
  simp only [join, h.startLine, h'.startLine, Forward, Before] at *
  split <;> split <;> omega

/-- The join of spans in order is at most too wide. -/
theorem Widens.join (h : s.Widens e) (h' : s'.Widens e') (he : e.Forward) (he' : e'.Forward) (hbefore : e.Before e') :
    (s.join s').Widens (e.upTo e') := by
  have hcol := h.endCol_join h' he hbefore
  obtain ⟨hstart, hend, hfirst, _, hline⟩ := h
  obtain ⟨hstart', hend', hfirst', _, hline'⟩ := h'
  simp only [Forward, Before] at he he' hbefore
  constructor
  · show min s.startLine s'.startLine = e.startLine
    omega
  · show max s.endLine s'.endLine = e'.endLine
    omega
  · simp only [Span.join, Span.upTo]
    split
    · exact hfirst
    · split <;> omega
  · rw [hcol]
    show e'.endCol ≤ _
    split <;> omega
  · intro hsame
    have hsame : e.startLine = e'.endLine := hsame
    rw [hcol]
    show _ = e'.endCol
    split <;> omega

end ArrayExpr.Span
