import Mathlib.Data.Prod.Lex
import Mathlib.Order.MinMax
import ArrayExpr.Proofs.Span

/-!
# Spans that enclose others

The places at which spans begin and end are in the order in which a text is read, lines before columns. A span
`Encloses` another one if it begins no later and ends no earlier. The smallest span that encloses two of them reaches
from the earlier start to the later end (`smallestEnclosing_iff`). A join begins at the earlier start (`start_join`),
but need not end at the later end. It does if the spans end in the order of the lines on which they begin
(`EndsInOrder`), and so the join of spans on one line each is the smallest span that encloses them
(`join_encloses_least`).
-/

namespace ArrayExpr.Span

/-- The place at which a span begins. -/
def start (s : Span) : Int ×ₗ Int := toLex (s.startLine, s.startCol)

/-- The place at which a span ends. -/
def stop (s : Span) : Int ×ₗ Int := toLex (s.endLine, s.endCol)

/-- From one place to another. -/
def between (first last : Int ×ₗ Int) : Span :=
  ⟨(ofLex first).1, (ofLex last).1, (ofLex first).2, (ofLex last).2⟩

/-- The span begins no later than another one and ends no earlier. -/
def Encloses (s t : Span) : Prop := s.start ≤ t.start ∧ t.stop ≤ s.stop

/-- The span encloses two others, and is enclosed by every span that encloses them. -/
structure SmallestEnclosing (a b s : Span) : Prop where
  left : s.Encloses a
  right : s.Encloses b
  least : ∀ t : Span, t.Encloses a → t.Encloses b → t.Encloses s

/-- The spans begin on the same line and end on the same line, or the one that begins on a later line does not end
before the other. -/
def EndsInOrder (a b : Span) : Prop :=
  a.startLine = b.startLine ∧ a.endLine = b.endLine ∨ a.startLine < b.startLine ∧ a.stop ≤ b.stop ∨
    b.startLine < a.startLine ∧ b.stop ≤ a.stop

variable {a b s : Span}

/-! ## Places in order -/

theorem start_le_iff :
    a.start ≤ b.start ↔ a.startLine < b.startLine ∨ a.startLine = b.startLine ∧ a.startCol ≤ b.startCol :=
  Prod.Lex.toLex_le_toLex

theorem stop_le_iff :
    a.stop ≤ b.stop ↔ a.endLine < b.endLine ∨ a.endLine = b.endLine ∧ a.endCol ≤ b.endCol :=
  Prod.Lex.toLex_le_toLex

theorem start_eq_iff : a.start = b.start ↔ a.startLine = b.startLine ∧ a.startCol = b.startCol :=
  toLex_inj.trans Prod.mk_inj

theorem stop_eq_iff : a.stop = b.stop ↔ a.endLine = b.endLine ∧ a.endCol = b.endCol :=
  toLex_inj.trans Prod.mk_inj

/-- A span encloses two others exactly if it begins no later than the earlier start and ends no earlier than the later
end. -/
theorem encloses_both_iff :
    s.Encloses a ∧ s.Encloses b ↔ s.start ≤ min a.start b.start ∧ max a.stop b.stop ≤ s.stop := by
  rw [le_min_iff, max_le_iff]
  constructor
  · rintro ⟨⟨hstart, hstop⟩, hstart', hstop'⟩
    exact ⟨⟨hstart, hstart'⟩, hstop, hstop'⟩
  · rintro ⟨⟨hstart, hstart'⟩, hstop, hstop'⟩
    exact ⟨⟨hstart, hstop⟩, hstart', hstop'⟩

/-- **The smallest span that encloses two others** reaches from the earlier start to the later end. -/
theorem smallestEnclosing_iff :
    SmallestEnclosing a b s ↔ s.start = min a.start b.start ∧ s.stop = max a.stop b.stop := by
  constructor
  · intro h
    -- the span between the two places encloses both as well, and so it encloses the smallest one
    obtain ⟨hstart, hstop⟩ := encloses_both_iff.mp ⟨h.left, h.right⟩
    have hboth : (between (min a.start b.start) (max a.stop b.stop)).Encloses a ∧
        (between (min a.start b.start) (max a.stop b.stop)).Encloses b :=
      encloses_both_iff.mpr ⟨le_refl _, le_refl _⟩
    obtain ⟨hstart', hstop'⟩ := h.least _ hboth.1 hboth.2
    exact ⟨le_antisymm hstart hstart', le_antisymm hstop' hstop⟩
  · rintro ⟨hstart, hstop⟩
    obtain ⟨hleft, hright⟩ := encloses_both_iff.mpr ⟨le_of_eq hstart, le_of_eq hstop.symm⟩
    refine ⟨hleft, hright, fun t ha hb => ?_⟩
    obtain ⟨hstart', hstop'⟩ := encloses_both_iff.mp ⟨ha, hb⟩
    exact ⟨hstart ▸ hstart', hstop ▸ hstop'⟩

/-! ## Joins -/

theorem join_comm (a b : Span) : a.join b = b.join a := by
  simp only [join, mk.injEq]
  refine ⟨Int.min_comm _ _, Int.max_comm _ _, ?_, ?_⟩ <;> split <;> split <;> omega

theorem start_join_of_le (h : a.start ≤ b.start) : (a.join b).start = a.start := by
  rw [start_le_iff] at h
  simp only [start_eq_iff, join]
  constructor
  · omega
  · split
    · rfl
    · split <;> omega

/-- A join begins at the earlier start. -/
theorem start_join (a b : Span) : (a.join b).start = min a.start b.start := by
  rcases le_total a.start b.start with h | h
  · rw [start_join_of_le h, min_eq_left h]
  · rw [join_comm, start_join_of_le h, min_eq_right h]

theorem EndsInOrder.symm (h : EndsInOrder a b) : EndsInOrder b a := by
  rcases h with ⟨hstart, hend⟩ | h | h
  · exact Or.inl ⟨hstart.symm, hend.symm⟩
  · exact Or.inr (Or.inr h)
  · exact Or.inr (Or.inl h)

theorem EndsInOrder.stop_join_of_le (h : EndsInOrder a b) (hle : a.stop ≤ b.stop) : (a.join b).stop = b.stop := by
  simp only [EndsInOrder, stop_le_iff] at h hle
  simp only [stop_eq_iff, join]
  constructor
  · omega
  · split
    · rfl
    · split <;> omega

/-- The join of spans that end in order ends at the later end. -/
theorem EndsInOrder.stop_join (h : EndsInOrder a b) : (a.join b).stop = max a.stop b.stop := by
  rcases le_total a.stop b.stop with hle | hle
  · rw [h.stop_join_of_le hle, max_eq_right hle]
  · rw [join_comm, h.symm.stop_join_of_le hle, max_eq_left hle]

/-- Spans that begin on the same line need not end in order, and then their join may end too late. -/
example : (onLine 1 0 3).join ⟨1, 2, 6, 1⟩ = ⟨1, 2, 0, 3⟩ := by decide

theorem endsInOrder_of_lines (ha : a.isMultiline = false) (hb : b.isMultiline = false) : EndsInOrder a b := by
  simp only [isMultiline, bne_eq_false_iff_eq] at ha hb
  simp only [EndsInOrder, stop_le_iff]
  omega

/-- **What a join encloses.** Spans can be joined in either order, and a span with itself is that span. The lines of a
join reach from the least to the greatest line of both spans, and it begins at the earlier of their starts. It is the
smallest span that encloses both exactly if it ends at the later of their ends, and so it does if the spans begin on the
same line and end on the same line, or the one that begins on a later line does not end before the other; in particular
if each of them is on one line. Nothing is asked of a single span, which may also end before it begins. -/
theorem join_encloses_least :
    (∀ a b : Span, a.join b = b.join a) ∧ (∀ a : Span, a.join a = a) ∧
    ∀ a b : Span,
      (a.join b).startLine = min a.startLine b.startLine ∧ (a.join b).endLine = max a.endLine b.endLine ∧
      (a.join b).start = min a.start b.start ∧
      (SmallestEnclosing a b (a.join b) ↔ (a.join b).stop = max a.stop b.stop) ∧
      (EndsInOrder a b → SmallestEnclosing a b (a.join b)) ∧
      (a.isMultiline = false → b.isMultiline = false → SmallestEnclosing a b (a.join b)) := by
  refine ⟨join_comm, join_self, fun a b => ⟨rfl, rfl, start_join a b, ?_, fun h => ?_, fun ha hb => ?_⟩⟩
  · rw [smallestEnclosing_iff]
    exact and_iff_right (start_join a b)
  · exact smallestEnclosing_iff.mpr ⟨start_join a b, h.stop_join⟩
  · exact smallestEnclosing_iff.mpr ⟨start_join a b, (endsInOrder_of_lines ha hb).stop_join⟩

/-- A group of three lines, and a part of it that begins on its second line and ends behind it. -/
theorem join_encloses_overlap : EndsInOrder ⟨1, 3, 4, 2⟩ ⟨2, 3, 0, 5⟩ ∧
    SmallestEnclosing ⟨1, 3, 4, 2⟩ ⟨2, 3, 0, 5⟩ ⟨1, 3, 4, 5⟩ ∧
    SmallestEnclosing (onLine 1 2 3) (onLine 1 7 9) (onLine 1 2 9) := by
  have horder : EndsInOrder ⟨1, 3, 4, 2⟩ ⟨2, 3, 0, 5⟩ :=
    Or.inr (Or.inl ⟨by decide, stop_le_iff.mpr (Or.inr ⟨rfl, by decide⟩)⟩)
  exact ⟨horder, (join_encloses_least.2.2 _ _).2.2.2.2.1 horder, (join_encloses_least.2.2 _ _).2.2.2.2.2 rfl rfl⟩

end ArrayExpr.Span
