import ArrayExpr.Diagnostic.Basic
import ArrayExpr.Proofs.Text.OneLine
import ArrayExpr.Proofs.Tree.Label

/-!
# Messages are lines

What is said of a problem is one line (`Diagnostic.isLine_message`, `Diagnostic.isLine_remark`): the texts of a program
are quoted in it, so that none of their line feeds stands in the message.
-/

namespace ArrayExpr

open Text

/-! ## What messages name -/

@[simp] theorem Text.isLine_quoted (text : String) : IsLine (quoted text) :=
  fun hfeed => absurd (isPrintable_of_mem_quoted text hfeed) (by decide +kernel)

@[simp] theorem Span.isLine_lineNames (s : Span) : IsLine s.lineNames := by
  unfold lineNames
  split <;> simp only [isLine_append, isLine_int, and_true] <;> decide

@[simp] theorem Span.isLine_columnName (s : Span) : IsLine s.columnName := isLine_int _

@[simp] theorem Kind.isLine_described (k : Kind) : IsLine k.described := by
  unfold described
  split
  · exact isLine_quoted _
  · cases k <;> decide

@[simp] theorem Kind.isLine_withArticle (k : Kind) : IsLine k.withArticle := by
  have harticle : IsLine "a " ∧ IsLine "an " ∧ IsLine "the " := by decide
  cases k <;> simp [withArticle, harticle]

@[simp] theorem Token.isLine_described (t : Token) : IsLine t.described := by
  unfold described
  split
  · exact Kind.isLine_described .finish
  · have hname : IsLine t.kind.name := t.kind.notMem_name rfl
    have hbrackets : IsLine "(" ∧ IsLine ")" := by decide
    simp [listing, hname, hbrackets]

@[simp] theorem Problem.isLine_hint (got : Token) : IsLine (hint got) := by
  unfold hint
  split <;> exact isLine_of_chars rfl (by decide)

theorem Problem.isLine_title (p : Problem) : IsLine p.title := by
  unfold title
  split <;> exact isLine_of_chars rfl (by decide)

/-! ## Diagnostics -/

namespace Diagnostic

/-- What a missing token is for is one line. -/
def HasLinePurpose (d : Diagnostic) : Prop :=
  ∀ expected purpose got, d.problem = .expectedToken expected purpose got → IsLine purpose

/-- A message is one line. -/
theorem isLine_message {d : Diagnostic} {message : String} (hpurpose : d.HasLinePurpose)
    (h : d.message? = some message) : IsLine message := by
  unfold message? at h
  split at h
  case h_1 | h_2 | h_3 => cases h
  case h_4 =>
    cases h
    simp only [isLine_append, isLine_quoted, Span.isLine_lineNames, Span.isLine_columnName, and_true]
    and_intros <;> exact isLine_of_chars rfl (by decide)
  case h_5 =>
    cases h
    exact isLine_of_chars rfl (by decide)
  case h_6 =>
    cases h
    split
    all_goals
      simp only [isLine_append, Token.isLine_described, Span.isLine_lineNames, Problem.isLine_hint, and_true]
      and_intros <;> exact isLine_of_chars rfl (by decide)
  case h_7 hproblem =>
    cases h
    simp only [isLine_append, Kind.isLine_withArticle, Token.isLine_described, hpurpose _ _ _ hproblem, and_true]
    and_intros <;> exact isLine_of_chars rfl (by decide)
  case h_8 | h_9 =>
    cases h
    simp only [isLine_append, Token.isLine_described, Span.isLine_lineNames, and_true]
    and_intros <;> exact isLine_of_chars rfl (by decide)

theorem isLine_remark (d : Diagnostic) : IsLine d.remark := by
  unfold remark
  split
  · simp only [isLine_append, Kind.isLine_described, Span.isLine_lineNames, Span.isLine_columnName, and_true]
    and_intros <;> exact isLine_of_chars rfl (by decide)
  · exact isLine_of_chars rfl (by decide)

end Diagnostic

end ArrayExpr
