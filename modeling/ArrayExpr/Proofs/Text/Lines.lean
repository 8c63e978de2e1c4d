import Mathlib.Data.List.Basic
import ArrayExpr.Text.Lines

/-!
# Where a character stands in the lines of a text

The lines of a text have its characters in their order, but for the line breaks (`flatten_lines`). A character that
breaks no line stands behind the lines that end before it, in a line that the characters before it begin and those
behind it continue (`exists_lines_append`). So its place depends on nothing that comes later. What stands in front of a
line feed and what stands behind it can be cut into lines apart (`lines_append_lineFeed`), so that lines that are put
below one another are found again (`lines_intercalate`).
-/

namespace ArrayExpr.Text

/-- To put a character in front of the first line is to change that line, which may be missing, and no other. -/
theorem extendFirst_eq (c : Char) (rows : List (List Char)) :
    extendFirst c rows = (c :: rows.headD []) :: rows.tail := by
  cases rows <;> rfl

/-- A line break ends an empty line, but a carriage return does nothing if it forms one break with a line feed. -/
theorem lines_cons_of_break {c : Char} (h : isLineBreak c = true) (rest : List Char) :
    (c = '\r' ∧ rest.head? = some '\n' ∧ lines (c :: rest) = lines rest) ∨
    ((c = '\r' → rest.head? ≠ some '\n') ∧ lines (c :: rest) = [] :: lines rest) := by
  by_cases hpair : c = '\r' ∧ rest.head? = some '\n'
  · obtain ⟨rfl, hfeed⟩ := hpair
    obtain ⟨rest', rfl⟩ := List.head?_eq_some_iff.mp hfeed
    exact Or.inl ⟨rfl, rfl, rfl⟩
  · refine Or.inr ⟨fun hc hfeed => hpair ⟨hc, hfeed⟩, ?_⟩
    rw [lines.eq_3 c rest fun rest' hc hrest => hpair ⟨hc, by rw [hrest]; rfl⟩, if_pos h]

/-- A text that is not empty has lines. -/
theorem lines_ne_nil {text : String} (h : text ≠ "") : lines text.toList ≠ [] := by
  unfold lines
  split
  · next hnil => exact absurd (String.toList_injective hnil) h
  · exact List.cons_ne_nil _ _
  · split
    · exact List.cons_ne_nil _ _
    · rw [extendFirst_eq]
      exact List.cons_ne_nil _ _

/-- Lines have the characters of the text that break no line, in their order. -/
theorem flatten_lines (cs : List Char) : (lines cs).flatten = cs.filter fun c => !isLineBreak c := by
  induction cs with
  | nil => rfl
  | cons c rest ih =>
    cases hc : isLineBreak c with
    | false =>
      rw [lines_cons_of_not_break hc, List.filter_cons_of_pos (by simp [hc]), ← ih]
      cases lines rest <;> rfl
    | true =>
      rw [List.filter_cons_of_neg (by simp [hc]), ← ih]
      rcases lines_cons_of_break hc rest with ⟨_, _, hlines⟩ | ⟨_, hlines⟩
      · rw [hlines]
      · rw [hlines, List.flatten_cons, List.nil_append]

theorem mem_of_mem_lines {cs line : List Char} {c : Char} (hline : line ∈ lines cs) (hc : c ∈ line) :
    c ∈ cs ∧ isLineBreak c = false := by
  have hmem := List.mem_flatten_of_mem hline hc
  rw [flatten_lines, List.mem_filter] at hmem
  exact ⟨hmem.1, by simpa using hmem.2⟩

/-- The place of a character that breaks no line: the lines before its own, and what its line begins with. These
depend on the characters before it only. -/
theorem exists_lines_append (before : List Char) : ∃ rows row, ∀ (c : Char) (after : List Char),
    isLineBreak c = false →
      lines (before ++ c :: after) = rows ++ (row ++ c :: (lines after).headD []) :: (lines after).tail := by
  induction before with
  | nil =>
    refine ⟨[], [], fun c after hc => ?_⟩
    rw [List.nil_append, lines_cons_of_not_break hc, extendFirst_eq]
    rfl
  | cons b before ih =>
    obtain ⟨rows, row, hlines⟩ := ih
    cases hb : isLineBreak b with
    | false =>
      -- the character comes in front of the first line, which is its own one if no line ends before
      cases rows with
      | nil =>
        refine ⟨[], b :: row, fun c after hc => ?_⟩
        rw [List.cons_append, lines_cons_of_not_break hb, hlines c after hc]
        rfl
      | cons first rows =>
        refine ⟨(b :: first) :: rows, row, fun c after hc => ?_⟩
        rw [List.cons_append, lines_cons_of_not_break hb, hlines c after hc]
        rfl
    | true =>
      by_cases hpair : b = '\r' ∧ before.head? = some '\n'
      · obtain ⟨rfl, hfeed⟩ := hpair
        obtain ⟨before', rfl⟩ := List.head?_eq_some_iff.mp hfeed
        exact ⟨rows, row, hlines⟩
      · refine ⟨[] :: rows, row, fun c after hc => ?_⟩
        rcases lines_cons_of_break hb (before ++ c :: after) with ⟨hreturn, hfeed, _⟩ | ⟨_, hends⟩
        · cases before with
          | nil =>
            cases hfeed
            cases hc
          | cons d before => exact absurd ⟨hreturn, hfeed⟩ hpair
        · rw [List.cons_append, hends, hlines c after hc]
          rfl

/-- What stands in front of a character in the lines are the characters before it that break no line. -/
theorem flatten_of_lines_concat {before row : List Char} {rows : List (List Char)} {c : Char}
    (h : lines (before ++ [c]) = rows ++ [row ++ [c]]) (hc : isLineBreak c = false) :
    (rows ++ [row]).flatten = before.filter fun b => !isLineBreak b := by
  have hflatten := flatten_lines (before ++ [c])
  rw [h, List.filter_append, List.filter_cons_of_pos (by simp [hc])] at hflatten
  simpa [← List.append_assoc] using hflatten

/-! ## Lines below one another -/

/-- A text without line breaks is one line. -/
theorem lines_of_no_break : ∀ {cs : List Char}, (∀ c ∈ cs, isLineBreak c = false) → cs ≠ [] → lines cs = [cs]
  | [], _, hne => absurd rfl hne
  | [c], h, _ => by
    rw [lines_cons_of_not_break (h c List.mem_cons_self), lines_nil]
    rfl
  | c :: d :: cs, h, _ => by
    have hrest := lines_of_no_break (fun e he => h e (List.mem_cons_of_mem _ he)) (List.cons_ne_nil d cs)
    rw [lines_cons_of_not_break (h c List.mem_cons_self), hrest]
    rfl

/-- A line ends at a line feed. -/
theorem lines_append_lineFeed_of_no_break {row : List Char} (h : ∀ c ∈ row, isLineBreak c = false) (rest : List Char) :
    lines (row ++ '\n' :: rest) = row :: lines rest := by
  induction row with
  | nil => rfl
  | cons c row ih =>
    obtain ⟨hc, hrow⟩ := List.forall_mem_cons.mp h
    rw [List.cons_append, lines_cons_of_not_break hc, ih hrow]
    rfl

/-- Lines that are not empty and are put below one another are the lines of the text that they make. -/
theorem lines_intercalate : ∀ {rows : List (List Char)}, (∀ row ∈ rows, row ≠ []) →
    (∀ row ∈ rows, ∀ c ∈ row, isLineBreak c = false) → lines (['\n'].intercalate rows) = rows
  | [], _, _ => rfl
  | [row], hne, h => by
    rw [List.intercalate_singleton]
    exact lines_of_no_break (h row List.mem_cons_self) (hne row List.mem_cons_self)
  | row :: row' :: rows, hne, h => by
    obtain ⟨hrow, hrows⟩ := List.forall_mem_cons.mp h
    rw [List.intercalate_cons_cons, List.append_assoc, List.singleton_append, lines_append_lineFeed_of_no_break hrow,
      lines_intercalate (List.forall_mem_cons.mp hne).2 hrows]

/-- A line feed ends the lines before it: those behind it depend on what is behind it only. -/
theorem lines_append_lineFeed (front rest : List Char) :
    lines (front ++ '\n' :: rest) = lines (front ++ ['\n']) ++ lines rest := by
  induction front with
  | nil => rfl
  | cons c front ih =>
    have hhead : (front ++ '\n' :: rest).head? = (front ++ ['\n']).head? := by cases front <;> rfl
    rw [List.cons_append, List.cons_append]
    cases hc : isLineBreak c with
    | false =>
      have hne : lines (String.ofList (front ++ ['\n'])).toList ≠ [] := lines_ne_nil (by simp)
      rw [String.toList_ofList] at hne
      obtain ⟨row, rows, hrows⟩ := List.exists_cons_of_ne_nil hne
      rw [lines_cons_of_not_break hc, lines_cons_of_not_break hc, ih, hrows]
      rfl
    | true =>
      -- whether a carriage return is one break with a line feed behind it is told by the next character
      rcases lines_cons_of_break hc (front ++ '\n' :: rest) with ⟨hreturn, hfeed, hlines⟩ | ⟨hends, hlines⟩ <;>
        rcases lines_cons_of_break hc (front ++ ['\n']) with ⟨hreturn', hfeed', hlines'⟩ | ⟨hends', hlines'⟩
      · rw [hlines, hlines', ih]
      · exact absurd (hhead ▸ hfeed) (hends' hreturn)
      · exact absurd (hhead ▸ hfeed') (hends hreturn')
      · rw [hlines, hlines', ih, List.cons_append]

end ArrayExpr.Text
