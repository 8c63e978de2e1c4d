import ArrayExpr.Diagnostic.Report
import ArrayExpr.Proofs.Text.OneLine
import Mathlib.Data.List.Forall2
import Mathlib.Data.Nat.Digits.Defs

/-!
# The rows of a report

A report shows a row for each line that it quotes (`Report.Shows`): the mark of the line, its number, and its text, of
which the part within the span is coloured (`QuotedLine.IsRow`). The lines that are quoted are a piece of the numbered
lines of the program (`Quotation.ofProgram_eq`), whatever integers are given: where the piece begins and what number its
first line has are two formulas, which agree since a list that is cut behind its end is empty. So the numbers follow one
another, and the line of each number is the one that is quoted (`report_layout`).
-/

namespace ArrayExpr

/-! ## Bodies -/

namespace LineBody

/-- The body shows the line: the whole of it; or the line cut in three; or what it begins with and what it ends with,
if the first cut lies behind the second, so that some characters stand in both. -/
inductive Shows (line : List Char) : LineBody → Prop
  | plain : Shows line (.plain line)
  | cut {before within after : List Char} : before ++ within ++ after = line →
      Shows line (.marked before within after)
  | crossed {before after : List Char} : before <+: line → after <:+ line → line.length < before.length + after.length →
      Shows line (.marked before [] after)

/-- Two cuts, of which the first does not lie behind the second, cut a line in three. -/
theorem cuts_append (line : List Char) {start stop : Int}
    (h : Text.place line.length start ≤ Text.place line.length stop) :
    Text.takeTo line start ++ Text.slice line start stop ++ Text.dropTo line stop = line := by
  have htake : Text.takeTo line start =
      (line.take (Text.place line.length stop)).take (Text.place line.length start) := by
    rw [Text.takeTo, List.take_take, Nat.min_eq_left h]
  rw [htake, Text.slice, List.take_append_drop]
  exact List.take_append_drop _ _

/-- Any two cuts of a line show it. -/
theorem shows_cuts (line : List Char) (start stop : Int) :
    Shows line (.marked (Text.takeTo line start) (Text.slice line start stop) (Text.dropTo line stop)) := by
  have hstart := Text.place_le line.length start
  have hstop := Text.place_le line.length stop
  by_cases h : Text.place line.length start ≤ Text.place line.length stop
  · exact .cut (cuts_append line h)
  · have hnil : Text.slice line start stop = [] := by
      rw [Text.slice, List.drop_eq_nil_iff, List.length_take]
      omega
    rw [hnil]
    refine .crossed (List.take_prefix _ _) (List.drop_suffix _ _) ?_
    rw [Text.takeTo, Text.dropTo, List.length_take, List.length_drop]
    omega

/-- The body of a line is marked exactly if the span touches the line. -/
theorem isMarked_ofLine (s : Span) (number : Int) (line : List Char) :
    (ofLine s number line).isMarked = true ↔ s.startLine ≤ number ∧ number ≤ s.endLine := by
  by_cases h : s.startLine ≤ number ∧ number ≤ s.endLine
  · rw [ofLine, if_pos h]
    split
    · split <;> simp [isMarked, h]
    · split <;> simp [isMarked, h]
  · rw [ofLine, if_neg h]
    simp [isMarked, h]

/-- The body of a line shows the line. -/
theorem ofLine_shows (s : Span) (number : Int) (line : List Char) : (ofLine s number line).Shows line := by
  unfold ofLine
  split
  · split
    · split
      · exact .cut (by rw [Text.takeTo_append_dropTo, List.append_nil])
      · exact shows_cuts line s.startCol s.endCol
    · split
      · exact .cut (List.append_nil line)
      · exact .cut (Text.takeTo_append_dropTo line s.endCol)
  · exact .plain

/-- What shows a line is one line. -/
theorem Shows.isLine_render {line : List Char} {body : LineBody} (h : body.Shows line) (hline : '\n' ∉ line)
    {start stop : String} (hstart : Text.IsLine start) (hstop : Text.IsLine stop) :
    Text.IsLine (body.render start stop) := by
  cases h with
  | plain => exact (Text.isLine_ofList line).mpr hline
  | cut hcut =>
    simp only [render, Text.isLine_append, Text.isLine_ofList, hstart, hstop, and_true]
    simpa [← hcut, and_assoc] using hline
  | crossed hbefore hafter =>
    simp only [render, Text.isLine_append, Text.isLine_ofList, hstart, hstop, and_true]
    exact ⟨⟨fun hmem => hline (hbefore.subset hmem), List.not_mem_nil⟩, fun hmem => hline (hafter.subset hmem)⟩

end LineBody

/-! ## Rows -/

open Quotation

/-- The row of a quoted line: in front, the mark of a line that is marked, and the number, which ends in the same
column of all rows; behind it the text, coloured within the span. -/
def QuotedLine.IsRow (colour : String) (width : Nat) (q : QuotedLine) (row : String) : Prop :=
  ∃ front spaces, row = front ++ q.body.render colour endColour ∧ front.length = width ∧
    front = (if q.body.isMarked then "-> " else "   ") ++
      String.ofList (List.replicate spaces ' ') ++ toString q.number ++ ". "

/-- The row of a line is one line. -/
theorem QuotedLine.IsRow.isLine {colour : String} {width : Nat} {q : QuotedLine} {row : String}
    (h : q.IsRow colour width row) (hcolour : Text.IsLine colour) {line : List Char} (hshows : q.body.Shows line)
    (hline : '\n' ∉ line) : Text.IsLine row := by
  obtain ⟨front, spaces, rfl, _, rfl⟩ := h
  have hmark : Text.IsLine (if q.body.isMarked = true then "-> " else "   ") := by split <;> decide
  have hdot : Text.IsLine ". " := by decide
  have hbody := hshows.isLine_render hline hcolour (by decide : Text.IsLine endColour)
  simp [hmark, hdot, hbody]

namespace Quotation

theorem length_numeral_le {m n : Nat} (h : m ≤ n) : (numeral m).length ≤ (numeral n).length := by
  have hlt : n < 10 ^ (numeral n).length :=
    (Nat.length_toDigits_le_iff (by decide) Nat.length_toDigits_pos).mp (Nat.le_refl _)
  exact (Nat.length_toDigits_le_iff (by decide) Nat.length_toDigits_pos).mpr (Nat.lt_of_le_of_lt h hlt)

/-- The rows of lines whose numbers do not exceed the last one. -/
theorem isRow_render (colour : String) {quoted : List QuotedLine} {last : Nat} (h : ∀ q ∈ quoted, q.number ≤ last)
    (hlast : (quoted.getLast?.map QuotedLine.number).getD 0 = last) :
    List.Forall₂ (QuotedLine.IsRow colour (5 + (numeral last).length)) quoted (render colour quoted) := by
  rw [render, List.forall₂_map_right_iff, List.forall₂_same]
  intro q hq
  have hle := length_numeral_le (h q hq)
  refine ⟨margin last q, (numeral last).length - (numeral q.number).length, by rw [hlast], ?_, ?_⟩
  · have hmark : (if q.body.isMarked = true then "-> " else "   ").length = 3 := by split <;> rfl
    simp only [margin, String.length_append, hmark, String.length_ofList, List.length_append, List.length_replicate]
    show 3 + _ + 2 = _
    omega
  · rw [margin, String.ofList_append, ← String.append_assoc, Nat.toString_eq_ofList_toDigits]
    rfl

/-! ## The lines that are quoted -/

/-- A line with its number as it is quoted. -/
def quote (s : Span) (p : List Char × Nat) : QuotedLine := ⟨p.2, .ofLine s p.2 p.1⟩

/-- To number a piece of a list is to take the piece of the numbered list. Behind the end of the list there is nothing
to number, so the numbers may then begin anywhere. -/
theorem zipIdx_drop_take (xs : List α) (start stop : Nat) :
    ((xs.take stop).drop (min start xs.length)).zipIdx (start + 1) = ((xs.zipIdx 1).take stop).drop start := by
  refine List.ext_getElem? fun i => ?_
  rw [List.getElem?_zipIdx, List.getElem?_drop, List.getElem?_drop, List.getElem?_take, List.getElem?_take,
    List.getElem?_zipIdx]
  by_cases h : start ≤ xs.length
  · rw [Nat.min_eq_left h]
    split
    · have hnumber : start + 1 + i = 1 + (start + i) := by omega
      rw [hnumber]
    · rfl
  · have hnone : xs[start + i]? = none := List.getElem?_eq_none (by omega)
    have hnone' : xs[min start xs.length + i]? = none := List.getElem?_eq_none (by omega)
    rw [hnone, hnone']
    split <;> split <;> rfl

variable {program : String} {s : Span} {linesBefore linesAfter : Int}

/-- The place behind the last line that is quoted. -/
def stopPlace (program : String) (s : Span) (linesAfter : Int) : Nat :=
  Text.place (Text.lines program.toList).length (s.endLine + linesAfter)

theorem ofProgram_eq_nil (h : s.startLine < 1) : ofProgram program s linesBefore linesAfter = [] := by
  rw [ofProgram, if_pos h]
  simp [Text.slice]

/-- The lines quoted are a piece of the numbered lines. -/
theorem ofProgram_eq (h : 1 ≤ s.startLine) : ofProgram program s linesBefore linesAfter =
    ((((Text.lines program.toList).zipIdx 1).take (stopPlace program s linesAfter)).drop
      (firstNumber s linesBefore - 1)).map (quote s) := by
  have hfirst : firstNumber s linesBefore = (firstNumber s linesBefore - 1) + 1 := by
    unfold firstNumber
    omega
  have hstart : Text.place (Text.lines program.toList).length (max 0 (s.startLine - linesBefore - 1)) =
      min (firstNumber s linesBefore - 1) (Text.lines program.toList).length := by
    rw [Text.place_of_nonneg (Int.le_max_left 0 _)]
    unfold firstNumber
    omega
  rw [ofProgram, if_neg (Int.not_lt.mpr h), Text.slice, hstart, hfirst, Nat.add_sub_cancel, zipIdx_drop_take]
  rfl

/-- The numbers of the lines quoted follow one another. -/
theorem map_number_ofProgram (program : String) (linesBefore linesAfter : Int) (h : 1 ≤ s.startLine) :
    (ofProgram program s linesBefore linesAfter).map QuotedLine.number =
      List.range' (firstNumber s linesBefore) (stopPlace program s linesAfter + 1 - firstNumber s linesBefore) := by
  have hnumber : QuotedLine.number ∘ quote s = Prod.snd := rfl
  have hpos : 1 ≤ firstNumber s linesBefore := by
    unfold firstNumber
    omega
  have hstop : stopPlace program s linesAfter ≤ (Text.lines program.toList).length := Text.place_le _ _
  rw [ofProgram_eq h, List.map_map, hnumber, List.map_drop, List.map_take, List.zipIdx_map_snd,
    List.take_range'_of_length_ge hstop, List.drop_range']
  congr 1 <;> omega

theorem exists_of_mem_ofProgram (h : 1 ≤ s.startLine) {q : QuotedLine}
    (hq : q ∈ ofProgram program s linesBefore linesAfter) :
    ∃ line, (Text.lines program.toList)[q.number - 1]? = some line ∧ q.body = .ofLine s q.number line := by
  rw [ofProgram_eq h] at hq
  obtain ⟨⟨line, number⟩, hp, rfl⟩ := List.mem_map.mp hq
  have hmem := List.mem_of_mem_take (List.mem_of_mem_drop hp)
  exact ⟨line, (List.mk_mem_zipIdx_iff_le_and_getElem?_sub.mp hmem).2, rfl⟩

/-- No number exceeds the last one. -/
theorem number_le_last {q : QuotedLine} (hq : q ∈ ofProgram program s linesBefore linesAfter) :
    q.number ≤ ((ofProgram program s linesBefore linesAfter).getLast?.map QuotedLine.number).getD 0 := by
  by_cases h : s.startLine < 1
  · rw [ofProgram_eq_nil h] at hq
    cases hq
  · have hnumbers := map_number_ofProgram program linesBefore linesAfter (Int.not_lt.mp h)
    have hmem := List.mem_map_of_mem (f := QuotedLine.number) hq
    rw [← List.getLast?_map, hnumbers, List.getLast?_range']
    rw [hnumbers, List.mem_range'_1] at hmem
    split <;> simp only [Option.getD_some, Option.getD_none] <;> omega

end Quotation

/-! ## Reports -/

/-- The lines of a report around some rows. -/
def Report.lines (r : Report) (rows : List String) : List String :=
  (r.title ++ ": " ++ r.message) :: (rows ++ if r.remark.isEmpty then [] else [r.remark])

/-- What a report shows: its title and message, a row for each of some quoted lines with fronts of the same length,
and its remark if there is one, each on a line of its own. -/
structure Report.Shows (r : Report) (quoted : List QuotedLine) (rows : List String) (text : String) : Prop where
  text_eq : text = "\n".intercalate (r.lines rows)
  rows : ∃ width, List.Forall₂ (QuotedLine.IsRow r.colour width) quoted rows

/-- **The lines of a report can be told apart**, if all that it is put together from are lines. -/
theorem Report.Shows.splitOn_eq {r : Report} {quoted : List QuotedLine} {rows : List String} {text : String}
    (h : r.Shows quoted rows text) (hheading : Text.IsLine (r.title ++ ": " ++ r.message))
    (hremark : Text.IsLine r.remark) (hcolour : Text.IsLine r.colour)
    (hquoted : ∀ q ∈ quoted, ∃ line, q.body.Shows line ∧ '\n' ∉ line) :
    text.toList.splitOn '\n' = (r.lines rows).map String.toList := by
  obtain ⟨rfl, width, hrows⟩ := h
  have hrow : ∀ row ∈ rows, Text.IsLine row := by
    induction hrows with
    | nil => exact fun _ h => nomatch h
    | cons hq _ ih =>
      obtain ⟨⟨line, hshows, hline⟩, hothers⟩ := List.forall_mem_cons.mp hquoted
      exact List.forall_mem_cons.mpr ⟨hq.isLine hcolour hshows hline, ih hothers⟩
  refine Text.splitOn_intercalate (List.cons_ne_nil _ _) (List.forall_mem_cons.mpr ⟨hheading, fun row hmem => ?_⟩)
  rcases List.mem_append.mp hmem with hmem | hmem
  · exact hrow row hmem
  · split at hmem
    · cases hmem
    · exact List.mem_singleton.mp hmem ▸ hremark

theorem Report.shows_render (r : Report) (program : String) (s : Span) :
    r.Shows (ofProgram program s r.linesBefore r.linesAfter)
      (Quotation.render r.colour (ofProgram program s r.linesBefore r.linesAfter)) (r.render program s) where
  text_eq := rfl
  rows := ⟨_, isRow_render r.colour (fun _ => number_le_last) rfl⟩

/-- **The layout of a report** on any span and with any numbers of lines before and after it. If the span begins before
the first line, then nothing is quoted. Otherwise the numbers of the quoted lines follow one another from the start line
less the lines before it, or from 1; each row shows the line of its number, and is marked exactly if that line is not
before the start line nor behind the end line. If the lines are not in reverse and no number of lines is negative, then
exactly the lines up to the end line and the lines after it are quoted, as far as there are any. -/
theorem report_layout (r : Report) (program : String) (s : Span) :
    ∃ quoted rows, r.Shows quoted rows (r.render program s) ∧
      (s.startLine < 1 → quoted = []) ∧
      (1 ≤ s.startLine →
        quoted.map QuotedLine.number = List.range' (max 1 (s.startLine - r.linesBefore)).toNat quoted.length ∧
        (∀ q ∈ quoted, ∃ line, (Text.lines program.toList)[q.number - 1]? = some line ∧ q.body.Shows line ∧
          (q.body.isMarked = true ↔ s.startLine ≤ q.number ∧ q.number ≤ s.endLine)) ∧
        (0 ≤ r.linesBefore → 0 ≤ r.linesAfter → s.startLine ≤ s.endLine → ∀ n : Nat,
          (∃ q ∈ quoted, q.number = n) ↔ max 1 (s.startLine - r.linesBefore) ≤ n ∧
            n ≤ min ((Text.lines program.toList).length : Int) (s.endLine + r.linesAfter))) := by
  refine ⟨_, _, r.shows_render program s, ofProgram_eq_nil, fun h => ?_⟩
  have hnumbers := map_number_ofProgram program r.linesBefore r.linesAfter h
  have hlength := congrArg List.length hnumbers
  rw [List.length_map, List.length_range'] at hlength
  refine ⟨by rw [hnumbers, hlength]; rfl, fun q hq => ?_, fun hbefore hafter hle n => ?_⟩
  · obtain ⟨line, hline, hbody⟩ := exists_of_mem_ofProgram h hq
    rw [hbody]
    exact ⟨line, hline, LineBody.ofLine_shows _ _ _, LineBody.isMarked_ofLine _ _ _⟩
  · rw [← List.mem_map, hnumbers, List.mem_range'_1, stopPlace, Text.place_of_nonneg (by omega)]
    unfold firstNumber
    omega

/-- Around the ninth and the tenth of ten lines, with one line before them and up to five behind them, three lines are
quoted, and the last two are marked. -/
theorem layout_of_tenth_line : ∃ quoted rows,
    (Report.mk "Title" "message" "" 1 5 red).Shows quoted rows
      ((Report.mk "Title" "message" "" 1 5 red).render "a\nb\nc\nd\ne\nf\ng\nh\ni\nj" ⟨9, 10, 0, 1⟩) ∧
    (∀ n : Nat, (∃ q ∈ quoted, q.number = n) ↔ 8 ≤ n ∧ n ≤ 10) ∧
    ∀ q ∈ quoted, q.body.isMarked = true ↔ 9 ≤ q.number := by
  obtain ⟨quoted, rows, hshows, -, hlayout⟩ := report_layout (Report.mk "Title" "message" "" 1 5 red)
    "a\nb\nc\nd\ne\nf\ng\nh\ni\nj" ⟨9, 10, 0, 1⟩
  obtain ⟨-, hbodies, hnumbers⟩ := hlayout (by decide)
  have hlength : (Text.lines "a\nb\nc\nd\ne\nf\ng\nh\ni\nj".toList).length = 10 := by decide +kernel
  have hquoted : ∀ n : Nat, (∃ q ∈ quoted, q.number = n) ↔ 8 ≤ n ∧ n ≤ 10 := by
    intro n
    rw [hnumbers (by decide) (by decide) (by decide) n, hlength]
    show max 1 (9 - 1) ≤ (n : Int) ∧ (n : Int) ≤ min ((10 : Nat) : Int) (10 + 5) ↔ _
    omega
  refine ⟨quoted, rows, hshows, hquoted, fun q hq => ?_⟩
  obtain ⟨_, _, _, hmarked⟩ := hbodies q hq
  have hlast := ((hquoted q.number).mp ⟨q, hq, rfl⟩).2
  rw [hmarked]
  show (9 : Int) ≤ q.number ∧ (q.number : Int) ≤ 10 ↔ _
  omega

end ArrayExpr
