import ArrayExpr.Proofs.Diagnostic.Rows
import ArrayExpr.Proofs.Text.Portion

/-!
# What a report colours

For a span whose columns are in order, the text that a report colours on a line is what the span covers of it
(`LineBody.within_ofLine`), and around it stands the rest of the line (`LineBody.exists_cut_ofLine`). If some lines are
quoted before and after the span, or none, then all lines that it touches are quoted (`marked_ofProgram`). So
the coloured texts are the portions of the program that the span covers, and nothing is lost or repeated around them
(`highlighting_faithful`).
-/

namespace ArrayExpr

namespace LineBody

variable {s : Span} {number : Int}

/-- What is coloured of a line is what the span covers of it. -/
theorem within_ofLine (h : s.Touches number) (hstart : 0 ≤ s.startCol) (hend : 0 ≤ s.endCol) (line : List Char) :
    (ofLine s number line).within = s.portion number line := by
  obtain ⟨hfirst, hlast⟩ := h
  rw [ofLine, if_pos ⟨hfirst, hlast⟩, Span.portion_eq ⟨hfirst, hlast⟩ hstart hend]
  by_cases hs : number = s.startLine
  · rw [if_pos hs, if_pos hs]
    by_cases he : s.startLine = s.endLine
    · have hsingle : s.isMultiline = false := by simp [Span.isMultiline, he]
      rw [hsingle, if_pos (hs.trans he)]
      exact Text.slice_of_nonneg line hstart hend
    · have hmulti : s.isMultiline = true := by simp [Span.isMultiline, he]
      rw [hmulti, if_pos rfl, if_neg fun h => he (hs.symm.trans h), List.take_length]
      exact Text.dropTo_of_nonneg line hstart
  · rw [if_neg hs, if_neg hs, List.drop_zero]
    by_cases he : number < s.endLine
    · rw [if_pos he, if_neg (Int.ne_of_lt he), List.take_length]
      rfl
    · rw [if_neg he, if_pos (by omega)]
      exact Text.takeTo_of_nonneg line hend

/-- Around what is coloured stands the rest of the line. -/
theorem exists_cut_ofLine (h : s.Touches number) (hstart : 0 ≤ s.startCol)
    (hcols : s.startLine = s.endLine → s.startCol ≤ s.endCol) (line : List Char) :
    ∃ before within after, ofLine s number line = .marked before within after ∧ before ++ within ++ after = line := by
  obtain ⟨hfirst, hlast⟩ := h
  rw [ofLine, if_pos ⟨hfirst, hlast⟩]
  split
  · split
    · exact ⟨_, _, _, rfl, by rw [Text.takeTo_append_dropTo, List.append_nil]⟩
    · next hsingle =>
      have hle : s.startCol ≤ s.endCol := hcols (by simpa [Span.isMultiline] using hsingle)
      refine ⟨_, _, _, rfl, cuts_append line ?_⟩
      rw [Text.place_of_nonneg hstart, Text.place_of_nonneg (by omega)]
      omega
  · split
    · exact ⟨_, _, _, rfl, List.append_nil line⟩
    · exact ⟨_, _, _, rfl, Text.takeTo_append_dropTo line s.endCol⟩

end LineBody

/-! ## Marked lines -/

namespace Quotation

/-- The marked ones among quoted lines. -/
def marked (quoted : List QuotedLine) : List QuotedLine := quoted.filter fun q => q.body.isMarked

variable {program : String} {s : Span} {linesBefore linesAfter : Int}

/-- All lines that the span touches are quoted, and these are the marked ones. -/
theorem marked_ofProgram (hfirst : 1 ≤ s.startLine) (hbefore : 0 ≤ linesBefore) (hafter : 0 ≤ linesAfter)
    (hle : s.startLine ≤ s.endLine) : marked (ofProgram program s linesBefore linesAfter) =
      (((Text.lines program.toList).zipIdx 1).filter fun p => decide (s.Touches p.2)).map (quote s) := by
  have hstop : stopPlace program s linesAfter = stopPlace program s linesAfter + 1 - 1 := (Nat.add_sub_cancel _ 1).symm
  rw [marked, ofProgram_eq hfirst, hstop, ← Span.filter_zipIdx, List.filter_map, List.filter_filter]
  congr 1
  refine List.filter_congr fun p hp => ?_
  have hlt : p.2 < (Text.lines program.toList).length + 1 := List.snd_lt_of_mem_zipIdx hp
  have hmarked : ((fun q : QuotedLine => q.body.isMarked) ∘ quote s) p = decide (s.Touches p.2) := by
    rw [Bool.eq_iff_iff, decide_eq_true_iff]
    exact LineBody.isMarked_ofLine s p.2 p.1
  rw [hmarked, Bool.and_eq_decide, decide_eq_decide, stopPlace, Text.place_of_nonneg (by omega), decide_eq_true_iff,
    decide_eq_true_iff, Span.Touches]
  unfold firstNumber
  omega

/-- The numbers of the marked lines. -/
theorem map_number_marked (hfirst : 1 ≤ s.startLine) (hbefore : 0 ≤ linesBefore) (hafter : 0 ≤ linesAfter)
    (hle : s.startLine ≤ s.endLine) (hlast : s.endLine ≤ (Text.lines program.toList).length) :
    (marked (ofProgram program s linesBefore linesAfter)).map QuotedLine.number =
      List.range' s.startLine.toNat (s.endLine + 1 - s.startLine).toNat := by
  have hnumber : QuotedLine.number ∘ quote s = Prod.snd := rfl
  rw [marked_ofProgram hfirst hbefore hafter hle, Span.filter_touches hfirst, List.map_map, hnumber, List.map_drop,
    List.map_take, List.zipIdx_map_snd, List.take_range'_of_length_ge (by omega), List.drop_range']
  congr 1 <;> omega

/-- The coloured texts are the portions that the span covers. -/
theorem map_within_marked (hfirst : 1 ≤ s.startLine) (hbefore : 0 ≤ linesBefore) (hafter : 0 ≤ linesAfter)
    (hle : s.startLine ≤ s.endLine) (hstart : 0 ≤ s.startCol) (hend : 0 ≤ s.endCol) :
    (marked (ofProgram program s linesBefore linesAfter)).map (fun q => q.body.within) =
      s.portions (Text.lines program.toList) := by
  rw [marked_ofProgram hfirst hbefore hafter hle, List.map_map, Span.portions]
  refine List.map_congr_left fun p hp => ?_
  have htouches : s.Touches p.2 := of_decide_eq_true (List.mem_filter.mp hp).2
  exact LineBody.within_ofLine htouches hstart hend p.1

end Quotation

open Quotation

/-- **Highlighting loses and repeats nothing.** Let the lines of a span be in order, its columns not negative and in
order if it stands on one line, and no number of lines negative. Each line that is quoted and that the span touches is
cut in three, which make it up, and the one in the middle is coloured; each other line that is quoted is shown as it is.
The coloured texts are what the span covers of the lines of the program that it touches, in their order. -/
theorem highlighting_faithful (r : Report) (program : String) (s : Span) (hbefore : 0 ≤ r.linesBefore)
    (hafter : 0 ≤ r.linesAfter) (hfirst : 1 ≤ s.startLine) (hle : s.startLine ≤ s.endLine) (hstart : 0 ≤ s.startCol)
    (hend : 0 ≤ s.endCol) (hcols : s.startLine = s.endLine → s.startCol ≤ s.endCol) :
    ∃ quoted rows, r.Shows quoted rows (r.render program s) ∧
      (∀ q ∈ quoted, ∃ line, (Text.lines program.toList)[q.number - 1]? = some line ∧
        ((s.Touches q.number ∧ ∃ before within after, q.body = .marked before within after ∧
            before ++ within ++ after = line) ∨
          ¬ s.Touches q.number ∧ q.body = .plain line)) ∧
      (marked quoted).map (fun q => q.body.within) = s.portions (Text.lines program.toList) := by
  refine ⟨_, _, r.shows_render program s, fun q hq => ?_, map_within_marked hfirst hbefore hafter hle hstart hend⟩
  obtain ⟨line, hline, hbody⟩ := exists_of_mem_ofProgram hfirst hq
  refine ⟨line, hline, ?_⟩
  rw [hbody]
  by_cases htouches : s.Touches q.number
  · exact Or.inl ⟨htouches, LineBody.exists_cut_ofLine htouches hstart hcols line⟩
  · exact Or.inr ⟨htouches, if_neg htouches⟩

/-- From the second character of the first line to behind the end of the last one, the rest of each line is coloured. -/
theorem highlighting_of_broken_group : ∃ quoted rows,
    (Report.mk "Title" "message" "" 1 1 red).Shows quoted rows
      ((Report.mk "Title" "message" "" 1 1 red).render "(a +\n\nbc" ⟨1, 3, 1, 9⟩) ∧
    (marked quoted).map (fun q => q.body.within) = [['a', ' ', '+'], [], ['b', 'c']] := by
  obtain ⟨quoted, rows, hshows, -, hcoloured⟩ := highlighting_faithful (Report.mk "Title" "message" "" 1 1 red)
    "(a +\n\nbc" ⟨1, 3, 1, 9⟩ (by decide) (by decide) (by decide) (by decide) (by decide) (by decide) (by decide)
  exact ⟨quoted, rows, hshows, hcoloured.trans (by decide +kernel)⟩

end ArrayExpr
