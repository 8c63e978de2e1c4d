import ArrayExpr.CommandLine.Session
import ArrayExpr.Proofs.CommandLine.Arguments
import ArrayExpr.Proofs.Failure
import ArrayExpr.Proofs.Parser.Trace
import ArrayExpr.Proofs.Text.Lines
import ArrayExpr.Proofs.Token.Recording

/-!
# Verdicts

A block ends with the verdict to which the analysis of its expression comes, whatever parts are shown before it
(`exists_ofExpression_eq`). What is shown ends in a line feed, so that the lines of the output are those of the blocks,
one block after the other (`Text.lines_join`), and the last line of a block is its verdict (`concludes_ofExpression`).
The status of a session is 0 exactly if all its expressions are accepted, and 1 otherwise (`verdicts_in_order`).
-/

namespace ArrayExpr

/-! ## Lines of what is shown -/

namespace Text

/-- The text is empty, or its last line is ended by a line feed. -/
def Closed (cs : List Char) : Prop := cs = [] ∨ ∃ front, cs = front ++ ['\n']

/-- What follows a closed text begins a new line. -/
theorem Closed.lines_append {cs : List Char} (h : Closed cs) (rest : List Char) :
    lines (cs ++ rest) = lines cs ++ lines rest := by
  rcases h with rfl | ⟨front, rfl⟩
  · rfl
  · rw [List.append_assoc, List.singleton_append, lines_append_lineFeed]

theorem lines_join : ∀ {texts : List String}, (∀ text ∈ texts, Closed text.toList) →
    lines (String.join texts).toList = texts.flatMap fun text => lines text.toList
  | [], _ => rfl
  | text :: texts, h => by
    obtain ⟨htext, htexts⟩ := List.forall_mem_cons.mp h
    rw [String.join_cons, String.toList_append, htext.lines_append, lines_join htexts, List.flatMap_cons]

/-- The last line of a text. -/
def lastLine? (text : String) : Option String := (lines text.toList).getLast?.map String.ofList

end Text

theorem toList_textOfLines_concat (rows : List String) (row : String) :
    (textOfLines (rows ++ [row])).toList = (textOfLines rows).toList ++ (row.toList ++ ['\n']) := by
  simp [textOfLines, String.toList_join]

theorem closed_textOfLines (rows : List String) : Text.Closed (textOfLines rows).toList := by
  rcases List.eq_nil_or_concat rows with rfl | ⟨front, row, rfl⟩
  · exact Or.inl rfl
  · rw [List.concat_eq_append, toList_textOfLines_concat, ← List.append_assoc]
    exact Or.inr ⟨_, rfl⟩

theorem lastLine?_textOfLines (rows : List String) {row : String}
    (h : ∀ c ∈ row.toList, Text.isLineBreak c = false) : Text.lastLine? (textOfLines (rows ++ [row])) = some row := by
  rw [Text.lastLine?, toList_textOfLines_concat, (closed_textOfLines rows).lines_append,
    Text.lines_append_lineFeed_of_no_break h, Text.lines_nil, List.getLast?_concat, Option.map_some,
    String.ofList_toList]

/-! ## Verdicts -/

namespace Verdict

/-- The verdict on an expression, given its analysis. -/
def ofAnalysis : Except Failure Tree → Verdict
  | .ok _ => valid
  | .error failure => ofFailure failure

theorem line_injective {v v' : Verdict} (h : v.line = v'.line) : v = v' := by
  cases v <;> cases v' <;> first | rfl | exact absurd h (by decide)

theorem isLineBreak_of_mem_line (v : Verdict) : ∀ c ∈ v.line.toList, Text.isLineBreak c = false := by
  have hall : v.line.toList.all (!Text.isLineBreak ·) = true := by cases v <;> decide
  intro c hc
  simpa using List.all_eq_true.mp hall c hc

/-- What a verdict says. -/
theorem ofAnalysis_analyze (program : String) :
    (ofAnalysis (analyze program) = valid ↔ ∃ t, analyze program = .ok t) ∧
    (ofAnalysis (analyze program) = lexicallyInvalid ↔ ∃ d, analyze program = .error (.lexical d)) ∧
    (ofAnalysis (analyze program) = syntacticallyInvalid ↔ ∃ d, analyze program = .error (.syntactic d)) := by
  rcases analyze_cases program nestingLimit with ⟨parts, span, h⟩ | ⟨d, _, h, _⟩ | ⟨_, d, _, _, h, _⟩ <;>
    rw [h] <;> simp [ofAnalysis, ofFailure]

end Verdict

/-! ## Blocks -/

namespace Block

/-- A block comes to the verdict on its expression, whatever is shown. -/
theorem exists_ofExpression_eq (display : Display) (description expression : String) : ∃ body events,
    ofExpression display description expression =
      assemble description expression body (.ofAnalysis (analyze expression)) events := by
  unfold ofExpression
  dsimp only
  -- events do not change the results, so the cases are those of the analysis
  rw [result_scan]
  cases htokens : tokenize expression with
  | error failure =>
    rw [analyze_of_tokenize_error htokens]
    exact ⟨_, _, rfl⟩
  | ok tokens =>
    rw [analyze_of_tokenize htokens]
    dsimp only
    rw [result_parseTraced]
    cases parse tokens expression with
    | error failure => exact ⟨_, _, rfl⟩
    | ok t => exact ⟨_, _, rfl⟩

theorem verdict_ofExpression (display : Display) (description expression : String) :
    (ofExpression display description expression).verdict = .ofAnalysis (analyze expression) := by
  obtain ⟨body, events, h⟩ := exists_ofExpression_eq display description expression
  rw [h]
  rfl

/-- The last line of a block is its verdict. -/
theorem lastLine?_ofExpression (display : Display) (description expression : String) :
    Text.lastLine? (ofExpression display description expression).text =
      some (Verdict.ofAnalysis (analyze expression)).line := by
  obtain ⟨body, events, h⟩ := exists_ofExpression_eq display description expression
  rw [h]
  exact lastLine?_textOfLines _ (Verdict.isLineBreak_of_mem_line _)

/-- The text of a block on an expression: it begins with a heading that names the expression, and its last line says
whether the expression is accepted, and if not, at which stage it is refused. -/
structure Concludes (description expression text : String) : Prop where
  headed : ∃ rest, text = "\n=== " ++ description ++ " ===\nExpression: " ++ Text.quoted expression ++ "\n" ++ rest
  valid_iff : Text.lastLine? text = some "VALID" ↔ ∃ t, analyze expression = .ok t
  lexical_iff : Text.lastLine? text = some "INVALID (lexical)" ↔ ∃ d, analyze expression = .error (.lexical d)
  syntactic_iff : Text.lastLine? text = some "INVALID (syntax)" ↔ ∃ d, analyze expression = .error (.syntactic d)

theorem lastLine?_eq_line_iff (display : Display) (description expression : String) (v : Verdict) :
    Text.lastLine? (ofExpression display description expression).text = some v.line ↔
      .ofAnalysis (analyze expression) = v := by
  rw [lastLine?_ofExpression, Option.some.injEq]
  exact ⟨Verdict.line_injective, congrArg Verdict.line⟩

/-- **What a block says of its expression** is what the analysis comes to. -/
theorem concludes_ofExpression (display : Display) (description expression : String) :
    Concludes description expression (ofExpression display description expression).text := by
  obtain ⟨hvalid, hlexical, hsyntactic⟩ := Verdict.ofAnalysis_analyze expression
  have hline := lastLine?_eq_line_iff display description expression
  refine ⟨?_, (hline .valid).trans hvalid, (hline .lexicallyInvalid).trans hlexical,
    (hline .syntacticallyInvalid).trans hsyntactic⟩
  obtain ⟨body, events, h⟩ := exists_ofExpression_eq display description expression
  refine ⟨textOfLines (body ++ [(Verdict.ofAnalysis (analyze expression)).line]), ?_⟩
  rw [h]
  apply String.toList_injective
  simp [Block.text, assemble, textOfLines, String.toList_join]

end Block

/-! ## Sessions -/

theorem textOfLines_flatten : ∀ portions : List (List String),
    textOfLines portions.flatten = String.join (portions.map textOfLines)
  | [] => rfl
  | rows :: portions => by
    rw [List.flatten_cons, List.map_cons, String.join_cons, ← textOfLines_flatten portions, textOfLines,
      List.map_append, String.join_append]
    rfl

namespace Session

open CommandLine

/-- The texts of the blocks on expressions, which are numbered from 1. -/
def blockTexts (display : Display) (expressions : List String) : List String :=
  (expressions.zipIdx 1).map fun (expression, i) =>
    (Block.ofExpression display ("Expression " ++ toString i) expression).text

theorem blockTexts_eq (display : Display) (expressions : List String) :
    blockTexts display expressions = (blocks display (numbered expressions)).map Block.text := by
  rw [blockTexts, blocks, numbered, List.map_map, List.map_map]
  rfl

theorem ofRequest_of_ne_nil {request : Request} (hne : request.expressions ≠ []) :
    ofRequest request =
      ofBlocks (if (blocks request.display (numbered request.expressions)).all (·.verdict == .valid) then 0 else 1) []
        (blocks request.display (numbered request.expressions)) := by
  rw [ofRequest, if_neg (by simpa using hne)]

/-- The output of a session are its blocks, one after the other. -/
theorem output_ofRequest {request : Request} (hne : request.expressions ≠ []) :
    (ofRequest request).output = String.join (blockTexts request.display request.expressions) := by
  rw [ofRequest_of_ne_nil hne, blockTexts_eq]
  show textOfLines ([] ++ List.flatMap _ _) = _
  rw [List.nil_append, List.flatMap_def, textOfLines_flatten, List.map_map]
  rfl

theorem forall₂_blockTexts (display : Display) (expressions : List String) :
    List.Forall₂ (fun (expression, i) text => Block.Concludes ("Expression " ++ toString i) expression text)
      (expressions.zipIdx 1) (blockTexts display expressions) := by
  rw [blockTexts, List.forall₂_map_right_iff, List.forall₂_same]
  exact fun numbered _ => Block.concludes_ofExpression display _ numbered.1

/-- Each verdict is that on its own expression, in the order of the expressions. -/
theorem map_verdict_blocks (display : Display) (expressions : List String) :
    (blocks display (numbered expressions)).map Block.verdict =
      expressions.map fun expression => .ofAnalysis (analyze expression) := by
  have hverdict : ∀ described : String × Nat,
      (Block.ofExpression display ("Expression " ++ toString described.2) described.1).verdict =
        .ofAnalysis (analyze described.1) := fun _ => Block.verdict_ofExpression display _ _
  conv_rhs => rw [← List.zipIdx_map_fst 1 expressions, List.map_map]
  rw [blocks, numbered, List.map_map, List.map_map]
  exact List.map_congr_left fun described _ => hverdict described

/-- All blocks are valid exactly if all expressions are accepted. -/
theorem all_valid_iff (display : Display) (expressions : List String) :
    (blocks display (numbered expressions)).all (·.verdict == .valid) = true ↔
      ∀ expression ∈ expressions, ∃ t, analyze expression = .ok t := by
  have hall : (blocks display (numbered expressions)).all (·.verdict == .valid) =
      ((blocks display (numbered expressions)).map Block.verdict).all (· == .valid) := by
    rw [List.all_map]
    rfl
  rw [hall, map_verdict_blocks, List.all_map, List.all_eq_true]
  refine forall₂_congr fun expression _ => ?_
  rw [Function.comp_apply, beq_iff_eq]
  exact (Verdict.ofAnalysis_analyze expression).1

/-- The status of a session is 0 if all expressions are accepted, and 1 otherwise. -/
theorem status_ofRequest {request : Request} (hne : request.expressions ≠ []) :
    ((ofRequest request).status = 0 ↔ ∀ expression ∈ request.expressions, ∃ t, analyze expression = .ok t) ∧
    ((ofRequest request).status = 1 ↔ ∃ expression ∈ request.expressions, ∀ t, analyze expression ≠ .ok t) := by
  have hstatus : (ofRequest request).status =
      if (blocks request.display (numbered request.expressions)).all (·.verdict == .valid) then 0 else 1 := by
    rw [ofRequest_of_ne_nil hne]
    rfl
  have hnot : (∃ expression ∈ request.expressions, ∀ t, analyze expression ≠ .ok t) ↔
      ¬ ∀ expression ∈ request.expressions, ∃ t, analyze expression = .ok t := by
    simp only [not_forall, not_exists, exists_prop, ne_eq]
  rw [hstatus, hnot, ← all_valid_iff request.display]
  cases (blocks request.display (numbered request.expressions)).all (·.verdict == .valid) <;> decide

/-- **Verdicts are independent and in order.** Every request for expressions can be made, and a command line that makes
it shows one block for each expression, in order. Whatever parts are shown and whatever the other expressions are, the
last line of a block says whether its own expression is accepted, and if not, whether its text or its tokens are
refused. The status is 0 if all expressions are accepted, and 1 otherwise. -/
theorem verdicts_in_order (request : Request) (hne : request.expressions ≠ []) :
    read request.arguments = .run request ∧
    ∀ args, read args = .run request →
      (ofArguments args).output = String.join (blockTexts request.display request.expressions) ∧
      Text.lines (ofArguments args).output.toList =
        (blockTexts request.display request.expressions).flatMap (fun text => Text.lines text.toList) ∧
      List.Forall₂ (fun (expression, i) text => Block.Concludes ("Expression " ++ toString i) expression text)
        (request.expressions.zipIdx 1) (blockTexts request.display request.expressions) ∧
      ((ofArguments args).status = 0 ↔ ∀ expression ∈ request.expressions, ∃ t, analyze expression = .ok t) ∧
      ((ofArguments args).status = 1 ↔ ∃ expression ∈ request.expressions, ∀ t, analyze expression ≠ .ok t) := by
  refine ⟨read_arguments request, fun args hread => ?_⟩
  have hsession : ofArguments args = ofRequest request := by rw [ofArguments, hread]
  rw [hsession, output_ofRequest hne]
  refine ⟨rfl, Text.lines_join ?_, forall₂_blockTexts _ _, status_ofRequest hne⟩
  rw [blockTexts_eq]
  exact List.forall_mem_map.mpr fun block _ => closed_textOfLines block.lines

/-- Three expressions, of which the first is accepted, the second is refused for a character and the third for a token.
-/
theorem verdicts_of_three :
    read ["--no-tree", "a+b", "a#b", "a b"] = .run ⟨["a+b", "a#b", "a b"], { tree := false }⟩ ∧
    (ofArguments ["--no-tree", "a+b", "a#b", "a b"]).status = 1 ∧
    (blockTexts { tree := false } ["a+b", "a#b", "a b"]).map Text.lastLine? =
      [some "VALID", some "INVALID (lexical)", some "INVALID (syntax)"] := by
  have hread : read ["--no-tree", "a+b", "a#b", "a b"] = .run ⟨["a+b", "a#b", "a b"], { tree := false }⟩ := by
    decide +kernel
  have haccepted : ((analyze "a+b").toOption.map fun _ => ()) = some () := by decide +kernel
  obtain ⟨t, hvalid, -⟩ := exists_ok_of_toOption_map haccepted
  have hlexical : analyze "a#b" =
      .error (.lexical ⟨"a#b", .onLine 1 1 2, .unexpectedCharacter "#", 1, 1⟩) := eq_error_of_match (by decide +kernel)
  have hsyntactic : analyze "a b" =
      .error (.syntactic ⟨"a b", .onLine 1 2 3, .trailingTokens ⟨"b", .identifier, .onLine 1 2 3⟩, 1, 1⟩) :=
    eq_error_of_match (by decide +kernel)
  obtain ⟨_, hruns⟩ := verdicts_in_order ⟨["a+b", "a#b", "a b"], { tree := false }⟩ (List.cons_ne_nil _ _)
  obtain ⟨_, _, hblocks, _, hstatus⟩ := hruns _ hread
  refine ⟨hread, hstatus.mpr ⟨"a#b", by decide, fun t ht => by rw [hlexical] at ht; cases ht⟩, ?_⟩
  obtain ⟨hfirst, hblocks⟩ := List.forall₂_cons.mp hblocks
  obtain ⟨hsecond, hblocks⟩ := List.forall₂_cons.mp hblocks
  obtain ⟨hthird, -⟩ := List.forall₂_cons.mp hblocks
  exact congrArg₂ List.cons (hfirst.valid_iff.mpr ⟨t, hvalid⟩)
    (congrArg₂ List.cons (hsecond.lexical_iff.mpr ⟨_, hlexical⟩)
      (congrArg (· :: []) (hthird.syntactic_iff.mpr ⟨_, hsyntactic⟩)))

end Session

end ArrayExpr
