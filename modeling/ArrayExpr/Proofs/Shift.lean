import ArrayExpr.Proofs.Failure
import ArrayExpr.Proofs.Parser.Relocation
import ArrayExpr.Proofs.Token.Layout
import ArrayExpr.Proofs.Tree.Extent

/-!
# Line feeds in front of a program

Line feeds in front of a program are empty lines, so that all its lines have greater numbers and nothing else changes.
What is read of the lines moves down with them (`Lexer.readLines_down`), and so does the end token, unless there are no
lines (`Lexer.endToken_down`). To move places down is a `Relocation`, because the join of two places moves down with
them. So the tokens, the tree and the diagnostics of the program move down (`tokenize_lineFeeds`, `analyze_lineFeeds`).
A tree that is moved by a relocation has all its spans moved (`Tree.Grown.span_mapTokens`).
-/

namespace ArrayExpr

open Text Token

variable {k : Nat}

/-! ## Places further down -/

/-- The span some lines further down. -/
def Span.down (k : Nat) (s : Span) : Span := { s with startLine := s.startLine + k, endLine := s.endLine + k }

theorem Span.down_join (k : Nat) (s s' : Span) : (s.join s').down k = (s.down k).join (s'.down k) := by
  simp only [join, down, mk.injEq, Int.add_lt_add_iff_right, and_true]
  omega

/-- The token some lines further down. -/
def Token.down (k : Nat) (t : Token) : Token := { t with span := t.span.down k }

/-- To move everything down is a relocation. -/
def Relocation.down (k : Nat) : Relocation where
  token := Token.down k
  move := Span.down k
  kind_token _ := rfl
  span_token _ := rfl
  move_join := Span.down_join k

/-! ## Readings further down -/

/-- The offence some lines further down. -/
def Offence.down (k : Nat) : Offence → Offence
  | character char span => character char (span.down k)
  | unknownName error => unknownName error

/-- What was read some lines further down. -/
def Reading.down (k : Nat) (r : Reading) : Reading where
  tokens := r.tokens.map (Token.down k)
  offence := r.offence.map (Offence.down k)

theorem Reading.down_append (a b : Reading) : (a.append b).down k = (a.down k).append (b.down k) := by
  obtain ⟨ts, _ | o⟩ := a
  · simp [append, down]
  · rfl

namespace Lexer

/-- A line with a greater number. -/
theorem readLine_down (k : Nat) (number : Int) (col : Nat) (cs : List Char) :
    readLine (number + k) col cs = (readLine number col cs).down k := by
  induction cs using byUnits generalizing col with
  | nil =>
    rw [readLine, readLine]
    rfl
  | blank c rest hblank ih => rw [readLine_blank _ _ hblank, readLine_blank _ _ hblank, ih]
  | offence c rest hbegun hblank =>
    rw [readLine_offence _ _ hbegun hblank, readLine_offence _ _ hbegun hblank]
    rfl
  | lexeme kind text after hlexeme hends ih =>
    rw [readLine_lexeme _ _ hlexeme hends, readLine_lexeme _ _ hlexeme hends, ih]
    rfl

theorem readLines_down (k : Nat) (number : Int) (rows : List (List Char)) :
    readLines (number + k) rows = (readLines number rows).down k := by
  induction rows generalizing number with
  | nil => rfl
  | cons row rows ih =>
    have hnumber : number + k + 1 = number + 1 + k := by omega
    rw [readLines, readLines, Reading.down_append, readLine_down, hnumber, ih]

/-- Empty lines are counted, and nothing is read of them. -/
theorem readLines_replicate (k : Nat) (number : Int) (rows : List (List Char)) :
    readLines number (List.replicate k [] ++ rows) = readLines (number + k) rows := by
  induction k generalizing number with
  | zero => simp
  | succ k ih =>
    have hnumber : number + 1 + k = number + (k + 1 : Nat) := by omega
    rw [List.replicate_succ, List.cons_append, readLines, readLine, ih, hnumber]
    rfl

/-- The end token stands further down behind some empty lines, if there are lines. -/
theorem endToken_down (k : Nat) {rows : List (List Char)} (h : rows ≠ []) :
    endToken (List.replicate k [] ++ rows) = (endToken rows).down k := by
  have hlength := List.length_pos_iff.mpr h
  have hlast : (List.replicate k [] ++ rows).getLastD [] = rows.getLastD [] := by
    rw [List.getLastD_eq_getLast?, List.getLastD_eq_getLast?, List.getLast?_append, List.getLast?_eq_some_getLast h]
    rfl
  have hnumber : max 1 ((List.replicate k [] ++ rows).length : Int) = max 1 (rows.length : Int) + k := by
    simp only [List.length_append, List.length_replicate]
    omega
  rw [endToken, hlast, hnumber]
  rfl

end Lexer

/-! ## Programs -/

/-- A text of line feeds. -/
def Text.lineFeeds (k : Nat) : String := String.ofList (List.replicate k '\n')

/-- Line feeds in front of a text are empty lines. -/
theorem Text.lines_lineFeeds (k : Nat) (text : String) :
    lines (lineFeeds k ++ text).toList = List.replicate k [] ++ lines text.toList := by
  rw [lineFeeds, String.toList_append, String.toList_ofList]
  induction k with
  | zero => rfl
  | succ k ih =>
    rw [List.replicate_succ, List.replicate_succ, List.cons_append, List.cons_append, ← ih]
    rfl

/-- A program behind line feeds is read as the program is, but further down. -/
theorem read_lineFeeds {program : String} (hne : program ≠ "") (k : Nat) :
    Lexer.read (lineFeeds k ++ program) = (Lexer.read program).down k := by
  rw [Lexer.read, Lexer.read, lines_lineFeeds, Lexer.readLines_replicate, Lexer.readLines_down,
    Lexer.endToken_down k (lines_ne_nil hne), Reading.down_append]
  rfl

theorem tokenize_lineFeeds {program : String} (hne : program ≠ "") (k : Nat) :
    tokenize (lineFeeds k ++ program) =
      ((tokenize program).mapError ((Relocation.down k).failure (lineFeeds k ++ program))).map
        (List.map (Token.down k)) := by
  show (Lexer.read (lineFeeds k ++ program)).result _ = (((Lexer.read program).result program).mapError _).map _
  rw [read_lineFeeds hne]
  obtain ⟨tokens, _ | _ | _⟩ := Lexer.read program <;> rfl

/-- The tree of a program behind line feeds, or what is wrong with it. -/
theorem analyze_lineFeeds {program : String} (hne : program ≠ "") (k limit : Nat) :
    analyze (lineFeeds k ++ program) limit =
      ((analyze program limit).mapError ((Relocation.down k).failure (lineFeeds k ++ program))).map
        (Tree.mapTokens (Token.down k)) := by
  have htokens := tokenize_lineFeeds hne k
  cases h : tokenize program with
  | error failure =>
    rw [h] at htokens
    rw [analyze_of_tokenize_error h, analyze_of_tokenize_error htokens]
    rfl
  | ok tokens =>
    rw [h] at htokens
    rw [analyze_of_tokenize h, analyze_of_tokenize htokens]
    exact (Relocation.down k).parse_map _ tokens program limit

/-! ## Trees further down -/

theorem Relocation.move_cover (ρ : Relocation) (spans : List Span) :
    Span.cover (spans.map ρ.move) = (Span.cover spans).map ρ.move := by
  cases spans with
  | nil => rfl
  | cons first rest =>
    simp only [Span.cover, List.map_cons, Option.map_some, ρ.move_join, List.getLastD_eq_getLast?, List.getLast?_map,
      Option.getD_map]

namespace Tree

/-- A relocation of a tree moves its span, if the tree is built from its tokens. -/
theorem Grown.span_mapTokens {t : Tree} (h : Grown t) (ρ : Relocation) :
    (t.mapTokens ρ.token).span = t.span.map ρ.move := by
  induction h with
  | @branch rule children _ _ ih =>
    have hspans : (children.map (mapTokens ρ.token)).filterMap span = (children.filterMap span).map ρ.move := by
      rw [List.filterMap_map, List.map_filterMap]
      exact List.filterMap_congr ih
    rw [mapTokens_branch]
    show Span.cover _ = (Span.cover _).map _
    rw [hspans, ρ.move_cover]
  | leaf => exact congrArg some (ρ.span_token _)

/-- What a path leads to is a part. -/
theorem mem_walk_of_descendant? {t part : Tree} {path : List Nat} (h : t.descendant? path = some part) :
    part ∈ t.walk := by
  induction path generalizing t with
  | nil =>
    cases h
    exact mem_walk_self _
  | cons i path ih =>
    obtain ⟨child, hchild, hpart⟩ := Option.bind_eq_some_iff.mp h
    exact mem_walk_iff.mpr (Or.inr ⟨child, List.mem_of_getElem? hchild, ih hpart⟩)

theorem Grown.span_descendant? {t : Tree} (h : Grown t) (ρ : Relocation) (path : List Nat) :
    ((t.mapTokens ρ.token).descendant? path).map span =
      (t.descendant? path).map fun part => part.span.map ρ.move := by
  rw [descendant?_mapTokens, Option.map_map]
  refine Option.map_congr fun part hpart => ?_
  exact (h.of_mem_walk (mem_walk_of_descendant? hpart)).span_mapTokens ρ

theorem same_mapTokens_down (k : Nat) (t : Tree) : t.same (t.mapTokens (Token.down k)) = true := by
  rw [same_iff, mapTokens_mapTokens]
  rfl

end Tree

/-- Analyses of which the second is some lines further down: the trees are the same, and where a path leads to a part
of one it leads to a part of the other with the span moved down; or the same character was refused; or the problems have
the same name, and the place and the token that was found are moved down. -/
inductive MovedDown (k : Nat) : Except Failure Tree → Except Failure Tree → Prop
  | tree {t u : Tree} : t.same u = true →
      (∀ path, (u.descendant? path).map Tree.span =
        (t.descendant? path).map fun part => part.span.map (Span.down k)) →
      MovedDown k (.ok t) (.ok u)
  | lexical {d e : Diagnostic} {char : String} : d.problem = .unexpectedCharacter char →
      e.problem = .unexpectedCharacter char → e.span = d.span.down k →
      MovedDown k (.error (.lexical d)) (.error (.lexical e))
  | syntactic {d e : Diagnostic} {got : Token} : e.problem.name = d.problem.name → e.span = d.span.down k →
      d.problem.got? = some got → e.problem.got? = some (got.down k) →
      MovedDown k (.error (.syntactic d)) (.error (.syntactic e))

/-- Analyses move down with the program. -/
theorem movedDown_analyze {program : String} (hne : program ≠ "") (k limit : Nat) :
    MovedDown k (analyze program limit) (analyze (lineFeeds k ++ program) limit) := by
  rw [analyze_lineFeeds hne]
  rcases analyze_cases program limit with ⟨parts, span, h⟩ | ⟨d, _, h, htokens, _⟩ | ⟨_, d, got, _, h, _, hgot, _⟩
  · rw [h]
    exact .tree (Tree.same_mapTokens_down k _) ((grown_of_analyze h).1.span_descendant? (Relocation.down k))
  · obtain ⟨c, place, _, hd⟩ := tokenize_eq_error_iff.mp htokens
    cases hd
    rw [h]
    exact .lexical rfl rfl rfl
  · rw [h]
    refine .syntactic (Problem.name_mapToken _ _) rfl hgot ?_
    show (d.problem.mapToken (Token.down k)).got? = _
    rw [Problem.got?_mapToken, hgot]
    rfl

/-- **Line feeds in front of a program move everything down.** If a program is not empty, then behind some line feeds it
has the same tokens, so many lines further down and in the same columns, or is refused for the same character, so many
lines further down; and so are its tree with the spans of all parts, or the diagnostic and the token that it names. -/
theorem moved_down_by_lineFeeds {program : String} (hne : program ≠ "") (k limit : Nat) :
    ((∃ tokens, tokenize program = .ok tokens ∧
        tokenize (lineFeeds k ++ program) = .ok (tokens.map (Token.down k))) ∨
      ∃ d e char, tokenize program = .error (.lexical d) ∧ tokenize (lineFeeds k ++ program) = .error (.lexical e) ∧
        d.problem = .unexpectedCharacter char ∧ e.problem = .unexpectedCharacter char ∧
        e.span = d.span.down k) ∧
    MovedDown k (analyze program limit) (analyze (lineFeeds k ++ program) limit) := by
  refine ⟨?_, movedDown_analyze hne k limit⟩
  rw [tokenize_lineFeeds hne]
  cases h : tokenize program with
  | ok tokens => exact Or.inl ⟨tokens, rfl, rfl⟩
  | error failure =>
    obtain ⟨_, _, _, rfl⟩ := tokenize_eq_error_iff.mp h
    exact Or.inr ⟨_, _, _, rfl, rfl, rfl, rfl, rfl⟩

/-- Two line feeds in front of a group that is not closed on its blank last line. -/
theorem moved_down_of_broken_group : lineFeeds 2 ++ "(a\n " = "\n\n(a\n " ∧
    MovedDown 2 (analyze "(a\n ") (analyze "\n\n(a\n ") ∧
    ∃ tokens, tokenize "(a\n " = .ok tokens ∧ tokenize "\n\n(a\n " = .ok (tokens.map (Token.down 2)) ∧
      tokens.getLast? = some ⟨"", .finish, .onLine 2 1 1⟩ := by
  have htext : lineFeeds 2 ++ "(a\n " = "\n\n(a\n " := by decide
  have hne : "(a\n " ≠ "" := by decide
  obtain ⟨htokens, hanalyze⟩ := moved_down_by_lineFeeds hne 2 nestingLimit
  rw [htext] at htokens hanalyze
  refine ⟨htext, hanalyze, ?_⟩
  have hlast : (tokenize "(a\n ").toOption.map List.getLast? = some (some ⟨"", .finish, .onLine 2 1 1⟩) := by
    decide +kernel
  rcases htokens with ⟨tokens, h, h'⟩ | ⟨d, _, _, h, _⟩
  · rw [h] at hlast
    exact ⟨tokens, h, h', Option.some.inj hlast⟩
  · rw [h] at hlast
    cases hlast

end ArrayExpr
