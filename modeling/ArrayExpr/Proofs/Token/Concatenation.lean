import ArrayExpr.Proofs.Token.Layout
import ArrayExpr.Proofs.Token.Spelling

/-!
# Texts one after another

A text `Yields` the contents of the tokens that are read of it, from whatever place on, if no character of it is
illegal. A program yields the contents of the body of its tokens (`tokenize_ok_iff_yields`). Two texts together yield
what both of them yield, if every lexeme ends before the second one (`Yields.append`), as it does before an operator or
bracket (`endsBefore_symbol`).
-/

namespace ArrayExpr

open Text Token

theorem endsBefore_symbol {symbol : Kind} (h : symbol.hasLexeme = true) (cs : List Char) (kind : Kind) :
    kind.EndsBefore (symbol.spelling.toList ++ cs) := by
  obtain ⟨c, hspelling, hsymbol⟩ := Kind.exists_spelling h
  rw [hspelling]
  intro d hd
  cases hd
  exact kind.mayPrecede_of_symbol hsymbol

theorem Kind.endsBefore_of_hasLexeme {kind : Kind} (h : kind.hasLexeme = true) (cs : List Char) :
    kind.EndsBefore cs := by
  intro c _
  cases kind with
  | identifier => cases h
  | number => cases h
  | _ => trivial

theorem Kind.EndsBefore.append {kind : Kind} {cs ds : List Char} (h : kind.EndsBefore cs) (h' : kind.EndsBefore ds) :
    kind.EndsBefore (cs ++ ds) := by
  cases cs with
  | nil => exact h'
  | cons c cs => exact h

namespace Lexer

/-- What a text yields: the contents of its tokens, wherever it is read, if it has no offence. -/
def Yields (cs : List Char) (contents : List (String × Kind)) : Prop :=
  ∀ (number : Int) (col : Nat), (readText number col cs).gist = (contents, none)

variable {cs ds text : List Char} {contents others : List (String × Kind)} {kind : Kind}

/-- To know what a text yields, it is enough to read it at one place. -/
theorem yields_of_gist {number : Int} {col : Nat} (h : (readText number col cs).gist = (contents, none)) :
    Yields cs contents :=
  fun number' col' => (Alike.refl cs number' number col' col).trans h

theorem Yields.of_alike (h : Yields cs contents) (halike : Alike ds cs) : Yields ds contents :=
  fun number col => (halike number number col col).trans (h number col)

namespace Yields

theorem unique (h : Yields cs contents) (h' : Yields cs others) : contents = others :=
  congrArg Prod.fst ((h 1 0).symm.trans (h' 1 0))

theorem nil : Yields [] [] := by
  intro number col
  rw [readText, lines_nil, List.headD_nil, readLine]
  rfl

theorem lexeme (hlexeme : Lexeme kind text) (hends : kind.EndsBefore cs) (h : Yields cs contents) :
    Yields (text ++ cs) ((String.ofList text, kind) :: contents) := by
  intro number col
  rw [readText_lexeme number col hlexeme hends, Reading.gist_cons, h]
  rfl

theorem exists_of_lexeme (hlexeme : Lexeme kind text) (hends : kind.EndsBefore cs) (h : Yields (text ++ cs) contents) :
    ∃ others, contents = (String.ofList text, kind) :: others ∧ Yields cs others := by
  have hgist := h 1 0
  rw [readText_lexeme 1 0 hlexeme hends, Reading.gist_cons, Prod.mk.injEq] at hgist
  exact ⟨_, hgist.1.symm, yields_of_gist (Prod.ext rfl hgist.2)⟩

theorem isSeparator_of_cons {c : Char} (hc : Kind.begunBy? c = none) (h : Yields (c :: cs) contents) :
    isSeparator c = true := by
  by_contra hnot
  have hillegal := illegal_iff.mpr ⟨hc, Bool.eq_false_iff.mpr hnot⟩
  have hgist := h 1 0
  rw [readText_illegal 1 0 hillegal] at hgist
  cases congrArg Prod.snd hgist

/-- Two texts together yield what both yield, if every lexeme ends before the second. By induction along the lexemes
of the first one. -/
theorem append (h : Yields cs contents) (hends : ∀ kind : Kind, kind.EndsBefore ds) (h' : Yields ds others) :
    Yields (cs ++ ds) (contents ++ others) := by
  induction cs using byLexemes generalizing contents with
  | nil =>
    rw [h.unique nil]
    exact h'
  | other c rest hc ih =>
    have hseparator := h.isSeparator_of_cons hc
    have hrest : Yields rest contents := h.of_alike ((Alike.refl rest).separator hseparator).symm
    exact (ih hrest).of_alike ((Alike.refl (rest ++ ds)).separator hseparator)
  | lexeme kind text after hlexeme hend ih =>
    obtain ⟨contents, rfl, hafter⟩ := h.exists_of_lexeme hlexeme hend
    rw [List.append_assoc, List.cons_append]
    exact lexeme hlexeme (hend.append (hends kind)) (ih hafter)

theorem symbol (hkind : kind.hasLexeme = true) (h : Yields cs contents) :
    Yields (kind.spelling.toList ++ cs) ((kind.spelling, kind) :: contents) := by
  have hlexeme := lexeme (.fixed hkind) (kind.endsBefore_of_hasLexeme hkind cs) h
  rwa [String.ofList_toList] at hlexeme

theorem append_symbol (hkind : kind.hasLexeme = true) (h : Yields cs contents) (h' : Yields ds others) :
    Yields (cs ++ (kind.spelling.toList ++ ds)) (contents ++ (kind.spelling, kind) :: others) :=
  h.append (endsBefore_symbol hkind ds) (h'.symbol hkind)

end Yields

end Lexer

/-- **A program has tokens exactly if it yields something**, which is the contents of their body. -/
theorem tokenize_ok_iff_yields {program : String} {contents : List (String × Kind)} :
    (∃ tokens, tokenize program = .ok tokens ∧ Ended tokens ∧ (body tokens).map content = contents) ↔
      Lexer.Yields program.toList contents := by
  have hread := Lexer.readLines_lines 1 program.toList
  have hbody : ∀ tokens, tokenize program = .ok tokens → Ended tokens ∧
      (Lexer.readText 1 0 program.toList).gist = ((body tokens).map content, none) := by
    intro tokens htokens
    obtain ⟨hnone, rfl⟩ := tokenize_eq_ok_iff.mp htokens
    refine ⟨(tiling_body htokens).1, ?_⟩
    rw [body_append (Lexer.tiling_readLines hnone).isFinish_eq_false rfl, Reading.gist, ← hread, hnone]
    rfl
  constructor
  · rintro ⟨tokens, htokens, _, rfl⟩
    exact Lexer.yields_of_gist (hbody tokens htokens).2
  · intro h
    have hnone : (Lexer.readLines 1 (lines program.toList)).offence = none := by
      have hoffence := congrArg Prod.snd (h 1 0)
      rwa [← hread, Reading.gist, Option.map_eq_none_iff] at hoffence
    have htokens := tokenize_eq_ok_iff.mpr ⟨hnone, rfl⟩
    obtain ⟨hended, hgist⟩ := hbody _ htokens
    exact ⟨_, htokens, hended, congrArg Prod.fst (hgist.symm.trans (h 1 0))⟩

end ArrayExpr
