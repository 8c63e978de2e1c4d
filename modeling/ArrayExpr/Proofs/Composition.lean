import ArrayExpr.Proofs.Grammar.Frontier
import ArrayExpr.Proofs.RoundTrip
import ArrayExpr.Proofs.Token.Concatenation

/-!
# Programs made of programs

A program has a tree exactly if the tree is a derivation tree of an expression, the program yields the contents of
its leaves, and its groups do not nest too deep (`hasTree_iff`). So to know the tree of a program that is put together
from others, it is enough to derive a tree from theirs over all their leaves. A sum takes the terms of both
(`Derivation.sum`); a product joins the last term of the one to the first term of the other, since multiplication binds
closer (`Derivation.product`); brackets make a factor of the whole (`Derivation.parentheses_around`,
`Derivation.access_around`). Thus `analyze_composition`.
-/

namespace ArrayExpr

open Token

/-! ## The tree of a program -/

/-- The program has the tree, places apart, if so many groups may be open at once. -/
def HasTree (limit : Nat) (program : String) (t : Tree) : Prop :=
  ∃ u, analyze program limit = .ok u ∧ u.same t = true

/-- **What it takes to have a tree**: a derivation tree of an expression, over leaves whose contents the program yields,
with no more groups open at once than may be. -/
theorem hasTree_iff {limit : Nat} {program : String} {t : Tree} : HasTree limit program t ↔ Derivation .expression t ∧
    Lexer.Yields program.toList (t.leaves.map content) ∧ nesting t.leaves ≤ limit := by
  constructor
  · rintro ⟨u, hu, hsame⟩
    obtain ⟨tokens, htokens, hparse⟩ := analyze_eq_ok_iff.mp hu
    obtain ⟨hd, hleaves, hnesting, _⟩ := derivation_of_parse hparse
    have hcontent : (body tokens).map content = t.leaves.map content :=
      hleaves ▸ Tree.content_leaves_of_same hsame
    refine ⟨hd.of_same hsame, ?_, nesting_congr hcontent ▸ hnesting⟩
    exact tokenize_ok_iff_yields.mp ⟨tokens, htokens, (tiling_body htokens).1, hcontent⟩
  · rintro ⟨hd, hyields, hnesting⟩
    obtain ⟨tokens, htokens, hended, hcontent⟩ := tokenize_ok_iff_yields.mpr hyields
    obtain ⟨u, hparse, hsame⟩ :=
      exists_parse_of_derivation hended hd hcontent.symm (nesting_congr hcontent ▸ hnesting) program
    exact ⟨u, analyze_eq_ok_iff.mpr ⟨tokens, htokens, hparse⟩, hsame⟩

/-! ## Alternations -/

namespace Alternation

variable {P : Tree → Prop} {operators : List Kind} {parts others : List Tree}

theorem append {operator : Token} {span : Span} (h : Alternation P operators parts)
    (hoperator : operator.kind ∈ operators) (h' : Alternation P operators others) :
    Alternation P operators (parts ++ .leaf .literal operator span :: others) := by
  induction h with
  | last hoperand => exact .link hoperand hoperator h'
  | link hoperand hop _ ih => exact .link hoperand hop ih

theorem exists_first (h : Alternation P operators parts) : ∃ first rest, parts = first :: rest ∧ P first ∧
    ∀ operand, P operand → Alternation P operators (operand :: rest) := by
  cases h with
  | last hoperand => exact ⟨_, [], rfl, hoperand, fun _ => .last⟩
  | link hoperand hop hothers => exact ⟨_, _, rfl, hoperand, fun _ h => .link h hop hothers⟩

theorem exists_last (h : Alternation P operators parts) : ∃ front last, parts = front ++ [last] ∧ P last ∧
    ∀ others, Alternation P operators others → Alternation P operators (front ++ others) := by
  induction h with
  | last hoperand => exact ⟨[], _, rfl, hoperand, fun _ => id⟩
  | link hoperand hop _ ih =>
    obtain ⟨front, last, rfl, hlast, hgoes⟩ := ih
    exact ⟨_ :: _ :: front, last, rfl, hlast, fun others h => .link hoperand hop (hgoes others h)⟩

end Alternation

/-! ## Derivations from derivations -/

namespace Derivation

variable {rule : Nonterminal} {t u : Tree}

theorem leaves_eq (h : Derivation rule t) : t.leaves = t.children.flatMap Tree.leaves := by
  cases h <;> exact Tree.leaves_node ..

theorem alternation_expression (h : Derivation .expression t) :
    Alternation (Derivation .term) [.plus] t.children := by
  cases h with
  | expression hparts => exact hparts

theorem alternation_term (h : Derivation .term t) : Alternation (Derivation .factor) [.star, .slash] t.children := by
  cases h with
  | term hparts => exact hparts

/-- The terms of two expressions, with a plus between them, are an expression. -/
theorem sum (ht : Derivation .expression t) (hu : Derivation .expression u) (operator : Token)
    (h : operator.kind = .plus) :
    Derivation .expression (.branch .expression (t.children ++ .literal operator :: u.children)) :=
  .expression (ht.alternation_expression.append (h ▸ List.mem_cons_self) hu.alternation_expression)

/-- The last term of an expression and the first one of another, with the operator between them, are one term of the
terms of both. -/
theorem product (ht : Derivation .expression t) (hu : Derivation .expression u) (operator : Token)
    (h : operator.kind ∈ [Kind.star, .slash]) : ∃ front last first rest, t.children = front ++ [last] ∧
      u.children = first :: rest ∧ Derivation .term last ∧ Derivation .term first ∧
      Derivation .expression (.branch .expression
        (front ++ .branch .term (last.children ++ .literal operator :: first.children) :: rest)) := by
  obtain ⟨front, last, hfront, hlast, hgoes⟩ := ht.alternation_expression.exists_last
  obtain ⟨first, rest, hrest, hfirst, hbegins⟩ := hu.alternation_expression.exists_first
  have hterm : Derivation .term (.branch .term (last.children ++ .literal operator :: first.children)) :=
    .term (hlast.alternation_term.append h hfirst.alternation_term)
  exact ⟨front, last, first, rest, hfront, hrest, hlast, hfirst, .expression (hgoes _ (hbegins _ hterm))⟩

theorem of_factor (h : Derivation .factor t) :
    Derivation .expression (.branch .expression [.branch .term [t]]) :=
  .expression (.last (.term (.last h)))

theorem parentheses_around (h : Derivation .expression t) {opening closing : Token} (ho : opening.kind = .openRound)
    (hc : closing.kind = .closeRound) :
    Derivation .factor (.branch .factor [.literal opening, t, .literal closing]) :=
  .parentheses h (.intro ho hc)

theorem access_around (h : Derivation .expression t) {name opening closing : Token} (hn : name.kind = .identifier)
    (ho : opening.kind = .openSquare) (hc : closing.kind = .closeSquare) :
    Derivation .factor (.branch .factor [.identifier name, .literal opening, t, .literal closing]) :=
  .access hn h (.intro ho hc)

end Derivation

/-! ## Leaves of what is put together -/

section Leaves

variable {rule rule' : Nonterminal} {t u : Tree} {operator : Token}

@[simp] theorem Tree.leaves_branch (rule : Nonterminal) (children : List Tree) :
    (Tree.branch rule children).leaves = children.flatMap Tree.leaves := leaves_node ..

theorem Derivation.flatMap_leaves_joined (ht : Derivation rule t) (hu : Derivation rule' u) :
    (t.children ++ .literal operator :: u.children).flatMap Tree.leaves = t.leaves ++ operator :: u.leaves := by
  rw [List.flatMap_append, List.flatMap_cons, Tree.leaves_literal, ← ht.leaves_eq, ← hu.leaves_eq]
  rfl

/-- Over a product stand the leaves of both sides. -/
theorem Derivation.flatMap_leaves_product {last first : Tree} {front rest : List Tree}
    (ht : Derivation .expression t) (hu : Derivation .expression u) (hfront : t.children = front ++ [last])
    (hrest : u.children = first :: rest) (hlast : Derivation .term last) (hfirst : Derivation .term first) :
    (front ++ .branch .term (last.children ++ .literal operator :: first.children) :: rest).flatMap Tree.leaves =
      t.leaves ++ operator :: u.leaves := by
  rw [ht.leaves_eq, hu.leaves_eq, hfront, hrest]
  simp only [List.flatMap_append, List.flatMap_cons, List.flatMap_nil, Tree.leaves_branch,
    hlast.flatMap_leaves_joined hfirst, List.append_assoc, List.cons_append, List.append_nil]

end Leaves

/-! ## Programs from programs -/

namespace HasTree

variable {limit : Nat} {a b : String} {t u v : Tree}

/-- Two programs with an operator between them have any tree that is derived over the leaves of both. -/
theorem joined (symbol : Kind) (hsymbol : symbol ∈ [Kind.plus, .star, .slash]) (ha : HasTree limit a t) (hb : HasTree limit b u)
    (hv : Derivation .expression v) (hleaves : v.leaves = t.leaves ++ ofKind symbol :: u.leaves) :
    HasTree limit (a ++ symbol.spelling ++ b) v := by
  obtain ⟨hd, hyields, hnesting⟩ := hasTree_iff.mp ha
  obtain ⟨hd', hyields', hnesting'⟩ := hasTree_iff.mp hb
  have hflat : (ofKind symbol).IsFlat := isFlat_of_kind (List.mem_cons_of_mem _ hsymbol)
  have hlexeme : symbol.hasLexeme = true := by
    simp only [List.mem_cons, List.not_mem_nil, or_false] at hsymbol
    rcases hsymbol with rfl | rfl | rfl <;> rfl
  refine hasTree_iff.mpr ⟨hv, ?_, ?_⟩
  · rw [hleaves, List.map_append, List.map_cons, String.toList_append, String.toList_append, List.append_assoc]
    exact hyields.append_symbol hlexeme hyields'
  · rw [hleaves, hd.balanced.nesting_append, hflat.nesting_cons]
    exact Nat.max_le.mpr ⟨hnesting, hnesting'⟩

/-- Brackets around a program yield its contents between theirs, which nest one deeper. -/
theorem yields_enclosed (ha : HasTree limit a t) (bracket : Bracket) :
    Lexer.Yields (bracket.opening.spelling.toList ++ (a.toList ++ bracket.closing.spelling.toList))
      ((ofKind bracket.opening :: (t.leaves ++ [ofKind bracket.closing])).map content) ∧
    nesting (ofKind bracket.opening :: (t.leaves ++ [ofKind bracket.closing])) = nesting t.leaves + 1 := by
  obtain ⟨hd, hyields, _⟩ := hasTree_iff.mp ha
  obtain ⟨hopening, hclosing⟩ := bracket.hasLexeme
  have hinner := hyields.append_symbol hclosing Lexer.Yields.nil
  rw [List.append_nil] at hinner
  refine ⟨?_, hd.balanced.nesting_group (openBehind_opening rfl) (openBehind_closing rfl)⟩
  rw [List.map_cons, List.map_append]
  exact hinner.symbol hopening

/-- A sum of two programs has the terms of both. -/
theorem sum (ha : HasTree limit a t) (hb : HasTree limit b u) :
    HasTree limit (a ++ "+" ++ b) (.branch .expression (t.children ++ .literal (ofKind .plus) :: u.children)) := by
  obtain ⟨hd, _⟩ := hasTree_iff.mp ha
  obtain ⟨hd', _⟩ := hasTree_iff.mp hb
  refine joined .plus (by decide) ha hb (hd.sum hd' (ofKind .plus) rfl) ?_
  rw [Tree.leaves_branch, hd.flatMap_leaves_joined hd']

/-- A product of two programs joins the last term of the one to the first term of the other. -/
theorem product (ha : HasTree limit a t) (hb : HasTree limit b u) {symbol : Kind} (hsymbol : symbol ∈ [Kind.star, .slash]) :
    ∃ front last first rest, t.children = front ++ [last] ∧ u.children = first :: rest ∧
      HasTree limit (a ++ symbol.spelling ++ b) (.branch .expression
        (front ++ .branch .term (last.children ++ .literal (ofKind symbol) :: first.children) :: rest)) := by
  obtain ⟨hd, _⟩ := hasTree_iff.mp ha
  obtain ⟨hd', _⟩ := hasTree_iff.mp hb
  obtain ⟨front, last, first, rest, hfront, hrest, hlast, hfirst, hv⟩ :=
    hd.product hd' (ofKind symbol) hsymbol
  refine ⟨front, last, first, rest, hfront, hrest, joined symbol (List.mem_cons_of_mem _ hsymbol) ha hb hv ?_⟩
  rw [Tree.leaves_branch, hd.flatMap_leaves_product hd' hfront hrest hlast hfirst]

/-- A program in parentheses is one factor. -/
theorem parentheses (ha : HasTree limit a t) (hnesting : nesting t.leaves < limit) :
    HasTree limit ("(" ++ a ++ ")") (.branch .expression [.branch .term [.branch .factor
      [.literal (ofKind .openRound), t, .literal (ofKind .closeRound)]]]) := by
  obtain ⟨hd, _⟩ := hasTree_iff.mp ha
  obtain ⟨hyields, hdeeper⟩ := ha.yields_enclosed .round
  have hleaves : (Tree.branch .expression [.branch .term [.branch .factor
      [.literal (ofKind .openRound), t, .literal (ofKind .closeRound)]]]).leaves =
        ofKind .openRound :: (t.leaves ++ [ofKind .closeRound]) := by simp
  refine hasTree_iff.mpr ⟨.of_factor (hd.parentheses_around rfl rfl), ?_, ?_⟩
  · rw [hleaves, String.toList_append, String.toList_append, List.append_assoc]
    exact hyields
  · rw [hleaves]
    exact Nat.le_trans (Nat.le_of_eq hdeeper) hnesting

/-- A name with a program in square brackets is one factor. -/
theorem access (ha : HasTree limit a t) (hnesting : nesting t.leaves < limit) {name : String}
    (hname : Lexeme .identifier name.toList) :
    HasTree limit (name ++ "[" ++ a ++ "]") (.branch .expression [.branch .term [.branch .factor
      [.identifier ⟨name, .identifier, .nowhere⟩, .literal (ofKind .openSquare), t,
        .literal (ofKind .closeSquare)]]]) := by
  obtain ⟨hd, _⟩ := hasTree_iff.mp ha
  obtain ⟨hyields, hdeeper⟩ := ha.yields_enclosed .square
  have hflat : (⟨name, .identifier, .nowhere⟩ : Token).IsFlat := isFlat_of_name rfl
  have hleaves : (Tree.branch .expression [.branch .term [.branch .factor
      [.identifier ⟨name, .identifier, .nowhere⟩, .literal (ofKind .openSquare), t,
        .literal (ofKind .closeSquare)]]]).leaves =
      ⟨name, .identifier, .nowhere⟩ :: ofKind .openSquare :: (t.leaves ++ [ofKind .closeSquare]) := by simp
  refine hasTree_iff.mpr ⟨.of_factor (hd.access_around rfl rfl rfl), ?_, ?_⟩
  · have hwhole := Lexer.Yields.lexeme hname (endsBefore_symbol rfl _ .identifier) hyields
    rw [String.ofList_toList] at hwhole
    rw [hleaves, String.toList_append, String.toList_append, String.toList_append, List.append_assoc,
      List.append_assoc]
    exact hwhole
  · rw [hleaves, hflat.nesting_cons]
    exact Nat.le_trans (Nat.le_of_eq hdeeper) hnesting

end HasTree

/-- **Trees of composed programs.** If two programs have trees, then their sum has the children of both with the plus
between them; their product has them too, but for the last term of the one and the first term of the other, which become
one term with the operator between their factors; a program in parentheses, or in square brackets behind a name, is one
factor, as long as its groups do not nest too deep. -/
theorem analyze_composition {limit : Nat} {a b : String} {A B : Tree} (ha : analyze a limit = .ok A)
    (hb : analyze b limit = .ok B) :
    HasTree limit (a ++ "+" ++ b) (.branch .expression (A.children ++ .literal (ofKind .plus) :: B.children)) ∧
    (∀ symbol ∈ [Kind.star, .slash], ∃ front last first rest,
      A.children = front ++ [last] ∧ B.children = first :: rest ∧
      HasTree limit (a ++ symbol.spelling ++ b) (.branch .expression
        (front ++ .branch .term (last.children ++ .literal (ofKind symbol) :: first.children) :: rest))) ∧
    (nesting A.leaves < limit →
      HasTree limit ("(" ++ a ++ ")") (.branch .expression [.branch .term [.branch .factor
        [.literal (ofKind .openRound), A, .literal (ofKind .closeRound)]]]) ∧
      ∀ name : String, Lexeme .identifier name.toList →
        HasTree limit (name ++ "[" ++ a ++ "]") (.branch .expression [.branch .term [.branch .factor
          [.identifier ⟨name, .identifier, .nowhere⟩, .literal (ofKind .openSquare), A,
            .literal (ofKind .closeSquare)]]])) := by
  have hA : HasTree limit a A := ⟨A, ha, A.same_refl⟩
  have hB : HasTree limit b B := ⟨B, hb, B.same_refl⟩
  exact ⟨hA.sum hB, fun symbol hsymbol => hA.product hB hsymbol,
    fun hnesting => ⟨hA.parentheses hnesting, fun name hname => hA.access hnesting hname⟩⟩

/-- Two sums of which one is broken over two lines: their product is one sum, in which the two inner names are
multiplied. -/
theorem composition_of_two_sums : ∃ A B, analyze "a + b" = .ok A ∧ analyze "c\n+ d" = .ok B ∧
    HasTree nestingLimit ("a + b" ++ "+" ++ "c\n+ d")
      (.branch .expression (A.children ++ .literal (ofKind .plus) :: B.children)) ∧
    (∃ front last first rest, A.children = front ++ [last] ∧ B.children = first :: rest ∧
      HasTree nestingLimit ("a + b" ++ "*" ++ "c\n+ d") (.branch .expression
        (front ++ .branch .term (last.children ++ .literal (ofKind .star) :: first.children) :: rest))) ∧
    HasTree nestingLimit ("(" ++ "a + b" ++ ")") (.branch .expression [.branch .term [.branch .factor
      [.literal (ofKind .openRound), A, .literal (ofKind .closeRound)]]]) ∧
    HasTree nestingLimit ("x1" ++ "[" ++ "a + b" ++ "]") (.branch .expression [.branch .term [.branch .factor
      [.identifier ⟨"x1", .identifier, .nowhere⟩, .literal (ofKind .openSquare), A,
        .literal (ofKind .closeSquare)]]]) := by
  have hleft : (analyze "a + b").toOption.map (fun t => decide (nesting t.leaves < nestingLimit)) = some true := by
    decide +kernel
  have hright : (analyze "c\n+ d").toOption.map (fun _ => ()) = some () := by decide +kernel
  obtain ⟨A, hA, hnesting⟩ := exists_ok_of_toOption_map hleft
  obtain ⟨B, hB, _⟩ := exists_ok_of_toOption_map hright
  obtain ⟨hsum, hproduct, henclosed⟩ := analyze_composition hA hB
  obtain ⟨hparentheses, haccess⟩ := henclosed (of_decide_eq_true hnesting)
  have hletter : Text.isLetter 'x' = true := by decide +kernel
  have hdigit : Text.isDigit '1' = true := by decide +kernel
  have hchars : Lexeme .identifier ['x', '1'] :=
    .identifier hletter fun d hd => Or.inr (List.mem_singleton.mp hd ▸ hdigit)
  have hname : Lexeme .identifier "x1".toList := hchars
  exact ⟨A, B, hA, hB, hsum, hproduct .star (by decide), hparentheses, haccess "x1" hname⟩

end ArrayExpr
