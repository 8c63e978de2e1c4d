import ArrayExpr.Proofs.Grammar.Recognition
import ArrayExpr.Proofs.Token.Spelling

/-!
# Printing a tree and reading it again

A tree is `WellSpelled` if its names are identifiers and its other leaves are operators and brackets with their own
spellings. The leaves of a derivation tree have the kinds that their roles require (`Derivation.suits_of_leaf`), so that
a derivation tree is well spelled exactly if its leaves have lexemes (`Derivation.wellSpelled_iff`). What is read of a
program has (`derivation_of_analyze`), and its source is read to a tree of the same leaves. Hence the trees that
survive printing are the well-spelled derivation trees within the nesting limit (`analyze_source_iff`).
-/

namespace ArrayExpr

open Token

/-- A token that may stand in a leaf of the role: a name is an identifier, and an operator or bracket has the spelling
of its kind. -/
def Role.Admits : Role → Token → Prop
  | .identifier, t => t.kind = .identifier ∧ Lexeme .identifier t.text.toList
  | .literal, t => t.kind.hasLexeme = true ∧ t.text = t.kind.spelling

/-- All leaves of the tree hold tokens that may stand in them. -/
def Tree.WellSpelled (t : Tree) : Prop := ∀ role token span, leaf role token span ∈ t.walk → role.Admits token

/-! ## Leaves of derivation trees -/

/-- The leaves of a derivation tree hold tokens of kinds that suit their roles. -/
theorem Derivation.suits_of_leaf {role : Role} {token : Token} {span : Span} {rule : Nonterminal} {t : Tree}
    (h : Derivation rule t) (hleaf : .leaf role token span ∈ t.walk) : role.Suits token.kind := by
  induction t generalizing rule with
  | leaf => cases h
  | node rule' parts place ih =>
    rcases Tree.mem_walk_node.mp hleaf with hself | ⟨part, hpart, hbelow⟩
    · cases hself
    · rcases h.children_derived.2 part hpart with ⟨_, hd⟩ | ⟨_, _, _, rfl, hsuits⟩
      · exact ih part hpart hd hbelow
      · rw [Tree.walk_leaf, List.mem_singleton] at hbelow
        cases hbelow
        exact hsuits

/-- A derivation tree is well spelled exactly if its leaves have lexemes. -/
theorem Derivation.wellSpelled_iff {rule : Nonterminal} {t : Tree} (h : Derivation rule t) :
    t.WellSpelled ↔ Lexical t.leaves := by
  constructor
  · intro hspelled token htoken
    obtain ⟨role, span, hleaf⟩ := Tree.mem_leaves_iff.mp htoken
    have hadmits := hspelled role token span hleaf
    cases role with
    | identifier => exact hadmits.1 ▸ hadmits.2
    | literal => exact hadmits.2 ▸ .fixed hadmits.1
  · intro hlexical role token span hleaf
    have hlexeme := hlexical token (Tree.mem_leaves_iff.mpr ⟨role, span, hleaf⟩)
    have hsuits := h.suits_of_leaf hleaf
    cases role with
    | identifier => exact ⟨hsuits, hsuits ▸ hlexeme⟩
    | literal => exact ⟨hsuits, String.toList_injective (hlexeme.eq_spelling hsuits)⟩

/-! ## Reading the source of a tree -/

theorem derivation_of_analyze {program : String} {limit : Nat} {t : Tree} (h : analyze program limit = .ok t) :
    Derivation .expression t ∧ Lexical t.leaves ∧ nesting t.leaves ≤ limit := by
  obtain ⟨tokens, htokens, hparse⟩ := analyze_eq_ok_iff.mp h
  obtain ⟨hd, hleaves, hnesting, _⟩ := derivation_of_parse hparse
  rw [hleaves]
  exact ⟨hd, (tiling_body htokens).2.lexeme, hnesting⟩

/-- The source of a derivation tree whose leaves have lexemes is read to the same tree. -/
theorem exists_analyze_source {t : Tree} (hd : Derivation .expression t) (hlexical : Lexical t.leaves) {limit : Nat}
    (hnesting : nesting t.leaves ≤ limit) : ∃ u, analyze t.source limit = .ok u ∧ u.same t = true := by
  obtain ⟨tokens, htokens, hended, hbody⟩ := tokenize_spell hlexical
  obtain ⟨u, hparse, hsame⟩ :=
    exists_parse_of_derivation hended hd hbody.symm (nesting_congr hbody ▸ hnesting) t.source
  exact ⟨u, analyze_eq_ok_iff.mpr ⟨tokens, htokens, hparse⟩, hsame⟩

theorem Tree.source_eq_of_same {t u : Tree} (h : t.same u = true) : t.source = u.source := by
  rw [source, source, spell_congr (content_leaves_of_same h)]

/-- **The trees that survive printing.** The source of a tree is read to the same tree exactly if the tree is a
well-spelled derivation tree of an expression whose groups do not nest too deep, and what is read then has the same
source again. All trees of programs survive. -/
theorem analyze_source_iff (limit : Nat) :
    (∀ t : Tree, (∃ u, analyze t.source limit = .ok u ∧ u.same t = true) ↔
      Derivation .expression t ∧ t.WellSpelled ∧ nesting t.leaves ≤ limit) ∧
    (∀ t u : Tree, analyze t.source limit = .ok u → u.same t = true → u.source = t.source) ∧
    ∀ (program : String) (t : Tree), analyze program limit = .ok t →
      ∃ u, analyze t.source limit = .ok u ∧ u.same t = true ∧ u.source = t.source := by
  refine ⟨fun t => ⟨?_, ?_⟩, fun t u _ hsame => Tree.source_eq_of_same hsame, fun program t h => ?_⟩
  · rintro ⟨u, hu, hsame⟩
    obtain ⟨hd, hlexical, hnesting⟩ := derivation_of_analyze hu
    have hcontent := Tree.content_leaves_of_same hsame
    have hdt := hd.of_same hsame
    exact ⟨hdt, hdt.wellSpelled_iff.mpr (hlexical.congr hcontent.symm), nesting_congr hcontent ▸ hnesting⟩
  · rintro ⟨hd, hspelled, hnesting⟩
    exact exists_analyze_source hd (hd.wellSpelled_iff.mp hspelled) hnesting
  · obtain ⟨hd, hlexical, hnesting⟩ := derivation_of_analyze h
    obtain ⟨u, hu, hsame⟩ := exists_analyze_source hd hlexical hnesting
    exact ⟨u, hu, hsame, Tree.source_eq_of_same hsame⟩

end ArrayExpr
