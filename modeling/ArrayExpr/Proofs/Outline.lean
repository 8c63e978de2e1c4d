import Mathlib.Data.List.Forall2
import ArrayExpr.Proofs.RoundTrip
import ArrayExpr.Proofs.Text.OneLine
import ArrayExpr.Proofs.Tree.Drawing

/-!
# What an outline tells of a tree

The lines of an outline can be told apart, since a label holds only characters that can be shown, and a line feed cannot.
So trees have the same outline exactly if they look alike (`Tree.outline_eq_iff`). What the outline does not tell is the
kind of an operator or bracket. If these are spelled as their kinds say, then the text tells it
(`Tree.same_iff_looksLike`), and trees of programs have the same outline exactly if they are the same
(`outline_faithful`).
-/

namespace ArrayExpr

theorem Text.intercalate_lineFeed_inj {rows rows' : List String} (hne : rows ≠ []) (hne' : rows' ≠ [])
    (hrows : ∀ row ∈ rows, '\n' ∉ row.toList) (hrows' : ∀ row ∈ rows', '\n' ∉ row.toList)
    (h : "\n".intercalate rows = "\n".intercalate rows') : rows = rows' := by
  refine List.map_injective_iff.mpr (fun _ _ => String.toList_injective) ?_
  rw [← splitOn_intercalate hne hrows, ← splitOn_intercalate hne' hrows', h]

namespace Tree

theorem isPrintable_of_mem_outlineLines {t : Tree} {line : String} (h : line ∈ t.outlineLines) :
    ∀ c ∈ line.toList, Text.isPrintable c = true := by
  rw [outlineLines_eq] at h
  obtain ⟨path, isLast, part, -, rfl⟩ := exists_of_mem_drawing h
  rw [String.toList_ofList]
  exact isPrintable_of_mem_lineAt (fun _ => part.isPrintable_of_mem_label) path isLast

theorem lineFeed_notMem_outlineLines {t : Tree} {line : String} (h : line ∈ t.outlineLines) : '\n' ∉ line.toList :=
  fun hfeed => absurd (isPrintable_of_mem_outlineLines h _ hfeed) (by decide +kernel)

theorem outlineLines_ne_nil (t : Tree) : t.outlineLines ≠ [] := by
  rw [outlineLines_eq, drawing_eq]
  exact List.cons_ne_nil _ _

/-- Trees have the same outline exactly if they look alike. -/
theorem outline_eq_iff {t u : Tree} : t.outline = u.outline ↔ t.LooksLike u := by
  rw [← drawing_eq_iff [] true, ← outlineLines_eq, ← outlineLines_eq]
  constructor
  · exact Text.intercalate_lineFeed_inj t.outlineLines_ne_nil u.outlineLines_ne_nil
      (fun _ => lineFeed_notMem_outlineLines) (fun _ => lineFeed_notMem_outlineLines)
  · intro h
    rw [outline, outline, h]

/-! ## Well-spelled trees -/

theorem sameAll_iff_forall₂ {R : Tree → Tree → Prop} : ∀ {ts us : List Tree},
    (∀ t ∈ ts, ∀ u ∈ us, t.same u = true ↔ R t u) → (sameAll ts us = true ↔ List.Forall₂ R ts us)
  | [], [], _ | [], _ :: _, _ | _ :: _, [], _ => by simp [sameAll]
  | t :: ts, u :: us, h => by
    rw [sameAll, Bool.and_eq_true, List.forall₂_cons, h t List.mem_cons_self u List.mem_cons_self,
      sameAll_iff_forall₂ fun t' ht' u' hu' => h t' (List.mem_cons_of_mem t ht') u' (List.mem_cons_of_mem u hu')]

theorem WellSpelled.of_mem_children {rule : Nonterminal} {children : List Tree} {span : Option Span} {child : Tree}
    (h : (node rule children span).WellSpelled) (hchild : child ∈ children) : child.WellSpelled :=
  fun role token place hleaf => h role token place (mem_walk_node.mpr (Or.inr ⟨child, hchild, hleaf⟩))

/-- Well-spelled trees are the same exactly if they look alike. -/
theorem same_iff_looksLike {t u : Tree} (ht : t.WellSpelled) (hu : u.WellSpelled) : t.same u = true ↔ t.LooksLike u := by
  induction t generalizing u with
  | node rule children span ih =>
    cases u with
    | node rule' children' span' =>
      rw [same, Bool.and_eq_true, beq_iff_eq, sameAll_iff_forall₂ fun child hchild child' hchild' =>
        ih child hchild (ht.of_mem_children hchild) (hu.of_mem_children hchild')]
      constructor
      · rintro ⟨rfl, hchildren⟩
        exact .node hchildren
      · rintro ⟨hchildren⟩
        exact ⟨rfl, hchildren⟩
    | leaf role token span' => exact ⟨fun h => by simp [same] at h, fun h => by cases h⟩
  | leaf role token span =>
    cases u with
    | node rule children span' => exact ⟨fun h => by simp [same] at h, fun h => by cases h⟩
    | leaf role' token' span' =>
      have hadmits := ht role token span (mem_walk_self _)
      have hadmits' := hu role' token' span' (mem_walk_self _)
      rw [same, Bool.and_eq_true, beq_iff_eq, Token.same, beq_iff_eq]
      constructor
      · rintro ⟨rfl, hcontent⟩
        cases role with
        | identifier => exact .identifier hcontent
        | literal => exact .literal (congrArg Prod.fst hcontent)
      · rintro (_ | hcontent | htext)
        · exact ⟨rfl, hcontent⟩
        · -- the text of an operator or bracket is the spelling of its kind
          have hkind : token.kind = token'.kind := Kind.spelling_injective (hadmits.2 ▸ hadmits'.2 ▸ htext)
          exact ⟨rfl, Prod.ext htext hkind⟩

end Tree

theorem wellSpelled_of_analyze {program : String} {limit : Nat} {t : Tree} (h : analyze program limit = .ok t) :
    t.WellSpelled :=
  (derivation_of_analyze h).1.wellSpelled_iff.mpr (derivation_of_analyze h).2.1

/-- **An outline tells the tree.** Two trees have the same outline exactly if they have the same shape, with the same rule
at every node, the same text and kind at every name, and the same text at every operator or bracket. Two trees of programs
have the same outline exactly if they are the same. -/
theorem outline_faithful (limit : Nat) :
    (∀ t u : Tree, t.outline = u.outline ↔ t.LooksLike u) ∧
    ∀ (p q : String) (t u : Tree), analyze p limit = .ok t → analyze q limit = .ok u →
      (t.outline = u.outline ↔ t.same u = true) := by
  refine ⟨fun t u => Tree.outline_eq_iff, fun p q t u hp hq => ?_⟩
  rw [Tree.outline_eq_iff, Tree.same_iff_looksLike (wellSpelled_of_analyze hp) (wellSpelled_of_analyze hq)]

/-- Spaces do not show in an outline, but parentheses do. -/
theorem outline_of_sums : ∃ t u v : Tree, analyze "a+b" = .ok t ∧ analyze "a + b" = .ok u ∧ analyze "(a)+b" = .ok v ∧
    t.outline = u.outline ∧ t.outline ≠ v.outline := by
  have hsame : ((analyze "a+b").toOption.map fun t => (analyze "a + b").toOption.map fun u =>
      (analyze "(a)+b").toOption.map fun v => (t.same u, t.same v)) = some (some (some (true, false))) := by
    decide +kernel
  obtain ⟨t, ht, hsame⟩ := exists_ok_of_toOption_map hsame
  obtain ⟨u, hu, hsame⟩ := exists_ok_of_toOption_map hsame
  obtain ⟨v, hv, hsame⟩ := exists_ok_of_toOption_map hsame
  obtain ⟨htu, htv⟩ := Prod.mk.inj hsame
  refine ⟨t, u, v, ht, hu, hv, ((outline_faithful nestingLimit).2 _ _ t u ht hu).mpr htu, fun h => ?_⟩
  rw [((outline_faithful nestingLimit).2 _ _ t v ht hv).mp h] at htv
  cases htv

end ArrayExpr
