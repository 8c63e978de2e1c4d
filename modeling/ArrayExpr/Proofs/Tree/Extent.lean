import ArrayExpr.Proofs.Grammar.Recognition
import ArrayExpr.Proofs.Token.Scanning
import Mathlib.Data.List.Basic

/-!
# Where the parts of a tree stand

The `extent` of a part reaches from its first leaf to its last one. The span that a node is given is its extent only up
to the end column: where the first and the last child of a node begin on the same line, the span takes the greatest of
the two end columns, and the node overhangs if the first child ends further right than the last one, which then ends on
a later line (`Tree.OverhangsTo`). The last child hands its end column on, so an overhang shows in all parts that end
with the node (`Tree.EndsIn`). By induction over trees that are built from their tokens (`Tree.Grown`), the end column
of a span is the greatest of that of the extent and those of the overhangs (`Tree.Placed`, `Tree.Grown.placed`). The
trees of programs are such trees (`span_eq_extent_iff`).
-/

namespace ArrayExpr

open Token

/-! ## Extents of tokens -/

namespace Token

/-- From the first of some tokens to the last one. -/
def extent (tokens : List Token) : Option Span :=
  match tokens.head?, tokens.getLast? with
  | some first, some last => some (first.span.upTo last.span)
  | _, _ => none

/-- Tokens on lines, in their order. -/
structure Orderly (tokens : List Token) : Prop where
  line : ∀ t ∈ tokens, t.span.startLine = t.span.endLine ∧ t.span.startCol < t.span.endCol
  ordered : tokens.Pairwise Before

variable {ts us : List Token}

theorem Orderly.of_infix (h : Orderly us) (hts : ts <:+: us) : Orderly ts :=
  ⟨fun t ht => h.line t (hts.subset ht), h.ordered.sublist hts.sublist⟩

theorem extent_eq_some_iff {e : Span} : extent ts = some e ↔
    ∃ first ∈ ts.head?, ∃ last ∈ ts.getLast?, e = first.span.upTo last.span := by
  cases ts with
  | nil => simp [extent]
  | cons t ts => simp [extent, List.getLast?_cons, eq_comm]

/-- The extent of orderly tokens begins before it ends. -/
theorem Orderly.forward (h : Orderly ts) {e : Span} (he : extent ts = some e) : e.Forward := by
  obtain ⟨first, hfirst, last, hlast, rfl⟩ := extent_eq_some_iff.mp he
  cases ts with
  | nil => cases hfirst
  | cons t rest =>
    cases hfirst
    have hforward : ∀ u ∈ first :: rest, u.span.Forward := fun u hu => Or.inr (h.line u hu)
    rcases List.mem_cons.mp (List.mem_of_getLast? hlast) with rfl | hmem
    · exact hforward last List.mem_cons_self
    · exact (hforward first List.mem_cons_self).upTo (hforward last (List.mem_cons_of_mem _ hmem))
        ((List.pairwise_cons.mp h.ordered).1 last hmem)

/-- The extent of two pieces reaches from the first one to the second, and the one ends before the other begins. -/
theorem Orderly.extent_append {mid : List Token} (h : Orderly (ts ++ mid ++ us)) {e e' : Span}
    (he : extent ts = some e) (he' : extent us = some e') :
    extent (ts ++ mid ++ us) = some (e.upTo e') ∧ e.Before e' := by
  obtain ⟨first, hfirst, last, hlast, rfl⟩ := extent_eq_some_iff.mp he
  obtain ⟨first', hfirst', last', hlast', rfl⟩ := extent_eq_some_iff.mp he'
  refine ⟨extent_eq_some_iff.mpr ⟨first, ?_, last', ?_, rfl⟩, ?_⟩
  · rw [List.append_assoc, List.head?_append, hfirst]
    rfl
  · rw [List.getLast?_append, hlast']
    rfl
  · exact (List.pairwise_append.mp h.ordered).2.2 last (List.mem_append_left _ (List.mem_of_getLast? hlast)) first'
      (List.mem_of_head? hfirst')

end Token

theorem Tiling.orderly {lines : List (List Char)} {tokens : List Token} (h : Tiling lines tokens) : Orderly tokens where
  line t ht := by
    obtain ⟨hline, _, hcol⟩ := h.span_of_mem ht
    exact ⟨hline.symm, hcol⟩
  ordered := h.ordered

/-! ## Trees built from their tokens -/

namespace Tree

/-- From the first leaf of a tree to the last one. -/
def extent (t : Tree) : Option Span := Token.extent t.leaves

/-- Trees of nodes with children and of leaves, all at the place that they are given when they are built. -/
inductive Grown : Tree → Prop
  | branch {rule : Nonterminal} {children : List Tree} : children ≠ [] → (∀ child ∈ children, Grown child) →
      Grown (branch rule children)
  | leaf {role : Role} {token : Token} : Grown (ofToken role token)

theorem grown_leaf {role : Role} {token : Token} {span : Span}
    (h : (leaf role token span).mapTokens id = leaf role token span) : Grown (leaf role token span) := by
  rw [← h]
  exact .leaf

/-- The parts of a grown tree are grown. -/
theorem Grown.of_mem_walk {t part : Tree} (h : Grown t) (hpart : part ∈ t.walk) : Grown part := by
  induction h with
  | branch hne hchildren ih =>
    rcases mem_walk_node.mp hpart with rfl | ⟨child, hchild, hpart⟩
    · exact .branch hne hchildren
    · exact ih child hchild hpart
  | leaf =>
    rw [ofToken, walk_leaf, List.mem_singleton] at hpart
    rw [hpart]
    exact .leaf

end Tree

/-- Derivation trees that are built anew as they are are grown. -/
theorem Derivation.grown {rule : Nonterminal} {t : Tree} (h : Derivation rule t) (hid : t.mapTokens id = t) :
    t.Grown := by
  induction t generalizing rule with
  | leaf => cases h
  | node rule' parts span ih =>
    have hnode : Tree.branch rule' (parts.map (Tree.mapTokens id)) = .node rule' parts span := by
      rwa [Tree.mapTokens_node] at hid
    obtain ⟨_, hparts, _⟩ := Tree.node.inj hnode
    rw [hparts] at hnode
    rw [← hnode]
    have hchild : ∀ part ∈ parts, part.mapTokens id = part := by
      intro part hpart
      exact List.map_inj_left.mp (hparts.trans (List.map_id parts).symm) part hpart
    obtain ⟨hne, hderived⟩ := h.children_derived
    refine .branch hne fun part hpart => ?_
    rcases hderived part hpart with ⟨_, hd⟩ | ⟨_, _, _, rfl, _⟩
    · exact ih part hpart hd (hchild part hpart)
    · exact Tree.grown_leaf (hchild _ hpart)

/-! ## Overhangs -/

namespace Tree

/-- The first child begins on the line of the last one, and ends in a column further right than the last one does. -/
def OverhangsTo (t : Tree) (col : Int) : Prop :=
  ∃ first ∈ t.children.head?, ∃ last ∈ t.children.getLast?, ∃ e ∈ first.extent, ∃ e' ∈ last.extent,
    e.startLine = e'.startLine ∧ e.endCol = col ∧ e'.endCol < col

/-- The part is the tree, or its last child, or the last child of that one, and so on. -/
inductive EndsIn : Tree → Tree → Prop
  | self (t : Tree) : EndsIn t t
  | last {t child part : Tree} : child ∈ t.children.getLast? → EndsIn child part → EndsIn t part

/-- What the span of a tree is: the extent up to an end column that no overhang exceeds, and that is itself the end
column of the extent or that of an overhang. -/
structure Placed (t : Tree) (s e : Span) : Prop where
  span : t.span = some s
  extent : t.extent = some e
  widens : s.Widens e
  bound : ∀ part col, t.EndsIn part → part.OverhangsTo col → e.endCol < col ∧ col ≤ s.endCol
  attained : s.endCol = e.endCol ∨ ∃ part, t.EndsIn part ∧ part.OverhangsTo s.endCol

/-- The span of a tree is its extent exactly if no part that ends with the tree overhangs. -/
theorem Placed.eq_iff {t : Tree} {s e : Span} (h : Placed t s e) :
    s = e ↔ ∀ part col, t.EndsIn part → ¬ part.OverhangsTo col := by
  constructor
  · rintro rfl part col hends hoverhangs
    obtain ⟨hlt, hle⟩ := h.bound part col hends hoverhangs
    omega
  · intro hnone
    rcases h.attained with hcol | ⟨part, hends, hoverhangs⟩
    · exact h.widens.eq_of_endCol_eq hcol
    · exact absurd hoverhangs (hnone part _ hends)

/-- A leaf is placed at its token. -/
theorem placed_leaf (role : Role) (token : Token) : (ofToken role token).Placed token.span token.span where
  span := rfl
  extent := by
    rw [extent, ofToken, leaves_leaf]
    rfl
  widens := .refl _
  bound := by
    rintro part col hends ⟨first, hfirst, _⟩
    cases hends with
    | self => cases hfirst
    | last hchild _ => cases hchild
  attained := Or.inl rfl

theorem not_overhangsTo_singleton (rule : Nonterminal) (child : Tree) (col : Int) :
    ¬ (branch rule [child]).OverhangsTo col := by
  rintro ⟨first, hfirst, last, hlast, e, he, e', he', _, rfl, hlt⟩
  cases hfirst
  cases hlast
  cases he.symm.trans he'
  exact Int.lt_irrefl _ hlt

/-- A node over one child is placed as the child. -/
theorem Placed.singleton {child : Tree} {s e : Span} (h : child.Placed s e) (rule : Nonterminal) :
    (branch rule [child]).Placed s e where
  span := by
    show Span.cover ([child].filterMap Tree.span) = some s
    rw [List.filterMap_cons_some h.span]
    show some (s.join s) = some s
    rw [Span.join_self]
  extent := by
    rw [Tree.extent, branch, leaves_node, List.flatMap_singleton]
    exact h.extent
  widens := h.widens
  bound := by
    intro part col hends hoverhangs
    cases hends with
    | self => exact absurd hoverhangs (not_overhangsTo_singleton rule child col)
    | last hchild hends =>
      cases hchild
      exact h.bound part col hends hoverhangs
  attained := by
    rcases h.attained with hsame | ⟨part, hends, hoverhangs⟩
    · exact Or.inl hsame
    · exact Or.inr ⟨part, .last rfl hends, hoverhangs⟩

section Several

variable (rule : Nonterminal) {first last : Tree} (mid : List Tree) {s s' e e' : Span}

theorem getLast?_children_branch :
    (branch rule (first :: (mid ++ [last]))).children.getLast? = some last := by
  show (first :: (mid ++ [last])).getLast? = some last
  rw [← List.cons_append, List.getLast?_concat]

theorem span_branch (hfirst : first.span = some s) (hlast : last.span = some s') :
    (branch rule (first :: (mid ++ [last]))).span = some (s.join s') := by
  show Span.cover ((first :: (mid ++ [last])).filterMap Tree.span) = _
  rw [List.filterMap_cons_some hfirst, List.filterMap_append, List.filterMap_cons_some hlast, List.filterMap_nil,
    Span.cover, List.getLastD_eq_getLast?, List.getLast?_concat]
  rfl

theorem overhangsTo_branch_iff (hfirst : first.extent = some e) (hlast : last.extent = some e') (col : Int) :
    (branch rule (first :: (mid ++ [last]))).OverhangsTo col ↔
      e.startLine = e'.startLine ∧ e.endCol = col ∧ e'.endCol < col := by
  rw [OverhangsTo, getLast?_children_branch]
  simp [branch, children, hfirst, hlast]

/-- The parts that end with a node over several children are the node and those that end with its last child. -/
theorem endsIn_branch_iff {part : Tree} : (branch rule (first :: (mid ++ [last]))).EndsIn part ↔
    part = branch rule (first :: (mid ++ [last])) ∨ last.EndsIn part := by
  have hlast : (branch rule (first :: (mid ++ [last]))).children.getLast? = some last :=
    getLast?_children_branch rule mid
  constructor
  · intro h
    cases h with
    | self => exact Or.inl rfl
    | last hchild hends =>
      rw [hlast] at hchild
      cases hchild
      exact Or.inr hends
  · rintro (rfl | hends)
    · exact .self _
    · exact .last hlast hends

/-- A node over several children: an overhang of the node itself is the end column of its first child, and all
others come with the last child. -/
theorem Placed.branch (hfirst : first.Placed s e) (hlast : last.Placed s' e')
    (horderly : Orderly (branch rule (first :: (mid ++ [last]))).leaves) :
    (branch rule (first :: (mid ++ [last]))).Placed (s.join s') (e.upTo e') := by
  have hleaves : (Tree.branch rule (first :: (mid ++ [last]))).leaves =
      first.leaves ++ mid.flatMap leaves ++ last.leaves := by
    simp [Tree.branch]
  rw [hleaves] at horderly
  obtain ⟨hextent, hbefore⟩ := horderly.extent_append hfirst.extent hlast.extent
  have hforward : e.Forward :=
    (horderly.of_infix ⟨[], _, (List.append_assoc _ _ _).symm⟩).forward hfirst.extent
  have hforward' : e'.Forward :=
    (horderly.of_infix ⟨_, [], List.append_nil _⟩).forward hlast.extent
  have hcol := hfirst.widens.endCol_join hlast.widens hforward hbefore
  have hle := hlast.widens.le_endCol
  refine ⟨span_branch rule mid hfirst.span hlast.span, by rw [Tree.extent, hleaves, hextent],
    hfirst.widens.join hlast.widens hforward hforward' hbefore, ?_, ?_⟩
  · intro part col hends hoverhangs
    rw [hcol]
    show e'.endCol < col ∧ _
    rcases (endsIn_branch_iff rule mid).mp hends with rfl | hends
    · obtain ⟨hline, rfl, hlt⟩ := (overhangsTo_branch_iff rule mid hfirst.extent hlast.extent col).mp hoverhangs
      rw [if_pos hline]
      omega
    · obtain ⟨_, _⟩ := hlast.bound part col hends hoverhangs
      split <;> omega
  · rw [hcol]
    show _ = e'.endCol ∨ _
    by_cases hself : e.startLine = e'.startLine ∧ s'.endCol < e.endCol
    · rw [if_pos hself.1, Int.max_eq_left (Int.le_of_lt hself.2)]
      refine Or.inr ⟨_, .self _, ?_⟩
      exact (overhangsTo_branch_iff rule mid hfirst.extent hlast.extent _).mpr ⟨hself.1, rfl, by omega⟩
    · have hkept : (if e.startLine = e'.startLine then max e.endCol s'.endCol else s'.endCol) = s'.endCol := by
        split <;> omega
      rw [hkept]
      rcases hlast.attained with hsame | ⟨part, hends, hoverhangs⟩
      · exact Or.inl hsame
      · exact Or.inr ⟨part, (endsIn_branch_iff rule mid).mpr (Or.inr hends), hoverhangs⟩

end Several

/-- Grown trees over orderly tokens are placed. -/
theorem Grown.placed {t : Tree} (h : Grown t) (horderly : Orderly t.leaves) : ∃ s e, t.Placed s e := by
  induction h with
  | leaf => exact ⟨_, _, placed_leaf _ _⟩
  | @branch rule children hne _ ih =>
    have hchild : ∀ child ∈ children, ∃ s e, child.Placed s e := by
      intro child hmem
      have hwalk : child ∈ (Tree.branch rule children).walk :=
        mem_walk_node.mpr (Or.inr ⟨child, hmem, mem_walk_self child⟩)
      exact ih child hmem (horderly.of_infix (leaves_infix_of_mem_walk hwalk))
    cases children with
    | nil => exact absurd rfl hne
    | cons first rest =>
      obtain ⟨s, e, hfirst⟩ := hchild first List.mem_cons_self
      rcases List.eq_nil_or_concat' rest with rfl | ⟨mid, last, rfl⟩
      · exact ⟨s, e, hfirst.singleton rule⟩
      · obtain ⟨s', e', hlast⟩ := hchild last (List.mem_cons_of_mem _ List.mem_concat_self)
        exact ⟨_, _, hfirst.branch rule mid hlast horderly⟩

end Tree

/-! ## Trees of programs -/

theorem grown_of_analyze {program : String} {limit : Nat} {t : Tree} (h : analyze program limit = .ok t) :
    t.Grown ∧ Orderly t.leaves := by
  obtain ⟨tokens, htokens, hparse⟩ := analyze_eq_ok_iff.mp h
  obtain ⟨hd, hleaves, _, hid⟩ := derivation_of_parse hparse
  exact ⟨hd.grown hid, hleaves ▸ (tiling_body htokens).2.orderly⟩

/-- **The spans of the tree of a program.** The span of a part reaches from the start of its first leaf to the line of
its last one. It is the extent of the part exactly if no part that ends with it overhangs; otherwise it ends in the
greatest column to which one of these overhangs. -/
theorem span_eq_extent_iff {program : String} {limit : Nat} {t part : Tree} (h : analyze program limit = .ok t)
    (hpart : part ∈ t.walk) :
    ∃ s e, part.span = some s ∧ part.extent = some e ∧
      s.startLine = e.startLine ∧ s.endLine = e.endLine ∧ s.startCol = e.startCol ∧ e.endCol ≤ s.endCol ∧
      (s = e ↔ ∀ other col, part.EndsIn other → ¬ other.OverhangsTo col) ∧
      (∀ other col, part.EndsIn other → other.OverhangsTo col → col ≤ s.endCol) ∧
      (s ≠ e → ∃ other, part.EndsIn other ∧ other.OverhangsTo s.endCol) := by
  obtain ⟨hgrown, horderly⟩ := grown_of_analyze h
  obtain ⟨s, e, hplaced⟩ :=
    (hgrown.of_mem_walk hpart).placed (horderly.of_infix (Tree.leaves_infix_of_mem_walk hpart))
  obtain ⟨hstart, hend, hfirst, hle, _⟩ := hplaced.widens
  refine ⟨s, e, hplaced.span, hplaced.extent, hstart, hend, hfirst, hle, hplaced.eq_iff, ?_, ?_⟩
  · exact fun other col hends hoverhangs => (hplaced.bound other col hends hoverhangs).2
  · intro hne
    exact hplaced.attained.resolve_left fun hcol => hne (hplaced.widens.eq_of_endCol_eq hcol)

/-- In this program the group begins on the line of the name and ends further left on the next one, so that the span of
the expression goes too far. -/
theorem overhang_of_broken_group : ∃ t, analyze "abc + (b\n)" = .ok t ∧ t.span = some ⟨1, 2, 0, 3⟩ ∧
    t.extent = some ⟨1, 2, 0, 1⟩ ∧ ∃ part, t.EndsIn part ∧ part.OverhangsTo 3 := by
  have hplaces : (analyze "abc + (b\n)").toOption.map (fun t => (t.span, t.extent)) =
      some (some ⟨1, 2, 0, 3⟩, some ⟨1, 2, 0, 1⟩) := by decide +kernel
  obtain ⟨t, ht, hpair⟩ := Option.map_eq_some_iff.mp hplaces
  obtain ⟨hspan, hextent⟩ := Prod.mk.inj hpair
  have hok : analyze "abc + (b\n)" = .ok t := by
    cases hresult : analyze "abc + (b\n)" with
    | error failure =>
      rw [hresult] at ht
      cases ht
    | ok u =>
      rw [hresult] at ht
      cases ht
      rfl
  obtain ⟨s, e, hs, he, _, _, _, _, _, _, hoverhang⟩ := span_eq_extent_iff hok (Tree.mem_walk_self t)
  rw [hspan] at hs
  rw [hextent] at he
  cases hs
  cases he
  exact ⟨t, hok, hspan, hextent, hoverhang (by decide)⟩

end ArrayExpr
