import ArrayExpr.Proofs.RoundTrip

/-!
# What the source of a tree is made of

The source is spelled from the leaves alone, with a gap between each two of them that depends on their kinds. So the
tokens of a tree of any shape are read again from its source exactly if they have lexemes (`tokenize_source_iff`). The
spelling of a list of tokens is made of the spellings of its pieces and the gaps between them (`spell_append_cons`). The
leaves of a derivation tree are `Loose`: the first of them hugs nothing before it, and the last one nothing behind it.
Hence operators stand between spaces and brackets hug what they hold, whatever these operands and groups are: the source
of a derivation tree is composed of the sources of its parts (`Tree.Composed`, `source_composed`).
-/

namespace ArrayExpr

open Token

theorem Bracket.hugs (bracket : Bracket) :
    bracket.opening.hugsNext = true ∧ bracket.closing.hugsPrevious = true := by
  cases bracket <;> exact ⟨rfl, rfl⟩

namespace Token

/-! ## Spelling in pieces -/

/-- Two pieces are spelled with the gap between the last token of the one and the first token of the other. -/
theorem spell_append_cons (t u : Token) (us : List Token) : ∀ ts : List Token,
    spell (ts ++ t :: u :: us) = spell (ts ++ [t]) ++ gap t u ++ spell (u :: us)
  | [] => rfl
  | [v] => by simp only [List.cons_append, List.nil_append, spell, List.append_assoc]
  | v :: w :: ts => by
    have hrest := spell_append_cons t u us (w :: ts)
    simp only [List.cons_append, spell, List.append_assoc] at hrest ⊢
    rw [hrest]

theorem exists_spell_append (ts us : List Token) : ∃ between, spell (ts ++ us) = spell ts ++ between ++ spell us := by
  rcases List.eq_nil_or_concat' ts with rfl | ⟨front, t, rfl⟩
  · exact ⟨[], rfl⟩
  · cases us with
    | nil => exact ⟨[], by simp [spell]⟩
    | cons u us => exact ⟨gap t u, by rw [← spell_append_cons, List.append_assoc]; rfl⟩

theorem spell_infix {ts us : List Token} (h : ts <:+: us) : spell ts <:+: spell us := by
  obtain ⟨before, after, rfl⟩ := h
  obtain ⟨gapBefore, hbefore⟩ := exists_spell_append before ts
  obtain ⟨gapAfter, hafter⟩ := exists_spell_append (before ++ ts) after
  refine ⟨spell before ++ gapBefore, gapAfter ++ spell after, ?_⟩
  rw [hafter, hbefore, List.append_assoc _ gapAfter]

/-- The first token hugs nothing before it, and the last one nothing behind it. -/
structure Loose (ts : List Token) : Prop where
  exists_cons : ∃ t rest, ts = t :: rest ∧ t.kind.hugsPrevious = false
  exists_concat : ∃ front t, ts = front ++ [t] ∧ t.kind.hugsNext = false

theorem Loose.append {ts us : List Token} (ht : Loose ts) (hu : Loose us) (between : List Token) :
    Loose (ts ++ (between ++ us)) := by
  obtain ⟨t, rest, rfl, hfirst⟩ := ht.exists_cons
  obtain ⟨front, u, rfl, hlast⟩ := hu.exists_concat
  exact ⟨⟨t, _, rfl, hfirst⟩, ⟨t :: rest ++ (between ++ front), u, by simp, hlast⟩⟩

theorem gap_of_not_hugs {t u : Token} (ht : t.kind.hugsNext = false) (hu : u.kind.hugsPrevious = false) :
    gap t u = [' '] := by
  rw [gap, ht, hu]
  rfl

/-- An operator stands between spaces. -/
theorem Loose.spell_operator {ts us : List Token} (ht : Loose ts) (hu : Loose us) {operator : Token}
    (hnext : operator.kind.hugsNext = false) (hprevious : operator.kind.hugsPrevious = false) :
    spell (ts ++ operator :: us) = spell ts ++ ' ' :: (operator.text.toList ++ ' ' :: spell us) := by
  obtain ⟨front, t, rfl, hlast⟩ := ht.exists_concat
  obtain ⟨u, rest, rfl, hfirst⟩ := hu.exists_cons
  rw [List.append_assoc, List.singleton_append, spell_append_cons, spell, gap_of_not_hugs hlast hprevious,
    gap_of_not_hugs hnext hfirst]
  simp

/-- Brackets hug what they hold. -/
theorem spell_enclosed {ts : List Token} (hne : ts ≠ []) {bracket : Bracket} {opening closing : Token}
    (hopening : opening.kind = bracket.opening) (hclosing : closing.kind = bracket.closing) :
    spell (opening :: (ts ++ [closing])) = opening.text.toList ++ (spell ts ++ closing.text.toList) := by
  obtain ⟨hnext, hprevious⟩ := bracket.hugs
  have hbehind : spell (ts ++ [closing]) = spell ts ++ closing.text.toList := by
    obtain ⟨front, t, rfl⟩ := (List.eq_nil_or_concat' ts).resolve_left hne
    have hgap : gap t closing = [] := by simp [gap, hclosing, hprevious]
    rw [List.append_assoc, List.singleton_append, spell_append_cons, hgap, List.append_nil, spell]
  obtain ⟨u, rest, rfl⟩ := List.exists_cons_of_ne_nil hne
  have hgap : gap opening u = [] := by simp [gap, hopening, hnext]
  rw [List.cons_append, spell, hgap, List.append_nil, ← List.cons_append, hbehind]

theorem spell_access (name : Token) {opening : Token} (h : opening.kind = .openSquare) (ts : List Token) :
    spell (name :: opening :: ts) = name.text.toList ++ spell (opening :: ts) := by
  have hgap : gap name opening = [] := by simp [gap, h, Kind.hugsPrevious]
  rw [spell, hgap, List.append_nil]

end Token

/-! ## Leaves of derivation trees -/

/-- An alternation of loose operands is loose. -/
theorem Alternation.loose {P : Tree → Prop} {operators : List Kind} {parts : List Tree}
    (h : Alternation P operators parts) (hP : ∀ part ∈ parts, P part → Loose part.leaves) :
    Loose (parts.flatMap Tree.leaves) := by
  induction h with
  | @last operand hoperand =>
    rw [List.flatMap_singleton]
    exact hP operand List.mem_cons_self hoperand
  | @link operand operator span others hoperand _ _ ih =>
    have hothers := ih fun part hpart => hP part (List.mem_cons_of_mem _ (List.mem_cons_of_mem _ hpart))
    rw [List.flatMap_cons, List.flatMap_cons, Tree.leaves_leaf]
    exact (hP operand List.mem_cons_self hoperand).append hothers [operator]

/-- The leaves of a derivation tree are loose. -/
theorem Derivation.loose {rule : Nonterminal} {t : Tree} (h : Derivation rule t) : Loose t.leaves := by
  induction t generalizing rule with
  | leaf => cases h
  | node _ parts span ih =>
    rw [Tree.leaves_node]
    cases h with
    | expression hparts => exact hparts.loose fun part hpart hd => ih part hpart hd
    | term hparts => exact hparts.loose fun part hpart hd => ih part hpart hd
    | @name name _ _ hname =>
      rw [List.flatMap_singleton, Tree.leaves_leaf]
      exact ⟨⟨name, [], rfl, by rw [hname]; rfl⟩, ⟨[], name, rfl, by rw [hname]; rfl⟩⟩
    | @access name _ inner _ _ hname _ hgroup =>
      obtain ⟨opening, closing, _, hclosing, hleaves⟩ := hgroup.exists_leaves
      rw [List.flatMap_cons, Tree.leaves_leaf, hleaves]
      exact ⟨⟨name, _, rfl, by rw [hname]; rfl⟩,
        ⟨name :: opening :: inner.leaves, closing, rfl, by rw [hclosing]; rfl⟩⟩
    | @parentheses inner _ _ _ hgroup =>
      obtain ⟨opening, closing, hopening, hclosing, hleaves⟩ := hgroup.exists_leaves
      rw [hleaves]
      exact ⟨⟨opening, _, rfl, by rw [hopening]; rfl⟩, ⟨opening :: inner.leaves, closing, rfl, by rw [hclosing]; rfl⟩⟩

theorem Derivation.leaves_ne_nil {rule : Nonterminal} {t : Tree} (h : Derivation rule t) : t.leaves ≠ [] := by
  obtain ⟨first, rest, hleaves, _⟩ := h.loose.exists_cons
  rw [hleaves]
  exact List.cons_ne_nil first rest

/-! ## Sources from sources -/

namespace Tree

/-- The sources of operands, joined by the operators between them with a space on either side. -/
inductive Joined : List Tree → String → Prop
  | last (operand : Tree) : Joined [operand] operand.source
  | link (operand : Tree) (operator : Token) (span : Span) {others : List Tree} {text : String} : Joined others text →
      Joined (operand :: leaf .literal operator span :: others)
        (operand.source ++ " " ++ operator.text ++ " " ++ text)

/-- **The text is composed of the sources of the parts of the tree**, in which a bracket is written as said. -/
inductive Composed (write : Token → String) : Tree → String → Prop
  | chain {rule : Nonterminal} {parts : List Tree} {span : Option Span} {text : String} : rule ≠ .factor →
      Joined parts text → Composed write (node rule parts span) text
  | name (name : Token) (place : Span) (span : Option Span) :
      Composed write (node .factor [leaf .identifier name place] span) name.text
  | access (name : Token) {opening closing : Token} (inner : Tree) (place before after : Span) (span : Option Span) :
      opening.kind = .openSquare → closing.kind = .closeSquare →
      Composed write (node .factor [leaf .identifier name place, leaf .literal opening before, inner,
        leaf .literal closing after] span) (name.text ++ write opening ++ inner.source ++ write closing)
  | parentheses {opening closing : Token} (inner : Tree) (before after : Span) (span : Option Span) :
      opening.kind = .openRound → closing.kind = .closeRound →
      Composed write (node .factor [leaf .literal opening before, inner, leaf .literal closing after] span)
        (write opening ++ inner.source ++ write closing)

theorem source_node (rule : Nonterminal) (parts : List Tree) (span : Option Span) :
    (node rule parts span).source = String.ofList (spell (parts.flatMap leaves)) := by
  rw [source, leaves_node]

/-- The source of a group: that of what it holds between the texts of the two brackets. -/
theorem spell_group {bracket : Bracket} {opening closing : Token} {inner : Tree} (hinner : inner.leaves ≠ [])
    (hopening : opening.kind = bracket.opening) (hclosing : closing.kind = bracket.closing) (before after : Span) :
    spell ([leaf .literal opening before, inner, leaf .literal closing after].flatMap leaves) =
      (opening.text ++ inner.source ++ closing.text).toList := by
  have hleaves : [leaf .literal opening before, inner, leaf .literal closing after].flatMap leaves =
      opening :: (inner.leaves ++ [closing]) := by simp
  rw [hleaves, spell_enclosed hinner hopening hclosing]
  simp [source]

/-- The source of an array access: that of the group behind the name. -/
theorem source_access (name : Token) {opening closing : Token} {inner : Tree} (hinner : inner.leaves ≠ [])
    (hopening : opening.kind = .openSquare) (hclosing : closing.kind = .closeSquare) (place before after : Span)
    (span : Option Span) :
    (node .factor [leaf .identifier name place, leaf .literal opening before, inner,
      leaf .literal closing after] span).source = name.text ++ opening.text ++ inner.source ++ closing.text := by
  have hgroup := @spell_group .square opening closing inner hinner hopening hclosing before after
  rw [List.flatMap_cons, leaves_leaf, List.singleton_append] at hgroup
  apply String.toList_injective
  rw [source_node, String.toList_ofList, List.flatMap_cons, leaves_leaf, List.flatMap_cons, leaves_leaf,
    List.singleton_append, List.singleton_append, spell_access name hopening, hgroup]
  simp only [String.toList_append, List.append_assoc]

theorem exists_source_append {t part : Tree} (h : part ∈ t.walk) :
    ∃ before after, t.source = before ++ part.source ++ after := by
  obtain ⟨before, after, hinfix⟩ := spell_infix (leaves_infix_of_mem_walk h)
  exact ⟨String.ofList before, String.ofList after, by
    rw [source, source, ← hinfix, String.ofList_append, String.ofList_append]⟩

end Tree

open ArrayExpr.Tree

/-- The operands of an alternation of derivation trees are joined. -/
theorem Alternation.joined {operand : Nonterminal} {operators : List Kind} {parts : List Tree}
    (h : Alternation (Derivation operand) operators parts)
    (hspaced : ∀ kind ∈ operators, kind.hugsNext = false ∧ kind.hugsPrevious = false) :
    Joined parts (String.ofList (spell (parts.flatMap leaves))) := by
  induction h with
  | @last t _ =>
    rw [List.flatMap_singleton]
    exact .last t
  | @link t operator span others ht hoperator hothers ih =>
    obtain ⟨hnext, hprevious⟩ := hspaced operator.kind hoperator
    have hloose := hothers.loose fun _ _ hd => hd.loose
    have htext : String.ofList (spell ((t :: leaf .literal operator span :: others).flatMap leaves)) =
        t.source ++ " " ++ operator.text ++ " " ++ String.ofList (spell (others.flatMap leaves)) := by
      rw [List.flatMap_cons, List.flatMap_cons, leaves_leaf, List.singleton_append,
        ht.loose.spell_operator hloose hnext hprevious]
      apply String.toList_injective
      simp [source]
    rw [htext]
    exact .link t operator span ih

/-- **The source of a derivation tree is composed** of the sources of its parts, with the texts of the brackets. -/
theorem Derivation.composed {rule : Nonterminal} {t : Tree} (h : Derivation rule t) : t.Composed text t.source := by
  cases h with
  | expression hparts =>
    rw [source_node]
    exact .chain (by decide) (hparts.joined (by decide))
  | term hparts =>
    rw [source_node]
    exact .chain (by decide) (hparts.joined (by decide))
  | @name name place span _ =>
    rw [source_node, List.flatMap_singleton, leaves_leaf, spell, String.ofList_toList]
    exact .name name place span
  | @access name place inner _ span hname hinner hgroup =>
    cases hgroup with
    | @intro opening closing before after hopening hclosing =>
      rw [source_access name hinner.leaves_ne_nil hopening hclosing]
      exact .access name inner place before after span hopening hclosing
  | @parentheses inner _ span hinner hgroup =>
    cases hgroup with
    | @intro opening closing before after hopening hclosing =>
      rw [source_node, spell_group hinner.leaves_ne_nil hopening hclosing, String.ofList_toList]
      exact .parentheses inner before after span hopening hclosing

/-- Only how the brackets of the tree are written matters. -/
theorem Tree.Composed.congr {write write' : Token → String} {t : Tree} {source : String} (h : t.Composed write source)
    (hwrite : ∀ token span, leaf .literal token span ∈ t.children → write token = write' token) :
    t.Composed write' source := by
  cases h with
  | chain hrule hparts => exact .chain hrule hparts
  | name name place span => exact .name name place span
  | @access name opening closing inner place before after span hopening hclosing =>
    rw [hwrite opening before (by simp [children]), hwrite closing after (by simp [children])]
    exact .access name inner place before after span hopening hclosing
  | @parentheses opening closing inner before after span hopening hclosing =>
    rw [hwrite opening before (by simp [children]), hwrite closing after (by simp [children])]
    exact .parentheses inner before after span hopening hclosing

theorem Tree.Composed.of_wellSpelled {t : Tree} {source : String} (h : t.Composed text source) (ht : t.WellSpelled) :
    t.Composed (fun bracket => bracket.kind.spelling) source :=
  h.congr fun token span hleaf =>
    (ht .literal token span (mem_walk_iff.mpr (Or.inr ⟨_, hleaf, mem_walk_self _⟩))).2

/-- **Printing is compositional.** The source of a derivation tree of any rule is composed of those of its parts: operands
are joined by their operators between spaces, a name stands for itself, and a group hugs its brackets. These are written
as in the tree, and in a well-spelled one as usual. The source of a part of any tree stands in that of the tree. -/
theorem source_composed :
    (∀ (rule : Nonterminal) (t : Tree), Derivation rule t → t.Composed text t.source) ∧
    (∀ (rule : Nonterminal) (t : Tree), Derivation rule t → t.WellSpelled →
      t.Composed (fun bracket => bracket.kind.spelling) t.source) ∧
    ∀ t part : Tree, part ∈ t.walk → ∃ before after, t.source = before ++ part.source ++ after :=
  ⟨fun _ _ h => h.composed, fun _ _ h ht => h.composed.of_wellSpelled ht, fun _ _ => exists_source_append⟩

/-- A name and an access to it, in brackets with these texts. -/
def accessWith (opening closing : String) : Tree :=
  .branch .factor [.identifier ⟨"a", .identifier, .nowhere⟩, .literal ⟨opening, .openSquare, .nowhere⟩,
    .branch .expression [.branch .term [.branch .factor [.identifier ⟨"b", .identifier, .nowhere⟩]]],
    .literal ⟨closing, .closeSquare, .nowhere⟩]

theorem derivation_accessWith (opening closing : String) : Derivation .factor (accessWith opening closing) :=
  .access rfl (.expression (.last (.term (.last (.name rfl))))) (.intro rfl rfl)

/-- A derivation does not say that brackets are written as usual, so that the source need not be `a[b]`. -/
theorem accessWith_other_texts : Derivation .factor (accessWith "<" ">") ∧ (accessWith "<" ">").source = "a<b>" ∧
    ¬ (accessWith "<" ">").Composed (fun bracket => bracket.kind.spelling) (accessWith "<" ">").source := by
  have hsource : (accessWith "<" ">").source = "a<b>" := by decide +kernel
  refine ⟨derivation_accessWith "<" ">", hsource, fun h => ?_⟩
  rw [hsource] at h
  generalize htext : "a<b>" = s at h
  cases h with
  | chain hrule => exact hrule rfl
  | access => exact absurd htext (by decide +kernel)

/-- With the usual brackets it is. -/
theorem accessWith_usual_texts : Derivation .factor (accessWith "[" "]") ∧ (accessWith "[" "]").WellSpelled ∧
    (accessWith "[" "]").source = "a[b]" ∧ (accessWith "[" "]").Composed text (accessWith "[" "]").source ∧
    (accessWith "[" "]").Composed (fun bracket => bracket.kind.spelling) (accessWith "[" "]").source ∧
    ∀ part ∈ (accessWith "[" "]").children,
      ∃ before after, (accessWith "[" "]").source = before ++ part.source ++ after := by
  have hderivation := derivation_accessWith "[" "]"
  have ha : Lexeme .identifier ['a'] := .identifier (by decide +kernel) (List.forall_mem_nil _)
  have hb : Lexeme .identifier ['b'] := .identifier (by decide +kernel) (List.forall_mem_nil _)
  have hlexical : Lexical (accessWith "[" "]").leaves := by
    simp only [accessWith, branch, leaves_node, List.flatMap_cons, List.flatMap_nil, leaves_identifier, leaves_literal,
      List.singleton_append, List.append_nil, lexical_cons]
    exact ⟨ha, .fixed rfl, hb, .fixed rfl, List.forall_mem_nil _⟩
  have hspelled := hderivation.wellSpelled_iff.mpr hlexical
  refine ⟨hderivation, hspelled, by decide +kernel, source_composed.1 _ _ hderivation,
    source_composed.2.1 _ _ hderivation hspelled, fun part hpart => ?_⟩
  exact source_composed.2.2 _ part (mem_walk_iff.mpr (Or.inr ⟨part, hpart, mem_walk_self part⟩))

/-! ## Reading the tokens of a tree again -/

theorem content_of_tokenize {program : String} {tokens : List Token} (h : tokenize program = .ok tokens) :
    tokens.map content = (body tokens).map content ++ [("", .finish)] := by
  obtain ⟨front, finish, rfl, _, hnone, _, _, _, rfl⟩ := tiling_of_tokenize h
  rw [body_append hnone rfl, List.map_append]
  rfl

/-- **Printing neither joins nor splits tokens.** The source of a tree of any shape is read to the tokens of its leaves,
places apart, and the end token, exactly if they have lexemes. -/
theorem tokenize_source_iff (t : Tree) :
    (∃ tokens, tokenize t.source = .ok tokens ∧
      tokens.map content = t.leaves.map content ++ [("", .finish)]) ↔ Lexical t.leaves := by
  constructor
  · rintro ⟨tokens, htokens, hcontent⟩
    rw [content_of_tokenize htokens] at hcontent
    exact Lexical.congr (tiling_body htokens).2.lexeme (List.append_cancel_right hcontent).symm
  · intro h
    obtain ⟨tokens, htokens, _, hbody⟩ := tokenize_spell h
    exact ⟨tokens, htokens, by rw [content_of_tokenize htokens, hbody]⟩

end ArrayExpr
