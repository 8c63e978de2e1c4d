import ArrayExpr.Proofs.Grammar.Frontier
import ArrayExpr.Proofs.Parser.Soundness
import ArrayExpr.Proofs.Token.Cursor
import Mathlib.Data.List.Forall2

/-!
# Traces of the parser

A trace of the parser has an event for each rule that was entered, in the order of time. If a tree is read, these are the
nodes of the tree in the order of its walk, and the token of an event is the first leaf of its node
(`Tree.EnteredAs`). Each part of the parser keeps this (`Parser.Records`): a rule is entered before the rules below it,
which a walk visits behind its node, and where a rule is entered its first leaf is the next token. So the trace of an
accepted sequence is the preorder of its tree (`trace_is_preorder`).
-/

namespace ArrayExpr

open Token

namespace Tree

/-- The part applies a rule, and is no leaf. -/
def isNode : Tree → Bool
  | node .. => true
  | leaf .. => false

/-- The nodes among the parts of a tree, in the order of its walk. -/
def nodes (t : Tree) : List Tree := t.walk.filter isNode

theorem nodes_node (rule : Nonterminal) (children : List Tree) (span : Option Span) :
    (node rule children span).nodes = node rule children span :: children.flatMap nodes := by
  rw [nodes, walk_eq, List.filter_cons_of_pos rfl, List.filter_flatMap]
  rfl

@[simp] theorem nodes_leaf (role : Role) (token : Token) (span : Span) : (leaf role token span).nodes = [] := by
  rw [nodes, walk_leaf]
  rfl

/-- The event of a node: its rule was entered at its first leaf. -/
inductive EnteredAs : Tree → Event → Prop
  | node {rule : Nonterminal} {children : List Tree} {span : Option Span} {first : Token} :
      first ∈ (node rule children span).leaves.head? → EnteredAs (node rule children span) (.rule rule first)

end Tree

open ArrayExpr.Tree

namespace Parser

variable (finish : Token)

/-- A trace of visits has the nodes of some trees in their order. -/
def Recorded (trees : List Tree) (visits : List Visit) : Prop :=
  List.Forall₂ EnteredAs (trees.flatMap nodes) (visits.map (Visit.event finish))

/-- If the parser reads a tree, its visits are the nodes of the tree. -/
def Records (p : Parser) : Prop := ∀ {ts t}, (p.run ts).outcome = .ok t → Recorded finish [t] (p.run ts).visits

variable {finish} {inner operand : Parser} {limit : Nat}

theorem Recorded.append {trees others : List Tree} {visits visits' : List Visit} (h : Recorded finish trees visits)
    (h' : Recorded finish others visits') : Recorded finish (trees ++ others) (visits ++ visits') := by
  unfold Recorded
  rw [List.flatMap_append, List.map_append]
  exact List.rel_append h h'

theorem recorded_leaf (role : Role) (token : Token) : Recorded finish [ofToken role token] [] := by
  unfold Recorded
  rw [List.flatMap_singleton, ofToken, nodes_leaf]
  exact .nil

/-- The visits of a chain are those of its operands. -/
theorem links_records {rule : Nonterminal} (ho : operand.Records finish) {ts : List Token} {parts : List Tree}
    (h : (links rule operand ts).outcome = .ok parts) : Recorded finish parts (links rule operand ts).visits := by
  fun_induction links rule operand ts generalizing parts with
  | case1 => cases h
  | case2 ts first tree hfirst =>
    cases h
    exact ho hfirst
  | case3 ts first tree hfirst operator rest _ others =>
    rename_i ih
    obtain ⟨otherParts, hothers, rfl⟩ := exists_of_map_eq_ok h
    exact (ho hfirst).append ((recorded_leaf .literal operator).append (ih hothers))

/-- The visits of a group are those of what it holds. -/
theorem group_records (hi : inner.Records finish) {bracket : Bracket} {opening : Token} {ts : List Token}
    {parts : List Tree} (h : (group bracket opening inner ts).outcome = .ok parts) :
    Recorded finish parts (group bracket opening inner ts).visits := by
  rcases group_cases bracket opening inner ts with
    ⟨_, _, hg⟩ | ⟨tree, closing, rest, hok, _, _, hg⟩ | ⟨_, _, _, hg⟩
  · rw [hg] at h
    cases h
  · rw [hg] at h ⊢
    cases h
    have hinner := (hi hok).append (recorded_leaf .literal closing)
    rw [List.append_nil] at hinner
    exact (recorded_leaf .literal opening).append hinner
  · rw [hg] at h
    cases h

/-- The visits of a factor are those of its group, if it has one. -/
theorem factorParts_records (hi : inner.Records finish) {ts : List Token} {parts : List Tree}
    (h : (factorParts inner ts).outcome = .ok parts) : Recorded finish parts (factorParts inner ts).visits := by
  rcases factorParts_cases inner ts with
    ⟨name, rest, rfl, _, _, hf⟩ | ⟨name, opening, rest, rfl, _, _, hf⟩ | ⟨opening, rest, rfl, _, hf⟩ | ⟨_, hf⟩
  · rw [hf] at h ⊢
    cases h
    exact recorded_leaf .identifier name
  · rw [hf] at h ⊢
    obtain ⟨groupParts, hgroup, rfl⟩ := exists_of_map_eq_ok h
    exact (recorded_leaf .identifier name).append (group_records hi hgroup)
  · rw [hf] at h ⊢
    exact group_records hi h
  · rw [hf] at h
    cases h

/-- The first leaf of a tree that was read is the first token. -/
theorem Sound.exists_first {p : Parser} {rule : Nonterminal} (hp : p.Sound rule limit) {ts : List Token} {t : Tree}
    (h : (p.run ts).outcome = .ok t) : ∃ first, ts.head? = some first ∧ first ∈ t.leaves.head? := by
  obtain ⟨_, hts, _⟩ := hp h
  have hlt := p.rest_lt h
  cases hleaves : t.leaves with
  | nil =>
    rw [hleaves, List.nil_append] at hts
    rw [hts] at hlt
    exact absurd hlt (Nat.lt_irrefl _)
  | cons first leaves =>
    rw [hleaves] at hts
    exact ⟨first, by rw [← hts]; rfl, rfl⟩

/-- A rule is entered before all that is below its node. -/
theorem enter_records {p : Parser} {rule rule' : Nonterminal} (hp : p.Sound rule' limit) {ts : List Token}
    {r : Run (List Tree)} (hrun : p.run ts = r.enter rule ts)
    (hr : ∀ {parts}, r.outcome = .ok parts → Recorded finish parts r.visits) {t : Tree}
    (h : (p.run ts).outcome = .ok t) : Recorded finish [t] (p.run ts).visits := by
  obtain ⟨first, hhead, hfirst⟩ := hp.exists_first h
  rw [hrun] at h ⊢
  obtain ⟨parts, hparts, rfl⟩ := exists_of_map_eq_ok h
  unfold Recorded
  rw [List.flatMap_singleton, branch, nodes_node, Run.enter, List.map_cons, hhead]
  exact .cons (.node hfirst) (hr hparts)

/-! ## The rules -/

theorem records_factor (hi : inner.Records finish) (hs : inner.Sound .expression limit) :
    (factor inner).Records finish :=
  enter_records (sound_factor hs) rfl (factorParts_records hi)

theorem records_term (hi : inner.Records finish) (hs : inner.Sound .expression limit) : (term inner).Records finish :=
  enter_records (sound_term hs) rfl (links_records (records_factor hi hs))

theorem records_expression (hi : inner.Records finish) (hs : inner.Sound .expression limit) :
    (expression inner).Records finish :=
  enter_records (sound_expression hs) rfl (links_records (records_term hi hs))

/-- What is read between brackets is recorded. -/
theorem records_nested : ∀ limit : Nat, (nested limit).Records finish
  | 0 => fun h => nomatch h
  | limit + 1 => records_expression (records_nested limit) (sound_nested limit)

end Parser

/-! ## Sequences -/

/-- The events of an accepted sequence are the nodes of its tree. -/
theorem events_of_parse {tokens : List Token} {program : String} {limit : Nat} {t : Tree}
    (h : parse tokens program limit = .ok t) :
    List.Forall₂ EnteredAs t.nodes (parseTraced true tokens program limit).events := by
  obtain ⟨hended, hok, _⟩ := parse_eq_ok_iff.mp h
  rcases Cursor.ofTokens_cases tokens with ⟨hnot, _⟩ | ⟨_, c, hc, _, hahead, _⟩
  · exact absurd hended hnot
  · rw [← hahead] at hok
    have hrecorded : Parser.Recorded c.finish [t] ((Parser.ofRule limit .expression).run c.ahead).visits :=
      Parser.records_expression (Parser.records_nested limit) (Parser.sound_nested limit) hok
    rw [Parser.Recorded, List.flatMap_singleton] at hrecorded
    rw [parseTraced, hc]
    exact hrecorded

/-- To record events changes no result. -/
theorem result_parseTraced (debug : Bool) (tokens : List Token) (program : String) (limit : Nat) :
    (parseTraced debug tokens program limit).result = parse tokens program limit := by
  unfold parse parseTraced
  cases Cursor.ofTokens tokens with
  | none => rfl
  | some start => cases debug <;> rfl

/-- **The trace is the preorder of the tree.** The events that are recorded while a sequence with a tree is parsed are the
nodes of this tree in the order of its walk, one event for each of them: the rule of the node, entered at its first
leaf. Whether or not events are recorded, and whether or not there is a tree, the result is the same. -/
theorem trace_is_preorder (tokens : List Token) (program : String) (limit : Nat) :
    (∀ t, parse tokens program limit = .ok t →
      List.Forall₂ EnteredAs (t.walk.filter isNode) (parseTraced true tokens program limit).events) ∧
    ∀ debug, (parseTraced debug tokens program limit).result = parse tokens program limit :=
  ⟨fun _ h => events_of_parse h, fun debug => result_parseTraced debug tokens program limit⟩

/-- For a product with a group seven rules are entered, and those in the group behind those around it. -/
theorem trace_of_product : ∃ t,
    parse ([Kind.identifier, .star, .openRound, .identifier, .closeRound, .finish].map ofKind) "" = .ok t ∧
      List.Forall₂ EnteredAs (t.walk.filter isNode)
        [.rule .expression (ofKind .identifier), .rule .term (ofKind .identifier), .rule .factor (ofKind .identifier),
          .rule .factor (ofKind .openRound), .rule .expression (ofKind .identifier), .rule .term (ofKind .identifier),
          .rule .factor (ofKind .identifier)] := by
  have hsome : (parse ([Kind.identifier, .star, .openRound, .identifier, .closeRound, .finish].map ofKind)
      "").toOption.map (fun _ => ()) = some () := by
    with_unfolding_all rfl
  have hevents : (parseTraced true ([Kind.identifier, .star, .openRound, .identifier, .closeRound, .finish].map ofKind)
      "").events = [.rule .expression (ofKind .identifier), .rule .term (ofKind .identifier),
        .rule .factor (ofKind .identifier), .rule .factor (ofKind .openRound), .rule .expression (ofKind .identifier),
        .rule .term (ofKind .identifier), .rule .factor (ofKind .identifier)] := by
    with_unfolding_all rfl
  obtain ⟨t, ht, _⟩ := exists_ok_of_toOption_map hsome
  have htrace := (trace_is_preorder _ _ _).1 t ht
  rw [hevents] at htrace
  exact ⟨t, ht, htrace⟩

end ArrayExpr
