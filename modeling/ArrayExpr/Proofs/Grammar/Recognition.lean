import ArrayExpr.Proofs.Parser.Completeness
import ArrayExpr.Proofs.Parser.Relabel
import ArrayExpr.Proofs.Parser.Soundness
import ArrayExpr.Proofs.Token.Cursor

/-!
# Parsing recognises the grammar

Tokens of the same contents are read alike (`run_congr`), so soundness and completeness of the parsers carry over from
the leaves of a tree to any tokens that say the same (`exists_run_of_derivation`). Hence derivation trees over the same
contents are the same (`Derivation.same_of_content_eq`), and a sequence of tokens is parsed exactly to the derivation
tree over its body, as long as its groups do not nest too deep (`parse_ok_iff_derivation`).
-/

namespace ArrayExpr

open Token

namespace Parser

theorem run_congr {ts us : List Token} (h : ts.map content = us.map content) (limit : Nat) (rule : Nonterminal) :
    ((ofRule limit rule).run ts).mapTokens unplaced (Tree.mapTokens unplaced) =
      ((ofRule limit rule).run us).mapTokens unplaced (Tree.mapTokens unplaced) := by
  have hnatural := natural_ofRule (f := unplaced) kind_unplaced limit rule
  rw [← hnatural ts, ← hnatural us, (map_unplaced_eq_iff ts us).mpr h]

/-- A derivation tree is read, places apart, from tokens that say the same as its leaves. -/
theorem exists_run_of_derivation {limit : Nat} {rule : Nonterminal} {t : Tree} (hd : Derivation rule t)
    (hn : nesting t.leaves ≤ limit) {ts : List Token} (hts : ts.map content = t.leaves.map content) :
    ∃ u, ((ofRule limit rule).run ts).outcome = .ok u ∧ ((ofRule limit rule).run ts).rest = [] ∧ u.same t = true := by
  have hends : rule.EndsBefore [] := fun _ h => nomatch h
  obtain ⟨hok, hrest⟩ := complete_ofRule limit rule hd (Nat.lt_succ_of_le hn) hends
  have hrun := run_congr hts limit rule
  rw [List.append_nil] at hok hrest
  simp only [Run.mapTokens, Run.mk.injEq, hok, hrest, List.map_nil, List.map_eq_nil_iff] at hrun
  obtain ⟨_, hnil, houtcome⟩ := hrun
  cases ho : ((ofRule limit rule).run ts).outcome with
  | error fault =>
    rw [ho] at houtcome
    cases houtcome
  | ok u =>
    rw [ho] at houtcome
    refine ⟨u, rfl, hnil, (Tree.same_iff u t).mpr ?_⟩
    rw [Except.ok.inj houtcome, Tree.mapTokens_mapTokens]
    rfl

end Parser

/-- **The grammar is unambiguous**: derivation trees of a rule over the same contents are the same. -/
theorem Derivation.same_of_content_eq {rule : Nonterminal} {t u : Tree} (ht : Derivation rule t)
    (hu : Derivation rule u) (h : t.leaves.map content = u.leaves.map content) : t.same u = true := by
  obtain ⟨v, hv, _, hvt⟩ := Parser.exists_run_of_derivation ht (Nat.le_refl _) rfl
  obtain ⟨w, hw, _, hwu⟩ := Parser.exists_run_of_derivation hu (Nat.le_of_eq (nesting_congr h.symm)) h
  rw [hv] at hw
  cases hw
  exact Tree.same_trans (Tree.same_symm hvt) hwu

/-- The tree of a sequence is a derivation tree over its body, built by the constructors. -/
theorem derivation_of_parse {tokens : List Token} {program : String} {limit : Nat} {t : Tree}
    (h : parse tokens program limit = .ok t) : Derivation .expression t ∧ t.leaves = body tokens ∧
      nesting (body tokens) ≤ limit ∧ t.mapTokens id = t := by
  obtain ⟨_, hok, hrest⟩ := parse_eq_ok_iff.mp h
  obtain ⟨hd, hleaves, hlt⟩ := Parser.sound_ofRule limit .expression hok
  rw [hrest, List.append_nil] at hleaves
  exact ⟨hd, hleaves, hleaves ▸ Nat.le_of_lt_succ hlt, Parser.mapTokens_id_of_run hok⟩

/-- A derivation tree over the contents of the body of a sequence is, places apart, the tree of the sequence. -/
theorem exists_parse_of_derivation {tokens : List Token} (hended : Ended tokens) {t : Tree}
    (hd : Derivation .expression t) (hleaves : t.leaves.map content = (body tokens).map content) {limit : Nat}
    (hn : nesting (body tokens) ≤ limit) (program : String) :
    ∃ u, parse tokens program limit = .ok u ∧ u.same t = true := by
  have hlimit : nesting t.leaves ≤ limit := nesting_congr hleaves ▸ hn
  obtain ⟨u, hok, hrest, hsame⟩ := Parser.exists_run_of_derivation hd hlimit hleaves.symm
  exact ⟨u, parse_eq_ok_iff.mpr ⟨hended, hok, hrest⟩, hsame⟩

/-- **Parsing recognises exactly the grammar.** A sequence is parsed to a given tree, places apart, exactly if it ends
in an end token, no more groups are open at once in its body than may be, and the tree is a derivation tree of an
expression over the contents of the body. Over any contents there is one derivation tree at most, and what stands beyond
the first end token does not matter. -/
theorem parse_ok_iff_derivation (tokens : List Token) (program : String) (limit : Nat) :
    (∀ t : Tree, (∃ u, parse tokens program limit = .ok u ∧ u.same t = true) ↔
      Ended tokens ∧ nesting (body tokens) ≤ limit ∧ Derivation .expression t ∧
        t.leaves.map content = (body tokens).map content) ∧
    (∀ t u : Tree, Derivation .expression t → Derivation .expression u →
      t.leaves.map content = u.leaves.map content → t.same u = true) ∧
    ∀ (front beyond : List Token) (finish : Token), tokens = front ++ finish :: beyond → finish.isFinish = true →
      Ended tokens → parse tokens program limit = parse (front ++ [finish]) program limit := by
  refine ⟨fun t => ⟨?_, ?_⟩, fun t u => Derivation.same_of_content_eq, ?_⟩
  · rintro ⟨u, hparse, hsame⟩
    obtain ⟨hd, hleaves, hn, _⟩ := derivation_of_parse hparse
    exact ⟨(parse_eq_ok_iff.mp hparse).1, hn, hd.of_same hsame, hleaves ▸ (Tree.content_leaves_of_same hsame).symm⟩
  · rintro ⟨hended, hn, hd, hleaves⟩
    exact exists_parse_of_derivation hended hd hleaves hn program
  · rintro front beyond finish rfl hfinish hended
    exact parse_append_cons front hfinish ((ended_append_cons front finish beyond).mp hended) program limit

end ArrayExpr
