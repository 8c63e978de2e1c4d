import ArrayExpr.Proofs.Grammar.Derivation

/-!
# Nesting of groups

`Token.nesting` counts brackets along a list of tokens and gives the greatest number of groups that are open at once.
The leaves of a derivation tree close each group that they open (`Derivation.balanced`), so they nest on any number of
open groups as deep as they nest on none; hence the nesting of a repetition is the greatest of its operands, and a pair
of brackets adds one (`Balanced.nesting_append`, `Balanced.nesting_group`). Tokens that leave groups open but close no
other ones are `Rising`.
-/

namespace ArrayExpr

namespace Token

/-- The number of groups that are open behind a token, of that many before it. -/
def openBehind (t : Token) (count : Nat) : Nat :=
  match t.kind with
  | .openRound | .openSquare => count + 1
  | .closeRound | .closeSquare => count - 1
  | _ => count

/-- The greatest number of groups that are open at once along a list, of which so many are open before it. -/
def nestingFrom (count : Nat) : List Token → Nat
  | [] => count
  | t :: rest => max count (nestingFrom (t.openBehind count) rest)

/-- The greatest number of groups that are open at once. -/
def nesting (tokens : List Token) : Nat := nestingFrom 0 tokens

theorem le_nestingFrom (count : Nat) : ∀ tokens : List Token, count ≤ nestingFrom count tokens
  | [] => Nat.le_refl _
  | _ :: _ => Nat.le_max_left _ _

/-- Nesting depends on the kinds of the tokens only. -/
theorem nestingFrom_congr {ts us : List Token} (h : ts.map kind = us.map kind) (count : Nat) :
    nestingFrom count ts = nestingFrom count us := by
  induction ts generalizing us count with
  | nil =>
    cases us with
    | nil => rfl
    | cons => simp at h
  | cons t ts ih =>
    cases us with
    | nil => simp at h
    | cons u us =>
      simp only [List.map_cons, List.cons.injEq] at h
      rw [nestingFrom, nestingFrom, ih h.2, openBehind, openBehind, h.1]

theorem nesting_congr {ts us : List Token} (h : ts.map content = us.map content) : nesting ts = nesting us := by
  refine nestingFrom_congr ?_ 0
  have hkinds := congrArg (List.map Prod.snd) h
  rwa [List.map_map, List.map_map] at hkinds

/-- Tokens that close the groups that they open: on any number of open groups, they nest as deep as on none. -/
def Balanced (tokens : List Token) : Prop :=
  ∀ count rest, nestingFrom count (tokens ++ rest) = max (count + nesting tokens) (nestingFrom count rest)

/-- A token that opens no group and closes none. -/
def IsFlat (t : Token) : Prop := ∀ count, t.openBehind count = count

theorem isFlat_of_kind {t : Token} (h : t.kind ∈ [Kind.identifier, .plus, .star, .slash]) : t.IsFlat := by
  intro count
  simp only [List.mem_cons, List.not_mem_nil, or_false] at h
  rcases h with h | h | h | h <;> simp only [openBehind, h]

section Balance

variable {a b : List Token} {t opening closing : Token}

theorem IsFlat.nestingFrom_cons (ht : t.IsFlat) (count : Nat) (rest : List Token) :
    nestingFrom count (t :: rest) = nestingFrom count rest := by
  rw [nestingFrom, ht count]
  exact Nat.max_eq_right (le_nestingFrom count rest)

theorem IsFlat.nesting_cons (ht : t.IsFlat) (rest : List Token) : nesting (t :: rest) = nesting rest :=
  ht.nestingFrom_cons 0 rest

theorem balanced_nil : Balanced [] := fun count rest => (Nat.max_eq_right (le_nestingFrom count rest)).symm

theorem Balanced.cons (ht : t.IsFlat) (ha : Balanced a) : Balanced (t :: a) := by
  intro count rest
  rw [List.cons_append, ht.nestingFrom_cons, ht.nesting_cons]
  exact ha count rest

theorem Balanced.nesting_append (ha : Balanced a) : nesting (a ++ b) = max (nesting a) (nesting b) := by
  rw [nesting, ha 0 b, Nat.zero_add]
  rfl

theorem Balanced.append (ha : Balanced a) (hb : Balanced b) : Balanced (a ++ b) := by
  intro count rest
  rw [List.append_assoc, ha, hb, ha.nesting_append]
  omega

theorem Balanced.nestingFrom_group (ha : Balanced a) (ho : ∀ count, opening.openBehind count = count + 1)
    (hc : ∀ count, closing.openBehind count = count - 1) (count : Nat) (rest : List Token) :
    nestingFrom count (opening :: (a ++ closing :: rest)) = max (count + (nesting a + 1)) (nestingFrom count rest) := by
  have hrest := le_nestingFrom count rest
  rw [nestingFrom, ho, ha, nestingFrom, hc, Nat.add_sub_cancel]
  omega

theorem Balanced.nesting_group (ha : Balanced a) (ho : ∀ count, opening.openBehind count = count + 1)
    (hc : ∀ count, closing.openBehind count = count - 1) : nesting (opening :: (a ++ [closing])) = nesting a + 1 := by
  rw [nesting, ha.nestingFrom_group ho hc, nestingFrom]
  omega

theorem Balanced.group (ha : Balanced a) (ho : ∀ count, opening.openBehind count = count + 1)
    (hc : ∀ count, closing.openBehind count = count - 1) : Balanced (opening :: (a ++ [closing])) := by
  intro count rest
  rw [ha.nesting_group ho hc, List.cons_append, List.append_assoc, List.singleton_append, ha.nestingFrom_group ho hc]

/-- Tokens that close no group but those that they open: on any number of open groups, they reach as many more as they
do on none. -/
def Rising (tokens : List Token) : Prop := ∀ count, nestingFrom count tokens = count + nesting tokens

theorem Balanced.rising (ha : Balanced a) : Rising a := by
  intro count
  have hall := ha count []
  rw [List.append_nil, nestingFrom] at hall
  omega

theorem Balanced.append_rising (ha : Balanced a) (hb : Rising b) : Rising (a ++ b) := by
  intro count
  rw [ha, hb, ha.nesting_append]
  omega

/-- A group that is left open adds one to the nesting of what follows its opening bracket. -/
theorem Rising.cons_opening (ha : Rising a) (ho : ∀ count, opening.openBehind count = count + 1) :
    Rising (opening :: a) ∧ nesting (opening :: a) = nesting a + 1 := by
  have hfrom : ∀ count, nestingFrom count (opening :: a) = count + (nesting a + 1) := by
    intro count
    rw [nestingFrom, ho, ha]
    omega
  have hnesting : nesting (opening :: a) = nesting a + 1 := (hfrom 0).trans (Nat.zero_add _)
  exact ⟨fun count => hnesting ▸ hfrom count, hnesting⟩

end Balance

theorem nestingFrom_le_append (count : Nat) : ∀ a b : List Token, nestingFrom count a ≤ nestingFrom count (a ++ b)
  | [], b => le_nestingFrom count b
  | t :: a, b => by
    have hrest := nestingFrom_le_append (t.openBehind count) a b
    rw [List.cons_append, nestingFrom, nestingFrom]
    omega

theorem openBehind_le (t : Token) (count : Nat) : t.openBehind count ≤ count + 1 := by
  unfold openBehind
  split <;> omega

theorem nestingFrom_le_length (count : Nat) : ∀ tokens : List Token, nestingFrom count tokens ≤ count + tokens.length
  | [] => Nat.le_refl _
  | t :: rest => by
    have hfirst := t.openBehind_le count
    have hrest := nestingFrom_le_length (t.openBehind count) rest
    rw [nestingFrom, List.length_cons]
    omega

theorem openBehind_opening {bracket : Bracket} {t : Token} (h : t.kind = bracket.opening) (count : Nat) :
    t.openBehind count = count + 1 := by
  cases bracket <;> simp only [openBehind, h, Bracket.opening]

theorem openBehind_closing {bracket : Bracket} {t : Token} (h : t.kind = bracket.closing) (count : Nat) :
    t.openBehind count = count - 1 := by
  cases bracket <;> simp only [openBehind, h, Bracket.closing]

end Token

open Token

/-! ## Derivation trees -/

theorem isFlat_of_operator {rule : Nonterminal} {t : Token} (h : t.kind ∈ rule.operators) : t.IsFlat := by
  apply isFlat_of_kind
  cases rule with
  | expression =>
    rw [List.mem_singleton.mp h]
    decide
  | term => exact List.mem_cons_of_mem _ (List.mem_cons_of_mem _ h)
  | factor => cases h

theorem isFlat_of_name {t : Token} (h : t.kind = .identifier) : t.IsFlat :=
  isFlat_of_kind (h ▸ List.mem_cons_self)

/-- The leaves of an alternation are balanced if those of its operands are. -/
theorem Alternation.balanced {P : Tree → Prop} (rule : Nonterminal) {parts : List Tree}
    (h : Alternation P rule.operators parts) (hP : ∀ t ∈ parts, P t → Balanced t.leaves) :
    Balanced (parts.flatMap Tree.leaves) := by
  induction h with
  | last hoperand => simpa using hP _ List.mem_cons_self hoperand
  | link hoperand hoperator _ ih =>
    have hothers := ih fun t ht => hP t (List.mem_cons_of_mem _ (List.mem_cons_of_mem _ ht))
    simpa using (hP _ List.mem_cons_self hoperand).append (hothers.cons (isFlat_of_operator hoperator))

theorem Enclosed.balanced {bracket : Bracket} {inner : Tree} {parts : List Tree} (h : Enclosed bracket inner parts)
    (hinner : Balanced inner.leaves) :
    Balanced (parts.flatMap Tree.leaves) ∧ nesting (parts.flatMap Tree.leaves) = nesting inner.leaves + 1 := by
  obtain ⟨opening, closing, ho, hc, hleaves⟩ := h.exists_leaves
  rw [hleaves]
  exact ⟨hinner.group (openBehind_opening ho) (openBehind_closing hc),
    hinner.nesting_group (openBehind_opening ho) (openBehind_closing hc)⟩

/-- Derivation trees close the groups that they open. -/
theorem Derivation.balanced {rule : Nonterminal} {t : Tree} (h : Derivation rule t) : Balanced t.leaves := by
  induction t generalizing rule with
  | leaf => cases h
  | node rule' parts span ih =>
    rw [Tree.leaves_node]
    cases h with
    | expression hparts => exact Alternation.balanced .expression hparts fun t ht hd => ih t ht hd
    | term hparts => exact Alternation.balanced .term hparts fun t ht hd => ih t ht hd
    | name hname => simpa using balanced_nil.cons (isFlat_of_name hname)
    | access hname hinner hgroup =>
      have hinside := hgroup.balanced (ih _ (List.mem_cons_of_mem _ hgroup.mem) hinner)
      simpa using hinside.1.cons (isFlat_of_name hname)
    | parentheses hinner hgroup => exact (hgroup.balanced (ih _ hgroup.mem hinner)).1

end ArrayExpr
