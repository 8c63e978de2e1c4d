import ArrayExpr.Tree.Parser

/-!
# What the parsers can do

For each part of the parser, an equation for each thing that it can do on a list of tokens, and a case lemma that says
that it does one of these: `links_cases` for operands and operators, `group_cases` for what stands between brackets,
`factorParts_cases` for names and groups. What holds of all runs is proved from these lemmas, and the parts are not
unfolded again.
-/

namespace ArrayExpr

theorem exists_of_map_eq_ok {x : Except Fault α} {f : α → β} {b : β} (h : x.map f = .ok b) :
    ∃ a, x = .ok a ∧ f a = b := by
  cases x with
  | error => cases h
  | ok a => exact ⟨a, rfl, Except.ok.inj h⟩

section TakeIf

variable {fits : Kind → Bool} {t : Token} {ts rest : List Token} {kind : Kind}

theorem takeIf_cons (h : fits t.kind = true) : takeIf fits (t :: rest) = some (t, rest) :=
  takeIf_eq_some.mpr ⟨rfl, h⟩

theorem takeIf_eq_none : takeIf fits ts = none ↔ ∀ t ∈ ts.head?, fits t.kind = false := by
  cases ts with
  | nil => simp [takeIf]
  | cons u us => by_cases h : fits u.kind = true <;> simp [takeIf, h]

theorem takeIf_kind (h : t.kind = kind) : takeIf (· == kind) (t :: rest) = some (t, rest) :=
  takeIf_cons (beq_iff_eq.mpr h)

theorem takeIf_kind_eq_none : takeIf (· == kind) ts = none ↔ ∀ t ∈ ts.head?, t.kind ≠ kind := by
  simp only [takeIf_eq_none, beq_eq_false_iff_ne]

theorem forall_head?_cons {P : Token → Prop} (h : P t) : ∀ u ∈ (t :: rest).head?, P u := by
  intro u hu
  rw [List.head?_cons, Option.mem_some_iff] at hu
  exact hu ▸ h

end TakeIf

namespace Parser

/-! ## Operands and operators -/

section Links

variable {rule : Nonterminal} {operand : Parser} {ts rest : List Token} {tree : Tree} {operator : Token} {fault : Fault}

theorem links_error (h : (operand.run ts).outcome = .error fault) :
    links rule operand ts = ⟨(operand.run ts).visits, (operand.run ts).rest, .error fault⟩ := by
  rw [links]
  split
  · next h' => cases h.symm.trans h'; rfl
  · next h' => cases h.symm.trans h'

/-- Behind an operand that no operator follows, a chain ends. -/
theorem links_last (h : (operand.run ts).outcome = .ok tree)
    (hnone : ∀ t ∈ (operand.run ts).rest.head?, rule.joins t.kind = false) :
    links rule operand ts = ⟨(operand.run ts).visits, (operand.run ts).rest, .ok [tree]⟩ := by
  rw [links]
  split
  · next h' => cases h.symm.trans h'
  · next h' =>
    cases h.symm.trans h'
    split
    · rfl
    · next hs => cases (takeIf_eq_none.mpr hnone).symm.trans hs

/-- Behind an operator a chain goes on. -/
theorem links_link (h : (operand.run ts).outcome = .ok tree) (hrest : (operand.run ts).rest = operator :: rest)
    (hfits : rule.joins operator.kind = true) :
    links rule operand ts = ⟨(operand.run ts).visits ++ (links rule operand rest).visits,
      (links rule operand rest).rest, (links rule operand rest).outcome.map (tree :: .literal operator :: ·)⟩ := by
  have htake := takeIf_eq_some.mpr ⟨hrest, hfits⟩
  rw [links]
  split
  · next h' => cases h.symm.trans h'
  · next h' =>
    cases h.symm.trans h'
    split
    · next hn => cases htake.symm.trans hn
    · next hs => cases htake.symm.trans hs; rfl

/-- What a chain can do: its first operand fails, or no operator follows, or it goes on behind an operator. -/
theorem links_cases (rule : Nonterminal) (operand : Parser) (ts : List Token) :
    (∃ fault, (operand.run ts).outcome = .error fault ∧
      links rule operand ts = ⟨(operand.run ts).visits, (operand.run ts).rest, .error fault⟩) ∨
    (∃ tree, (operand.run ts).outcome = .ok tree ∧ (∀ t ∈ (operand.run ts).rest.head?, rule.joins t.kind = false) ∧
      links rule operand ts = ⟨(operand.run ts).visits, (operand.run ts).rest, .ok [tree]⟩) ∨
    (∃ tree operator rest, (operand.run ts).outcome = .ok tree ∧ (operand.run ts).rest = operator :: rest ∧
      rule.joins operator.kind = true ∧
      links rule operand ts = ⟨(operand.run ts).visits ++ (links rule operand rest).visits,
        (links rule operand rest).rest,
        (links rule operand rest).outcome.map (tree :: .literal operator :: ·)⟩) := by
  cases h : (operand.run ts).outcome with
  | error fault => exact Or.inl ⟨fault, rfl, links_error h⟩
  | ok tree =>
    cases ht : takeIf rule.joins (operand.run ts).rest with
    | none => exact Or.inr (Or.inl ⟨tree, rfl, takeIf_eq_none.mp ht, links_last h (takeIf_eq_none.mp ht)⟩)
    | some taken =>
      obtain ⟨hrest, hfits⟩ := takeIf_eq_some.mp ht
      exact Or.inr (Or.inr ⟨tree, taken.1, taken.2, rfl, hrest, hfits, links_link h hrest hfits⟩)

end Links

/-! ## Groups -/

section Group

variable {inner : Parser} {bracket : Bracket} {opening closing : Token} {ts rest : List Token} {tree : Tree}
  {fault : Fault}

theorem group_error (h : (inner.run ts).outcome = .error fault) :
    group bracket opening inner ts = ⟨(inner.run ts).visits, (inner.run ts).rest, .error fault⟩ := by
  rw [group, Run.andThen, h]

theorem group_closed (h : (inner.run ts).outcome = .ok tree) (hrest : (inner.run ts).rest = closing :: rest)
    (hclosing : closing.kind = bracket.closing) :
    group bracket opening inner ts = ⟨(inner.run ts).visits, rest, .ok [.literal opening, tree, .literal closing]⟩ := by
  rw [group, Run.andThen, h]
  dsimp only
  rw [hrest, takeIf_kind hclosing]
  simp only [Run.done, List.append_nil]

/-- Any other token leaves a group unclosed. -/
theorem group_unclosed (h : (inner.run ts).outcome = .ok tree)
    (hrest : ∀ t ∈ (inner.run ts).rest.head?, t.kind ≠ bracket.closing) :
    group bracket opening inner ts =
      ⟨(inner.run ts).visits, (inner.run ts).rest, .error (.unclosed bracket opening)⟩ := by
  rw [group, Run.andThen, h]
  dsimp only
  rw [takeIf_kind_eq_none.mpr hrest]
  simp only [Run.fail, List.append_nil]

/-- What a group can do: its contents fail, or the closing bracket follows them, or another token does. -/
theorem group_cases (bracket : Bracket) (opening : Token) (inner : Parser) (ts : List Token) :
    (∃ fault, (inner.run ts).outcome = .error fault ∧
      group bracket opening inner ts = ⟨(inner.run ts).visits, (inner.run ts).rest, .error fault⟩) ∨
    (∃ tree closing rest, (inner.run ts).outcome = .ok tree ∧ (inner.run ts).rest = closing :: rest ∧
      closing.kind = bracket.closing ∧
      group bracket opening inner ts =
        ⟨(inner.run ts).visits, rest, .ok [.literal opening, tree, .literal closing]⟩) ∨
    (∃ tree, (inner.run ts).outcome = .ok tree ∧ (∀ t ∈ (inner.run ts).rest.head?, t.kind ≠ bracket.closing) ∧
      group bracket opening inner ts =
        ⟨(inner.run ts).visits, (inner.run ts).rest, .error (.unclosed bracket opening)⟩) := by
  cases h : (inner.run ts).outcome with
  | error fault => exact Or.inl ⟨fault, rfl, group_error h⟩
  | ok tree =>
    cases ht : takeIf (· == bracket.closing) (inner.run ts).rest with
    | none =>
      exact Or.inr (Or.inr ⟨tree, rfl, takeIf_kind_eq_none.mp ht, group_unclosed h (takeIf_kind_eq_none.mp ht)⟩)
    | some taken =>
      obtain ⟨hrest, hfits⟩ := takeIf_eq_some.mp ht
      have hclosing := beq_iff_eq.mp hfits
      exact Or.inr (Or.inl ⟨tree, taken.1, taken.2, rfl, hrest, hclosing, group_closed h hrest hclosing⟩)

end Group

/-! ## Factors -/

section Factor

variable {inner : Parser} {name opening : Token} {ts rest : List Token}

theorem factorParts_name (hname : name.kind = .identifier) (hrest : ∀ t ∈ rest.head?, t.kind ≠ .openSquare) :
    factorParts inner (name :: rest) = ⟨[], rest, .ok [.identifier name]⟩ := by
  have hnone : takeIf (· == Bracket.square.opening) rest = none := takeIf_kind_eq_none.mpr hrest
  rw [factorParts, takeIf_kind hname]
  dsimp only
  rw [hnone]
  rfl

theorem factorParts_access (hname : name.kind = .identifier) (hopening : opening.kind = .openSquare) :
    factorParts inner (name :: opening :: rest) =
      (group .square opening inner rest).map (.identifier name :: ·) := by
  have hsome : takeIf (· == Bracket.square.opening) (opening :: rest) = some (opening, rest) := takeIf_kind hopening
  rw [factorParts, takeIf_kind hname]
  dsimp only
  rw [hsome]

/-- An opening parenthesis begins a group. -/
theorem factorParts_parentheses (hopening : opening.kind = .openRound) :
    factorParts inner (opening :: rest) = group .round opening inner rest := by
  have hname : ∀ t ∈ (opening :: rest).head?, t.kind ≠ .identifier :=
    forall_head?_cons (hopening ▸ by decide)
  have hsome : takeIf (· == Bracket.round.opening) (opening :: rest) = some (opening, rest) := takeIf_kind hopening
  rw [factorParts, takeIf_kind_eq_none.mpr hname]
  dsimp only
  rw [hsome]

theorem factorParts_noOperand (h : ∀ t ∈ ts.head?, t.kind ≠ .identifier ∧ t.kind ≠ .openRound) :
    factorParts inner ts = ⟨[], ts, .error .noOperand⟩ := by
  have hopening : takeIf (· == Bracket.round.opening) ts = none := takeIf_kind_eq_none.mpr fun t ht => (h t ht).2
  rw [factorParts, takeIf_kind_eq_none.mpr fun t ht => (h t ht).1]
  dsimp only
  rw [hopening]
  rfl

/-- What a factor can do: a name stands alone, or the group of an array access follows it, or there is a group in
parentheses, or nothing that a factor begins with. -/
theorem factorParts_cases (inner : Parser) (ts : List Token) :
    (∃ name rest, ts = name :: rest ∧ name.kind = .identifier ∧ (∀ t ∈ rest.head?, t.kind ≠ .openSquare) ∧
      factorParts inner ts = ⟨[], rest, .ok [.identifier name]⟩) ∨
    (∃ name opening rest, ts = name :: opening :: rest ∧ name.kind = .identifier ∧ opening.kind = .openSquare ∧
      factorParts inner ts = (group .square opening inner rest).map (.identifier name :: ·)) ∨
    (∃ opening rest, ts = opening :: rest ∧ opening.kind = .openRound ∧
      factorParts inner ts = group .round opening inner rest) ∨
    ((∀ t ∈ ts.head?, t.kind ≠ .identifier ∧ t.kind ≠ .openRound) ∧
      factorParts inner ts = ⟨[], ts, .error .noOperand⟩) := by
  cases hn : takeIf (· == .identifier) ts with
  | some taken =>
    obtain ⟨name, rest⟩ := taken
    obtain ⟨rfl, hfits⟩ := takeIf_eq_some.mp hn
    have hname := beq_iff_eq.mp hfits
    cases ho : takeIf (· == .openSquare) rest with
    | some opened =>
      obtain ⟨opening, rest⟩ := opened
      obtain ⟨rfl, hfits⟩ := takeIf_eq_some.mp ho
      have hopening := beq_iff_eq.mp hfits
      exact Or.inr (Or.inl ⟨name, opening, rest, rfl, hname, hopening, factorParts_access hname hopening⟩)
    | none =>
      have hrest := takeIf_kind_eq_none.mp ho
      exact Or.inl ⟨name, rest, rfl, hname, hrest, factorParts_name hname hrest⟩
  | none =>
    cases ho : takeIf (· == .openRound) ts with
    | some opened =>
      obtain ⟨opening, rest⟩ := opened
      obtain ⟨rfl, hfits⟩ := takeIf_eq_some.mp ho
      have hopening := beq_iff_eq.mp hfits
      exact Or.inr (Or.inr (Or.inl ⟨opening, rest, rfl, hopening, factorParts_parentheses hopening⟩))
    | none =>
      have hts := fun t ht => And.intro (takeIf_kind_eq_none.mp hn t ht) (takeIf_kind_eq_none.mp ho t ht)
      exact Or.inr (Or.inr (Or.inr ⟨hts, factorParts_noOperand hts⟩))

end Factor

end Parser

end ArrayExpr
