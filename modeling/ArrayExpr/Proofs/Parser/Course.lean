import ArrayExpr.Proofs.Grammar.Derivation
import ArrayExpr.Proofs.Parser.Unbounded
import ArrayExpr.Proofs.Token.Steps

/-!
# Reading step by step

A parser goes over a list of tokens, and a cursor is then put where the parser stopped. A `Course` takes the same way
one step after the other: a rule accepts a token, looks back at it, and expects a closing bracket. Every reading has a
course that ends at the same cursor with the same result (`exists_course`). In every course a rule looks back only at
the token that it has just accepted (`Course.looksBack`, `LooksBack.exists_accept`).
-/

namespace ArrayExpr

open Cursor

/-- The rule of the operands that a rule joins. -/
def Nonterminal.operand? : Nonterminal → Option Nonterminal
  | .expression => some .term
  | .term => some .factor
  | .factor => none

/-- What is to be read at a cursor: the node of a rule, the parts of that node, or the rest of a group behind its
opening bracket. -/
inductive Task where
  | node (rule : Nonterminal)
  | parts (rule : Nonterminal)
  | group (bracket : Bracket) (opening : Token)

/-- **How the rules read**: the steps taken from one cursor to another, and the result. So many groups may be opened. -/
inductive Course (program : String) : Nat → Task → Cursor → List Step → Cursor → Except Diagnostic (List Tree) → Prop
  /-- A node holds its parts. -/
  | node {limit : Nat} {rule : Nonterminal} {c c' : Cursor} {steps : List Step}
      {result : Except Diagnostic (List Tree)} :
      Course program limit (.parts rule) c steps c' result →
      Course program limit (.node rule) c steps c' (result.map fun parts => [.branch rule parts])
  /-- An operand fails, and the rule with it. -/
  | operandFails {limit : Nat} {rule operand : Nonterminal} {c c' : Cursor} {steps : List Step} {d : Diagnostic} :
      rule.operand? = some operand → Course program limit (.node operand) c steps c' (.error d) →
      Course program limit (.parts rule) c steps c' (.error d)
  /-- No operator is accepted behind an operand. -/
  | last {limit : Nat} {rule operand : Nonterminal} {c c' : Cursor} {steps : List Step} {tree : Tree} :
      rule.operand? = some operand → Course program limit (.node operand) c steps c' (.ok [tree]) →
      c'.accept rule.operators = (false, c') →
      Course program limit (.parts rule) c (steps ++ [.accept rule.operators]) c' (.ok [tree])
  /-- An operator is accepted behind an operand, and the rule goes on. -/
  | link {limit : Nat} {rule operand : Nonterminal} {c c₁ c₂ c' : Cursor} {steps steps' : List Step} {tree : Tree}
      {result : Except Diagnostic (List Tree)} :
      rule.operand? = some operand → Course program limit (.node operand) c steps c₁ (.ok [tree]) →
      c₁.accept rule.operators = (true, c₂) → Course program limit (.parts rule) c₂ steps' c' result →
      Course program limit (.parts rule) c (steps ++ .accept rule.operators :: .previous :: steps') c'
        (result.map (tree :: .literal c₂.previous :: ·))
  /-- A name is accepted, and no array access behind it. -/
  | name {limit : Nat} {c c₁ : Cursor} :
      c.accept [.identifier] = (true, c₁) → c₁.accept [.openSquare] = (false, c₁) →
      Course program limit (.parts .factor) c [.accept [.identifier], .previous, .accept [.openSquare]] c₁
        (.ok [.identifier c₁.previous])
  /-- A name is accepted, and an array access behind it. -/
  | access {limit : Nat} {c c₁ c₂ c' : Cursor} {steps : List Step} {result : Except Diagnostic (List Tree)} :
      c.accept [.identifier] = (true, c₁) → c₁.accept [.openSquare] = (true, c₂) →
      Course program limit (.group .square c₂.previous) c₂ steps c' result →
      Course program limit (.parts .factor) c
        (.accept [.identifier] :: .previous :: .accept [.openSquare] :: .previous :: steps) c'
        (result.map (.identifier c₁.previous :: ·))
  /-- No name is accepted, but an opening parenthesis. -/
  | parentheses {limit : Nat} {c c₁ c' : Cursor} {steps : List Step} {result : Except Diagnostic (List Tree)} :
      c.accept [.identifier] = (false, c) → c.accept [.openRound] = (true, c₁) →
      Course program limit (.group .round c₁.previous) c₁ steps c' result →
      Course program limit (.parts .factor) c (.accept [.identifier] :: .accept [.openRound] :: .previous :: steps) c'
        result
  /-- Neither is accepted. -/
  | noOperand {limit : Nat} {c : Cursor} :
      c.accept [.identifier] = (false, c) → c.accept [.openRound] = (false, c) →
      Course program limit (.parts .factor) c [.accept [.identifier], .accept [.openRound], .peek, .isAtEnd] c
        (.error { program, span := c.peek.span
                  problem := if c.isAtEnd then .unexpectedEnd c.peek else .unexpectedToken c.peek })
  /-- No group may be opened. -/
  | tooDeep {bracket : Bracket} {opening : Token} {c : Cursor} :
      Course program 0 (.group bracket opening) c [.peek] c
        (.error { program, span := c.peek.span, problem := .nestingTooDeep c.peek })
  /-- The contents of a group fail, and the group with them. -/
  | contentsFail {limit : Nat} {bracket : Bracket} {opening : Token} {c c' : Cursor} {steps : List Step}
      {d : Diagnostic} :
      Course program limit (.node .expression) c steps c' (.error d) →
      Course program (limit + 1) (.group bracket opening) c steps c' (.error d)
  /-- The closing bracket is expected behind the contents and found. -/
  | closed {limit : Nat} {bracket : Bracket} {opening closing : Token} {c c₁ c' : Cursor} {steps : List Step}
      {tree : Tree} :
      Course program limit (.node .expression) c steps c₁ (.ok [tree]) →
      c₁.expect program bracket.closing bracket.purpose (some opening) = (.ok closing, c') →
      Course program (limit + 1) (.group bracket opening) c
        (steps ++ [.expect bracket.closing bracket.purpose (some opening)]) c'
        (.ok [.literal opening, tree, .literal closing])
  /-- The closing bracket is expected and not found. -/
  | unclosed {limit : Nat} {bracket : Bracket} {opening : Token} {c c₁ : Cursor} {steps : List Step} {tree : Tree}
      {d : Diagnostic} :
      Course program limit (.node .expression) c steps c₁ (.ok [tree]) →
      c₁.expect program bracket.closing bracket.purpose (some opening) = (.error d, c₁) →
      Course program (limit + 1) (.group bracket opening) c
        (steps ++ [.expect bracket.closing bracket.purpose (some opening)]) c₁ (.error d)

/-! ## Cursors put further on -/

namespace Cursor

variable {c : Cursor} {t : Token} {rest rest' : List Token} {kinds : List Kind} {kind : Kind}

/-- The cursor at the first of the tokens that are left. -/
def upTo (c : Cursor) (rest : List Token) : Cursor := c.forward (c.ahead.length - rest.length)

theorem ahead_upTo (h : rest <:+ c.ahead) : (c.upTo rest).ahead = rest := c.ahead_forward h

theorem upTo_ahead (c : Cursor) : c.upTo c.ahead = c := by rw [upTo, Nat.sub_self, forward_zero]

theorem upTo_upTo (h : rest <:+ c.ahead) (h' : rest' <:+ rest) : (c.upTo rest).upTo rest' = c.upTo rest' := by
  have hlength := h.length_le
  have hlength' := h'.length_le
  rw [upTo, ahead_upTo h, upTo, forward_forward, upTo]
  congr 1
  omega

theorem upTo_tail (h : c.ahead = t :: rest) : c.upTo rest = c.forward 1 := by simp [upTo, h]

theorem previous_upTo (h : c.ahead = t :: rest) : (c.upTo rest).previous = t := by
  rw [upTo_tail h]
  simp [previous, forward, h]

theorem check_cons (h : c.ahead = t :: rest) : c.check kind = (t.kind == kind) := by simp [check, h]

theorem accept_of_mem (h : c.ahead = t :: rest) (hkind : t.kind ∈ kinds) : c.accept kinds = (true, c.upTo rest) := by
  have hany : kinds.any c.check = true := List.any_eq_true.mpr ⟨t.kind, hkind, by simp [check_cons h]⟩
  rw [accept, if_pos hany, upTo_tail h]

/-- No other token is. -/
theorem accept_of_forall (h : ∀ t ∈ c.ahead.head?, t.kind ∉ kinds) : c.accept kinds = (false, c) := by
  have hany : ¬ kinds.any c.check = true := by
    intro hany
    obtain ⟨kind, hkind, hcheck⟩ := List.any_eq_true.mp hany
    cases hahead : c.ahead with
    | nil => simp [check, hahead] at hcheck
    | cons t rest =>
      rw [check_cons hahead, beq_iff_eq] at hcheck
      exact h t (by simp [hahead]) (hcheck ▸ hkind)
  rw [accept, if_neg hany]

theorem expect_of_kind (h : c.ahead = t :: rest) (hkind : t.kind = kind) (program purpose : String)
    (opening : Option Token) : c.expect program kind purpose opening = (.ok t, c.upTo rest) := by
  have hcheck : c.check kind = true := by simp [check_cons h, hkind]
  rw [expect, if_pos hcheck, upTo_tail h]
  simp [peek, h]

/-- Any other token is a failure. -/
theorem expect_of_forall (h : ∀ t ∈ c.ahead.head?, t.kind ≠ kind) (program purpose : String)
    (opening : Option Token) :
    c.expect program kind purpose opening = (.error (.missingToken program kind purpose opening c.peek), c) := by
  have hcheck : ¬ c.check kind = true := by
    cases hahead : c.ahead with
    | nil => simp [check, hahead]
    | cons t rest => simpa [check_cons hahead] using h t (by simp [hahead])
  rw [expect, if_neg hcheck]

theorem isFinish_peek (c : Cursor) : c.peek.isFinish = c.isAtEnd := by
  unfold peek isAtEnd
  cases hahead : c.ahead with
  | nil => exact c.finish_isFinish
  | cons t rest => exact c.ahead_not_finish t (by simp [hahead])

/-- An accepted token is the one behind which the cursor stands then. -/
theorem previous_of_accept {c' : Cursor} (h : c.accept kinds = (true, c')) :
    c'.position = c.position + 1 ∧ c'.previous = c.peek := by
  by_cases hany : kinds.any c.check = true
  · rw [accept, if_pos hany] at h
    cases h
    obtain ⟨kind, _, hcheck⟩ := List.any_eq_true.mp hany
    have hend : c.isAtEnd = false := by
      cases hend : c.isAtEnd with
      | false => rfl
      | true => exact absurd hcheck (by simp [check_of_isAtEnd hend])
    have hpassed := c.passed_forward_one hend
    rw [position, previous, hpassed]
    exact ⟨rfl, rfl⟩
  · rw [accept, if_neg hany] at h
    cases h

end Cursor

/-! ## Courses of all readings -/

theorem map_map_except {x : Except ε α} (f : α → β) (g : β → γ) : (x.map f).map g = x.map (g ∘ f) := by
  cases x <;> rfl

theorem mapError_map_except {x : Except ε α} (f : α → β) (g : ε → ε') :
    (x.map f).mapError g = (x.mapError g).map f := by
  cases x <;> rfl

/-- The run over what lies ahead of a cursor comes of a course. -/
def Run.InSteps (r : Run (List Tree)) (program : String) (limit : Nat) (task : Task) (c : Cursor) : Prop :=
  ∃ steps, Course program limit task c steps (c.upTo r.rest)
    (r.outcome.mapError (Fault.diagnose program (c.upTo r.rest).peek))

/-- A run that fails where it begins. -/
theorem Run.InSteps.of_fail {program : String} {limit : Nat} {task : Task} {c : Cursor} {steps : List Step}
    {visits : List Visit} {fault : Fault}
    (h : Course program limit task c steps c (.error (fault.diagnose program c.peek))) :
    Run.InSteps ⟨visits, c.ahead, .error fault⟩ program limit task c := by
  refine ⟨steps, ?_⟩
  show Course program limit task c steps (c.upTo c.ahead) (.error (fault.diagnose program (c.upTo c.ahead).peek))
  rw [c.upTo_ahead]
  exact h

namespace Parser

section Constructs

variable {program : String} {limit : Nat} {inner : Parser}

/-- Operands and operators are read step by step if the operands are. By induction on the number of tokens. -/
theorem links_inSteps {rule operandRule : Nonterminal} {operand : Parser} (hrule : rule.operand? = some operandRule)
    (h : ∀ c, ((operand.run c.ahead).map ([·])).InSteps program limit (.node operandRule) c) (c : Cursor) :
    (links rule operand c.ahead).InSteps program limit (.parts rule) c := by
  induction hlength : c.ahead.length using Nat.strongRecOn generalizing c with
  | _ length ih =>
    obtain ⟨steps, hcourse⟩ := h c
    have hsuffix := operand.rest_suffix c.ahead
    have hahead := c.ahead_upTo hsuffix
    rcases links_cases rule operand c.ahead with
      ⟨fault, hfault, hlinks⟩ | ⟨tree, hok, hnone, hlinks⟩ | ⟨tree, operator, rest, hok, hrest, hfits, hlinks⟩
    · simp only [Run.map, hfault] at hcourse
      rw [hlinks]
      exact ⟨steps, .operandFails hrule hcourse⟩
    · simp only [Run.map, hok] at hcourse
      have haccept : (c.upTo (operand.run c.ahead).rest).accept rule.operators =
          (false, c.upTo (operand.run c.ahead).rest) := by
        refine accept_of_forall fun t ht hkind => ?_
        rw [hahead] at ht
        exact Bool.false_ne_true ((hnone t ht).symm.trans ((rule.joins_iff _).mpr hkind))
      rw [hlinks]
      exact ⟨_, .last hrule hcourse haccept⟩
    · simp only [Run.map, hok, hrest] at hcourse hahead
      rw [hrest] at hsuffix
      have htail : rest <:+ c.ahead := (List.suffix_cons _ _).trans hsuffix
      have haccept : (c.upTo (operator :: rest)).accept rule.operators = (true, c.upTo rest) := by
        rw [accept_of_mem hahead ((rule.joins_iff _).mp hfits), upTo_upTo hsuffix (List.suffix_cons _ _)]
      have hprevious : (c.upTo rest).previous = operator := by
        rw [← upTo_upTo hsuffix (List.suffix_cons _ _), previous_upTo hahead]
      have hshorter : (c.upTo rest).ahead.length < length := by
        rw [c.ahead_upTo htail, ← hlength]
        exact operand.lt_of_link hok (takeIf_eq_some.mpr ⟨hrest, hfits⟩)
      obtain ⟨steps', hothers⟩ := ih _ hshorter (c.upTo rest) rfl
      rw [c.ahead_upTo htail, upTo_upTo htail (links_suffix rule operand rest)] at hothers
      have hall := Course.link hrule hcourse haccept hothers
      rw [hprevious, ← mapError_map_except] at hall
      rw [hlinks]
      exact ⟨_, hall⟩

/-- The rest of a group is read step by step if its contents are. -/
theorem group_inSteps (h : ∀ c, ((inner.run c.ahead).map ([·])).InSteps program limit (.node .expression) c)
    (bracket : Bracket) (opening : Token) (c : Cursor) :
    (group bracket opening inner c.ahead).InSteps program (limit + 1) (.group bracket opening) c := by
  obtain ⟨steps, hcourse⟩ := h c
  have hsuffix := inner.rest_suffix c.ahead
  have hahead := c.ahead_upTo hsuffix
  rcases group_cases bracket opening inner c.ahead with
    ⟨fault, hfault, hg⟩ | ⟨tree, closing, rest, hok, hrest, hclosing, hg⟩ | ⟨tree, hok, hnone, hg⟩
  · simp only [Run.map, hfault] at hcourse
    rw [hg]
    exact ⟨steps, .contentsFail hcourse⟩
  · simp only [Run.map, hok, hrest] at hcourse hahead
    rw [hrest] at hsuffix
    have hexpect := expect_of_kind hahead hclosing program bracket.purpose (some opening)
    rw [upTo_upTo hsuffix (List.suffix_cons _ _)] at hexpect
    rw [hg]
    exact ⟨_, .closed hcourse hexpect⟩
  · simp only [Run.map, hok] at hcourse
    rw [← hahead] at hnone
    have hexpect := expect_of_forall hnone program bracket.purpose (some opening)
    rw [hg]
    exact ⟨_, .unclosed hcourse hexpect⟩

/-- The parts of a factor are read step by step if groups are. -/
theorem factorParts_inSteps
    (h : ∀ bracket opening c, (group bracket opening inner c.ahead).InSteps program limit (.group bracket opening) c)
    (c : Cursor) : (factorParts inner c.ahead).InSteps program limit (.parts .factor) c := by
  rcases factorParts_cases inner c.ahead with
    ⟨name, rest, hts, hname, hrest, hf⟩ | ⟨name, opening, rest, hts, hname, hopening, hf⟩ |
      ⟨opening, rest, hts, hopening, hf⟩ | ⟨hnone, hf⟩
  · have hsuffix : rest <:+ c.ahead := hts ▸ List.suffix_cons _ _
    have haccept := accept_of_mem hts (List.mem_singleton.mpr hname)
    have hnone : (c.upTo rest).accept [.openSquare] = (false, c.upTo rest) := by
      refine accept_of_forall fun t ht hkind => ?_
      rw [c.ahead_upTo hsuffix] at ht
      exact hrest t ht (List.mem_singleton.mp hkind)
    have hall : Course program limit (.parts .factor) c _ _ _ := .name haccept hnone
    rw [previous_upTo hts] at hall
    rw [hf]
    exact ⟨_, hall⟩
  · have hsuffix : opening :: rest <:+ c.ahead := hts ▸ List.suffix_cons _ _
    have htail : rest <:+ c.ahead := (List.suffix_cons _ _).trans hsuffix
    have haccept := accept_of_mem hts (List.mem_singleton.mpr hname)
    have hahead := c.ahead_upTo hsuffix
    have haccept' := accept_of_mem hahead (List.mem_singleton.mpr hopening)
    have hprevious := previous_upTo hahead
    rw [upTo_upTo hsuffix (List.suffix_cons _ _)] at haccept' hprevious
    obtain ⟨steps, hgroup⟩ := h .square opening (c.upTo rest)
    rw [c.ahead_upTo htail, upTo_upTo htail (group_suffix ..), ← hprevious] at hgroup
    have hall := Course.access haccept haccept' hgroup
    rw [previous_upTo hts, hprevious, ← mapError_map_except] at hall
    rw [hf]
    exact ⟨_, hall⟩
  · have htail : rest <:+ c.ahead := hts ▸ List.suffix_cons _ _
    have hnone : c.accept [.identifier] = (false, c) := by
      refine accept_of_forall fun t ht hkind => ?_
      rw [hts] at ht
      cases ht
      exact absurd (hopening.symm.trans (List.mem_singleton.mp hkind)) (by decide)
    have haccept := accept_of_mem hts (List.mem_singleton.mpr hopening)
    have hprevious := previous_upTo hts
    obtain ⟨steps, hgroup⟩ := h .round opening (c.upTo rest)
    rw [c.ahead_upTo htail, upTo_upTo htail (group_suffix ..), ← hprevious] at hgroup
    have hall := Course.parentheses hnone haccept hgroup
    rw [hprevious] at hall
    rw [hf]
    exact ⟨_, hall⟩
  · have hname : c.accept [.identifier] = (false, c) :=
      accept_of_forall fun t ht hkind => (hnone t ht).1 (List.mem_singleton.mp hkind)
    have hopening : c.accept [.openRound] = (false, c) :=
      accept_of_forall fun t ht hkind => (hnone t ht).2 (List.mem_singleton.mp hkind)
    have hall : Course program limit (.parts .factor) c _ _ _ := .noOperand hname hopening
    rw [← c.isFinish_peek] at hall
    rw [hf]
    exact .of_fail hall

/-- A node is read step by step if its parts are. -/
theorem enter_inSteps {rule : Nonterminal} {r : Run (List Tree)} {ts : List Token} {c : Cursor}
    (h : r.InSteps program limit (.parts rule) c) :
    ((r.enter rule ts).map ([·])).InSteps program limit (.node rule) c := by
  obtain ⟨steps, hcourse⟩ := h
  refine ⟨steps, ?_⟩
  have hnode := Course.node hcourse
  rw [← mapError_map_except] at hnode
  simp only [Run.map, Run.enter, map_map_except]
  exact hnode

/-- Every rule is read step by step if groups are. -/
theorem byRule_inSteps
    (h : ∀ bracket opening c, (group bracket opening inner c.ahead).InSteps program limit (.group bracket opening) c)
    (rule : Nonterminal) (c : Cursor) : (((byRule inner rule).run c.ahead).map ([·])).InSteps program limit (.node rule)
      c := by
  have hfactor : ∀ c, (((factor inner).run c.ahead).map ([·])).InSteps program limit (.node .factor) c :=
    fun c => enter_inSteps (factorParts_inSteps h c)
  have hterm : ∀ c, (((term inner).run c.ahead).map ([·])).InSteps program limit (.node .term) c :=
    fun c => enter_inSteps (links_inSteps rfl hfactor c)
  cases rule with
  | expression => exact enter_inSteps (links_inSteps rfl hterm c)
  | term => exact hterm c
  | factor => exact hfactor c

end Constructs

/-- Every reading takes its course. By induction on the number of groups that may be opened. -/
theorem nested_inSteps (program : String) : ∀ (limit : Nat) (bracket : Bracket) (opening : Token) (c : Cursor),
    (group bracket opening (nested limit) c.ahead).InSteps program limit (.group bracket opening) c
  | 0, bracket, opening, c => by
    rw [group_error rfl]
    exact .of_fail .tooDeep
  | limit + 1, bracket, opening, c =>
    group_inSteps (byRule_inSteps (nested_inSteps program limit) .expression) bracket opening c

end Parser

/-- What is read at a cursor is read step by step: up to the same cursor, and with the same result. -/
theorem exists_course (program : String) (limit : Nat) (rule : Nonterminal) (c : Cursor) : ∃ steps,
    Course program limit (.node rule) c steps (c.read program (Parser.ofRule limit rule)).2
      ((c.read program (Parser.ofRule limit rule)).1.result.map ([·])) := by
  obtain ⟨steps, hcourse⟩ := Parser.byRule_inSteps (Parser.nested_inSteps program limit) rule c
  rw [← Parser.ofRule_eq_byRule] at hcourse
  refine ⟨steps, ?_⟩
  simp only [Run.map, mapError_map_except] at hcourse
  exact hcourse

/-! ## Looking back -/

/-- Whenever the steps look back, they have just accepted a token. Steps that read may open so many groups. -/
inductive LooksBack (program : String) (bound : Nat) : Cursor → List Step → Prop
  | nil {c : Cursor} : LooksBack program bound c []
  | other {c : Cursor} {step : Step} {steps : List Step} : step ≠ .previous →
      LooksBack program bound (c.perform program step bound).2 steps → LooksBack program bound c (step :: steps)
  | accepted {c c' : Cursor} {kinds : List Kind} {steps : List Step} : c.accept kinds = (true, c') →
      LooksBack program bound c' steps → LooksBack program bound c (.accept kinds :: .previous :: steps)

section LookingBack

variable {program : String} {limit bound : Nat} {task : Task} {c c' : Cursor} {steps steps' : List Step}
  {result : Except Diagnostic (List Tree)}

theorem Cursor.after_append (c : Cursor) (steps steps' : List Step) :
    c.after program (steps ++ steps') bound = (c.after program steps bound).after program steps' bound :=
  List.foldl_append

theorem Cursor.after_accept {kinds : List Kind} {found : Bool} (h : c.accept kinds = (found, c')) :
    c.after program (.accept kinds :: steps) bound = c'.after program steps bound := by
  rw [after, List.foldl_cons, perform, h]
  rfl

theorem Cursor.after_previous : c.after program (.previous :: steps) bound = c.after program steps bound := rfl

theorem Cursor.after_expect {kind : Kind} {purpose : String} {opening : Option Token} {x : Except Diagnostic Token}
    (h : c.expect program kind purpose opening = (x, c')) :
    c.after program (.expect kind purpose opening :: steps) bound = c'.after program steps bound := by
  rw [after, List.foldl_cons, perform, h]
  rfl

/-- Steps that look back as they should follow each other. -/
theorem LooksBack.append (h : LooksBack program bound c steps)
    (h' : LooksBack program bound (c.after program steps bound) steps') :
    LooksBack program bound c (steps ++ steps') := by
  induction h with
  | nil => exact h'
  | other hstep _ ih => exact .other hstep (ih h')
  | accepted haccept _ ih =>
    rw [after_accept haccept, after_previous] at h'
    exact .accepted haccept (ih h')

/-- A look back follows an accepted token. -/
theorem LooksBack.exists_accept {rest : List Step} (h : LooksBack program bound c (steps ++ .previous :: rest)) :
    ∃ before kinds, steps = before ++ [.accept kinds] ∧
      (c.after program before bound).accept kinds = (true, c.after program steps bound) := by
  generalize hall : steps ++ .previous :: rest = all at h
  induction h generalizing steps with
  | nil => exact absurd hall (by simp)
  | other hstep _ ih =>
    cases steps with
    | nil => exact absurd (List.cons.inj hall).1.symm hstep
    | cons first steps =>
      obtain ⟨rfl, hrest⟩ := List.cons.inj hall
      obtain ⟨before, kinds, rfl, haccept⟩ := ih hrest
      exact ⟨first :: before, kinds, rfl, haccept⟩
  | @accepted c c' kinds _ haccept _ ih =>
    cases steps with
    | nil => cases hall
    | cons first steps =>
      obtain ⟨rfl, hrest⟩ := List.cons.inj hall
      cases steps with
      | nil =>
        refine ⟨[], kinds, rfl, ?_⟩
        rw [after_accept haccept]
        exact haccept
      | cons second steps =>
        obtain ⟨rfl, hrest'⟩ := List.cons.inj hrest
        obtain ⟨before, kinds', rfl, haccept'⟩ := ih hrest'
        refine ⟨.accept kinds :: .previous :: before, kinds', rfl, ?_⟩
        rw [after_accept haccept, after_accept haccept, after_previous, after_previous]
        exact haccept'

namespace Course

/-- A course ends where its steps lead. -/
theorem after_eq (h : Course program limit task c steps c' result) : c.after program steps bound = c' := by
  induction h with
  | node _ ih => exact ih
  | operandFails _ _ ih => exact ih
  | last _ _ hnone ih => rw [after_append, ih, after_accept hnone, after, List.foldl_nil]
  | link _ _ haccept _ ih ih' => rw [after_append, ih, after_accept haccept, after_previous, ih']
  | name haccept hnone => rw [after_accept haccept, after_previous, after_accept hnone, after, List.foldl_nil]
  | access haccept haccept' _ ih =>
    rw [after_accept haccept, after_previous, after_accept haccept', after_previous, ih]
  | parentheses hnone haccept _ ih => rw [after_accept hnone, after_accept haccept, after_previous, ih]
  | noOperand hnone hnone' =>
    rw [after_accept hnone, after_accept hnone']
    rfl
  | tooDeep => rfl
  | contentsFail _ ih => exact ih
  | closed _ hexpect ih => rw [after_append, ih, after_expect hexpect, after, List.foldl_nil]
  | unclosed _ hexpect ih => rw [after_append, ih, after_expect hexpect, after, List.foldl_nil]

/-- **The rules look back only at what they have just accepted.** -/
theorem looksBack (h : Course program limit task c steps c' result) : LooksBack program bound c steps := by
  induction h with
  | node _ ih => exact ih
  | operandFails _ _ ih => exact ih
  | last _ hcourse _ ih => exact ih.append (.other (by simp) .nil)
  | link _ hcourse haccept _ ih ih' => exact ih.append (hcourse.after_eq ▸ .accepted haccept ih')
  | name haccept _ => exact .accepted haccept (.other (by simp) .nil)
  | access haccept haccept' _ ih => exact .accepted haccept (.accepted haccept' ih)
  | parentheses hnone haccept _ ih =>
    refine .other (by simp) ?_
    rw [perform, hnone]
    exact .accepted haccept ih
  | noOperand => exact .other (by simp) (.other (by simp) (.other (by simp) (.other (by simp) .nil)))
  | tooDeep => exact .other (by simp) .nil
  | contentsFail _ ih => exact ih
  | closed _ _ ih => exact ih.append (.other (by simp) .nil)
  | unclosed _ _ ih => exact ih.append (.other (by simp) .nil)

end Course

end LookingBack

end ArrayExpr
