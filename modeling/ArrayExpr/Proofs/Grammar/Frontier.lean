import ArrayExpr.Tree.Parser

/-!
# Frontiers

What may follow the first tokens of a program depends on two things only: which groups are open, and what stands last.
Together they are the `Frontier` behind these tokens. `Frontier.advance` passes one more token, if it may stand there
(`advance_eq_some_iff` lists the cases), and `Frontier.reach` passes any number. From every frontier the end of the
input can be reached: an operand is put in if one is missing, and all groups are closed (`reach_completion`).
-/

namespace ArrayExpr

/-- A group that is open: its pair of brackets, and the opening one of them. -/
structure OpenGroup where
  bracket : Bracket
  opening : Token
  kind_opening : opening.kind = bracket.opening

/-- A token of a kind, of which nothing else matters. -/
def Token.ofKind (kind : Kind) : Token := ⟨kind.spelling, kind, .nowhere⟩

/-- What stands last of some tokens. -/
inductive Edge where
  /-- Nothing, an operator or an opening bracket: an operand must follow. -/
  | gap
  /-- A name, which an array access may follow. -/
  | name
  /-- A closing bracket. -/
  | group
  deriving DecidableEq, Repr

/-- An operand stands last. -/
def Edge.isOperand : Edge → Bool
  | gap => false
  | name | group => true

/-- A token of the kind joins two operands. -/
def Kind.isOperator : Kind → Bool
  | plus | star | slash => true
  | _ => false

theorem Kind.eq_of_isOperator {kind : Kind} (h : kind.isOperator = true) :
    kind = .plus ∨ kind = .star ∨ kind = .slash := by
  cases kind <;> first | decide | cases h

/-- What the tokens passed leave open. -/
inductive Frontier where
  /-- Behind some tokens of an expression: the groups that are open, the innermost first, and what stands last. -/
  | within (groups : List OpenGroup) (edge : Edge)
  /-- Behind the end of the input. -/
  | finished

namespace Frontier

/-- Before the first token. -/
def start : Frontier := within [] .gap

/-- The frontier behind a token that follows an operand and does not access it. -/
def leave (groups : List OpenGroup) (t : Token) : Option Frontier :=
  if t.kind.isOperator then some (within groups .gap)
  else
    match groups with
    | [] => if t.isFinish then some finished else none
    | group :: outer => if t.kind = group.bracket.closing then some (within outer .group) else none

/-- The frontier behind one more token, if the token may stand there. -/
def advance : Frontier → Token → Option Frontier
  | within groups .gap, t =>
    if t.kind = .identifier then some (within groups .name)
    else if h : t.kind = .openRound then some (within (⟨.round, t, h⟩ :: groups) .gap)
    else none
  | within groups .name, t =>
    if h : t.kind = .openSquare then some (within (⟨.square, t, h⟩ :: groups) .gap) else leave groups t
  | within groups .group, t => leave groups t
  | finished, _ => none

/-- The frontier behind more tokens, if each of them may stand where it does. -/
def reach (f : Frontier) (ts : List Token) : Option Frontier := ts.foldlM advance f

/-! ## One token -/

/-- What one token can do. -/
inductive Step : Frontier → Token → Frontier → Prop
  | name {groups : List OpenGroup} {t : Token} : t.kind = .identifier →
      Step (within groups .gap) t (within groups .name)
  | parenthesis {groups : List OpenGroup} {t : Token} (h : t.kind = .openRound) :
      Step (within groups .gap) t (within (⟨.round, t, h⟩ :: groups) .gap)
  | access {groups : List OpenGroup} {t : Token} (h : t.kind = .openSquare) :
      Step (within groups .name) t (within (⟨.square, t, h⟩ :: groups) .gap)
  | operator {groups : List OpenGroup} {edge : Edge} {t : Token} : edge.isOperand = true → t.kind.isOperator = true →
      Step (within groups edge) t (within groups .gap)
  | closing {group : OpenGroup} {outer : List OpenGroup} {edge : Edge} {t : Token} : edge.isOperand = true →
      t.kind = group.bracket.closing → Step (within (group :: outer) edge) t (within outer .group)
  | finish {edge : Edge} {t : Token} : edge.isOperand = true → t.isFinish = true → Step (within [] edge) t finished

section OneToken

variable {groups outer : List OpenGroup} {group : OpenGroup} {edge : Edge} {t : Token} {f : Frontier}

theorem advance_of_isOperand (hedge : edge.isOperand = true) (h : t.kind ≠ .openSquare) :
    (within groups edge).advance t = leave groups t := by
  cases edge with
  | gap => cases hedge
  | name => rw [advance, dif_neg h]
  | group => rfl

theorem leave_operator (h : t.kind.isOperator = true) : leave groups t = some (within groups .gap) := if_pos h

theorem leave_closing (h : t.kind = group.bracket.closing) :
    leave (group :: outer) t = some (within outer .group) := by
  have hno : ¬ t.kind.isOperator = true := by
    rw [h]
    cases group.bracket <;> decide
  rw [leave, if_neg hno]
  exact if_pos h

theorem leave_finish (h : t.isFinish = true) : leave [] t = some finished := by
  have hno : t.kind.isOperator = false := by
    rw [beq_iff_eq.mp h]
    rfl
  simp [leave, hno, h]

/-- Nothing else may follow an operand. -/
theorem step_of_leave (hedge : edge.isOperand = true) (h : leave groups t = some f) :
    Step (within groups edge) t f := by
  unfold leave at h
  split at h
  · next ho =>
    cases h
    exact .operator hedge ho
  · split at h
    · split at h
      · next hfinish =>
        cases h
        exact .finish hedge hfinish
      · cases h
    · split at h
      · next hclosing =>
        cases h
        exact .closing hedge hclosing
      · cases h

/-- Every way to pass a token is one of the steps. -/
theorem step_of_advance {f f' : Frontier} (h : f.advance t = some f') : Step f t f' := by
  unfold advance at h
  split at h
  · split at h
    · next hname =>
      cases h
      exact .name hname
    · split at h
      · next hopening =>
        cases h
        exact .parenthesis hopening
      · cases h
  · split at h
    · next hopening =>
      cases h
      exact .access hopening
    · exact step_of_leave rfl h
  · exact step_of_leave rfl h
  · cases h

/-- One more token leads from one frontier to another exactly if it is one of the steps. -/
theorem advance_eq_some_iff {f f' : Frontier} : f.advance t = some f' ↔ Step f t f' := by
  refine ⟨step_of_advance, fun h => ?_⟩
  cases h with
  | name hname => simp [advance, hname]
  | parenthesis hopening => simp [advance, hopening]
  | access hopening => simp [advance, hopening]
  | operator hedge ho =>
    have hne : t.kind ≠ .openSquare := fun he => by simp [he, Kind.isOperator] at ho
    rw [advance_of_isOperand hedge hne, leave_operator ho]
  | @closing group outer edge _ hedge hclosing =>
    have hne : t.kind ≠ .openSquare := by
      rw [hclosing]
      cases group.bracket <;> decide
    rw [advance_of_isOperand hedge hne, leave_closing hclosing]
  | finish hedge hfinish =>
    have hne : t.kind ≠ .openSquare := fun he => by simp [Token.isFinish, he] at hfinish
    rw [advance_of_isOperand hedge hne, leave_finish hfinish]

end OneToken

/-! ## Many tokens -/

theorem reach_cons (f : Frontier) (t : Token) (ts : List Token) :
    f.reach (t :: ts) = (f.advance t).bind (·.reach ts) := List.foldlM_cons

theorem reach_append (f : Frontier) (ts us : List Token) : f.reach (ts ++ us) = (f.reach ts).bind (·.reach us) :=
  List.foldlM_append

theorem Step.reach_cons {f f' : Frontier} {t : Token} (h : Step f t f') (ts : List Token) :
    f.reach (t :: ts) = f'.reach ts := by
  rw [Frontier.reach_cons, advance_eq_some_iff.mpr h]
  rfl

theorem reach_append_of_eq {f f' : Frontier} {ts : List Token} (h : f.reach ts = some f') (us : List Token) :
    f.reach (ts ++ us) = f'.reach us := by
  rw [reach_append, h]
  rfl

theorem reach_append_eq_some_iff {f f' : Frontier} {ts us : List Token} :
    f.reach (ts ++ us) = some f' ↔ ∃ f'', f.reach ts = some f'' ∧ f''.reach us = some f' := by
  rw [reach_append, Option.bind_eq_some_iff]

theorem reach_cons_eq_some_iff {f f' : Frontier} {t : Token} {ts : List Token} :
    f.reach (t :: ts) = some f' ↔ ∃ f'', Step f t f'' ∧ f''.reach ts = some f' := by
  simp only [reach_cons, Option.bind_eq_some_iff, advance_eq_some_iff]

/-! ## The way to the end -/

/-- Tokens that close the groups, from the innermost to the outermost, and end the input. -/
def closings (groups : List OpenGroup) : List Token :=
  groups.map (fun group => Token.ofKind group.bracket.closing) ++ [Token.ofKind .finish]

/-- Tokens that lead to the end of the input. -/
def completion : Frontier → List Token
  | within groups .gap => Token.ofKind .identifier :: closings groups
  | within groups _ => closings groups
  | finished => []

theorem completion_within_ne_nil (groups : List OpenGroup) (edge : Edge) : (within groups edge).completion ≠ [] := by
  cases edge <;> simp [completion, closings]

/-- Behind an operand the groups can be closed. -/
theorem reach_closings {edge : Edge} (hedge : edge.isOperand = true) (groups : List OpenGroup) :
    (within groups edge).reach (closings groups) = some finished := by
  induction groups generalizing edge with
  | nil =>
    have hstep : Step (within [] edge) (Token.ofKind .finish) finished := .finish hedge rfl
    exact hstep.reach_cons []
  | cons group outer ih =>
    have hstep : Step (within (group :: outer) edge) (Token.ofKind group.bracket.closing) (within outer .group) :=
      .closing hedge rfl
    rw [closings, List.map_cons, List.cons_append, hstep.reach_cons]
    exact ih rfl

/-- From every frontier the end of the input can be reached. -/
theorem reach_completion (f : Frontier) : f.reach f.completion = some finished := by
  cases f with
  | finished => rfl
  | within groups edge =>
    cases edge with
    | gap =>
      have hstep : Step (within groups .gap) (Token.ofKind .identifier) (within groups .name) := .name rfl
      rw [completion, hstep.reach_cons]
      exact reach_closings rfl groups
    | name => exact reach_closings rfl groups
    | group => exact reach_closings rfl groups

end Frontier

end ArrayExpr
