import ArrayExpr.Proofs.Parser.Relabel
import ArrayExpr.Proofs.Span
import ArrayExpr.Proofs.Token.Cursor

/-!
# Relocated tokens

A `Relocation` replaces tokens by tokens of the same kinds that stand at other places, which move as their joins do. To
parse relocated tokens is to parse the tokens and to relocate the tree or the diagnostic (`Relocation.parse_map`). To
forget all places is such a relocation (`Relocation.unplaced`), so that sequences of the same contents are parsed to
trees and diagnostics that differ in places only.
-/

namespace ArrayExpr

open Token

/-- A change of tokens that keeps their kinds and moves their places, and joins of places with them. -/
structure Relocation where
  token : Token → Token
  move : Span → Span
  kind_token : ∀ t, (token t).kind = t.kind
  span_token : ∀ t, (token t).span = move t.span
  move_join : ∀ s s', move (s.join s') = (move s).join (move s')

/-- All places are forgotten. -/
def Relocation.unplaced : Relocation where
  token := Token.unplaced
  move _ := .nowhere
  kind_token := kind_unplaced
  span_token _ := rfl
  move_join _ _ := (Span.join_self _).symm

/-! ## Problems and diagnostics -/

/-- A problem with its token replaced. -/
def Problem.mapToken (f : Token → Token) : Problem → Problem
  | general => general
  | lexical => lexical
  | unexpectedCharacter char => unexpectedCharacter char
  | syntactic got => syntactic (f got)
  | unexpectedEnd got => unexpectedEnd (f got)
  | unexpectedToken got => unexpectedToken (f got)
  | expectedToken expected purpose got => expectedToken expected purpose (f got)
  | trailingTokens got => trailingTokens (f got)
  | nestingTooDeep got => nestingTooDeep (f got)

@[simp] theorem Problem.name_mapToken (f : Token → Token) (p : Problem) : (p.mapToken f).name = p.name := by
  cases p <;> rfl

@[simp] theorem Problem.got?_mapToken (f : Token → Token) (p : Problem) : (p.mapToken f).got? = p.got?.map f := by
  cases p <;> rfl

namespace Relocation

variable (ρ : Relocation) (program' : String)

/-- A diagnostic on relocated tokens of another program. -/
def diagnostic (d : Diagnostic) : Diagnostic :=
  { d with program := program', span := ρ.move d.span, problem := d.problem.mapToken ρ.token }

/-- A failure on relocated tokens of another program. -/
def failure : Failure → Failure
  | .unknownKind error => .unknownKind error
  | .unended => .unended
  | .lexical d => .lexical (ρ.diagnostic program' d)
  | .syntactic d => .syntactic (ρ.diagnostic program' d)

theorem isFinish_token (t : Token) : (ρ.token t).isFinish = t.isFinish := by
  rw [isFinish, isFinish, ρ.kind_token]

/-- A fault at a relocated token has the relocated diagnostic. -/
theorem diagnose_token (program : String) (fault : Fault) (got : Token) :
    (fault.mapToken ρ.token).diagnose program' (ρ.token got) = ρ.diagnostic program' (fault.diagnose program got) := by
  cases fault with
  | noOperand =>
    simp only [Fault.mapToken, Fault.diagnose, diagnostic, ρ.isFinish_token, ρ.span_token]
    cases got.isFinish <;> rfl
  | unclosed bracket opening =>
    simp only [Fault.mapToken, Fault.diagnose, diagnostic, Diagnostic.missingToken, ρ.span_token, ρ.move_join]
    rfl
  | tooDeep =>
    simp only [Fault.mapToken, Fault.diagnose, diagnostic, ρ.span_token]
    rfl

/-- The verdict on a run over relocated tokens. -/
theorem verdict_mapTokens (program : String) (finish : Token) (r : Run Tree) :
    (r.mapTokens ρ.token (Tree.mapTokens ρ.token)).verdict program' (ρ.token finish) =
      ((r.verdict program finish).mapError (ρ.diagnostic program')).map (Tree.mapTokens ρ.token) := by
  have hgot : (r.rest.map ρ.token).head?.getD (ρ.token finish) = ρ.token (r.rest.head?.getD finish) := by
    rw [List.head?_map, Option.getD_map]
  unfold Run.verdict Run.mapTokens
  dsimp only
  rw [hgot]
  cases r.outcome with
  | error fault => exact congrArg Except.error (ρ.diagnose_token program' program fault _)
  | ok t =>
    cases r.rest with
    | nil => rfl
    | cons got rest =>
      simp only [mapOutcome, ρ.span_token]
      rfl

/-! ## Sequences -/

theorem ended_map (tokens : List Token) : Ended (tokens.map ρ.token) ↔ Ended tokens := by
  simp [Ended, List.getLast?_map, ρ.isFinish_token]

theorem body_map (tokens : List Token) : body (tokens.map ρ.token) = (body tokens).map ρ.token := by
  simp only [body, List.takeWhile_map, Function.comp_def, ρ.isFinish_token]

theorem find?_isFinish_map (tokens : List Token) :
    (tokens.map ρ.token).find? (·.isFinish) = (tokens.find? (·.isFinish)).map ρ.token := by
  simp only [List.find?_map, Function.comp_def, ρ.isFinish_token]

/-- **To parse relocated tokens is to relocate what parsing gives.** -/
theorem parse_map (tokens : List Token) (program : String) (limit : Nat) :
    parse (tokens.map ρ.token) program' limit =
      ((parse tokens program limit).mapError (ρ.failure program')).map (Tree.mapTokens ρ.token) := by
  by_cases hended : Ended tokens
  · obtain ⟨finish, hfinish, hparse⟩ := parse_of_ended hended
    obtain ⟨finish', hfinish', hparse'⟩ := parse_of_ended ((ρ.ended_map tokens).mpr hended)
    rw [ρ.find?_isFinish_map, hfinish, Option.map_some, Option.some.injEq] at hfinish'
    rw [hparse, hparse', ρ.body_map, ← hfinish', Parser.natural_ofRule ρ.kind_token limit .expression,
      ρ.verdict_mapTokens program' program]
    cases ((Parser.ofRule limit .expression).run (body tokens)).verdict program finish <;> rfl
  · rw [parse_of_not_ended hended, parse_of_not_ended (mt (ρ.ended_map tokens).mp hended)]
    rfl

end Relocation

end ArrayExpr
