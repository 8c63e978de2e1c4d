import ArrayExpr.Diagnostic.Basic

/-!
# Cursors over tokens

A `Cursor` stands in a sequence of tokens and moves forward only. It divides the sequence into the tokens that it has
passed, those ahead, and the first end token, which it never passes; what stands beyond that token is kept, but only
the last token of the sequence is ever asked for. `ofTokens` puts a cursor before the first token of a sequence that
ends in an end token.
-/

namespace ArrayExpr

/-- A place in a sequence of tokens. -/
structure Cursor where
  /-- The tokens before the cursor, the latest first. -/
  passed : List Token
  /-- The tokens from the cursor up to the first end token. -/
  ahead : List Token
  /-- The first end token. -/
  finish : Token
  /-- The tokens after the first end token. -/
  beyond : List Token
  ahead_not_finish : ∀ t ∈ ahead, t.isFinish = false
  finish_isFinish : finish.isFinish = true

namespace Cursor

/-- The start of a sequence, or nothing if the sequence does not end in an end token. -/
def ofTokens (tokens : List Token) : Option Cursor :=
  let ahead := tokens.takeWhile (!·.isFinish)
  match h : tokens.dropWhile (!·.isFinish) with
  | [] => none
  | finish :: beyond =>
    if (beyond.getLastD finish).isFinish then
      some {
        passed := [], ahead, finish, beyond
        ahead_not_finish := fun t ht => by simpa using List.all_eq_true.mp List.all_takeWhile t ht
        finish_isFinish := by simpa [h] using List.head?_dropWhile_not (!·.isFinish) tokens }
    else none

/-- The sequence that the cursor stands in. -/
def tokens (c : Cursor) : List Token := c.passed.reverse ++ c.ahead ++ c.finish :: c.beyond

/-- The number of tokens before the cursor. -/
def position (c : Cursor) : Nat := c.passed.length

/-- The token at the cursor. -/
def peek (c : Cursor) : Token := c.ahead.head?.getD c.finish

/-- The token before the cursor. At the start this is the last token of the sequence. -/
def previous (c : Cursor) : Token := c.passed.head?.getD (c.beyond.getLastD c.finish)

/-- The cursor stands at the end token. -/
def isAtEnd (c : Cursor) : Bool := c.ahead.isEmpty

/-- The token at the cursor is of a kind, and not the end token. -/
def check (c : Cursor) (kind : Kind) : Bool := c.ahead.head?.any (·.kind == kind)

/-- The cursor some tokens further, but not beyond the end token. -/
def forward (c : Cursor) (count : Nat) : Cursor :=
  { c with
    passed := (c.ahead.take count).reverse ++ c.passed
    ahead := c.ahead.drop count
    ahead_not_finish := fun t h => c.ahead_not_finish t (List.mem_of_mem_drop h) }

/-- Passes the token at the cursor, if it is not the end token. -/
def advance (c : Cursor) : Token × Cursor := (c.peek, c.forward 1)

/-- Passes the token at the cursor if it is of one of some kinds, and says whether it was. -/
def accept (c : Cursor) (kinds : List Kind) : Bool × Cursor :=
  if kinds.any c.check then (true, c.forward 1) else (false, c)

/-- Passes a token of a kind, which serves a purpose and may close the group of an opening token. -/
def expect (c : Cursor) (program : String) (kind : Kind) (purpose : String) (opening : Option Token) :
    Except Diagnostic Token × Cursor :=
  if c.check kind then (.ok c.peek, c.forward 1)
  else (.error (.missingToken program kind purpose opening c.peek), c)

end Cursor

end ArrayExpr
