import ArrayExpr.Tree.Basic

/-!
# Traces

While a program is analysed, each token that is read and each rule that is entered is an `Event`. A `Traced` result
comes with the events on the way to it.
-/

namespace ArrayExpr

/-- Something that happened while a program was analysed. -/
inductive Event where
  /-- A token was read from the text. -/
  | token (t : Token)
  /-- A rule of the grammar was entered at a token. -/
  | rule (rule : Nonterminal) (next : Token)
  deriving DecidableEq, Repr

/-- What is recorded of an event. -/
def Event.fields : Event → List String
  | token t => [t.listing]
  | rule entered next => [entered.name, next.listing]

/-- A result, and the events on the way to it. -/
structure Traced (α : Type) where
  events : List Event
  result : α

/-- The result alone, if events are not asked for. -/
def Traced.keepIf (debug : Bool) (t : Traced α) : Traced α := if debug then t else { t with events := [] }

end ArrayExpr
