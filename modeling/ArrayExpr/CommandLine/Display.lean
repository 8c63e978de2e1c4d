/-!
# What to show

The parts of an analysis that can be shown or left out.
-/

namespace ArrayExpr

/-- What to show of the analysis of an expression, and whether to record its events. -/
structure Display where
  tokens : Bool := true
  tree : Bool := true
  source : Bool := false
  debug : Bool := false
  deriving DecidableEq, Repr

end ArrayExpr
