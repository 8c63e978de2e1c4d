import ArrayExpr.CommandLine.Session

/-!
# The program

Writes what a session shows to the standard output, the traced events and complaints to the standard error, and ends
with the status of the session.
-/

open ArrayExpr

/-- Runs the program on its arguments. -/
def main (args : List String) : IO UInt32 := do
  let session := Session.ofArguments args
  for event in session.events do
    IO.eprintln (", ".intercalate event.fields)
  IO.eprint session.complaint
  IO.print session.output
  return session.status.toUInt32
