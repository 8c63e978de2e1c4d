import ArrayExpr.CommandLine.Options

/-!
# Help

The texts that the command line shows instead of running: the help, and the notice of a refused command line.
-/

namespace ArrayExpr.CommandLine

/-- The lines that show how a command line is formed. -/
def usage : List String :=
  ["usage: exprtree [-h] [-D] [--no-tokens] [--no-tree] [--source]",
   "                [expressions ...]"]

/-- The lines of the help. -/
def help : List String :=
  usage ++
  ["",
   "Lexical and syntactic analysis of array expressions.",
   "",
   "positional arguments:",
   "  expressions  expressions to analyze (default: the built-in samples)",
   "",
   "options:",
   "  -h, --help   show this help message and exit",
   "  -D, --debug  trace the scanner and parser",
   "  --no-tokens  do not list the tokens",
   "  --no-tree    do not print the tree",
   "  --source     print the source rebuilt from the tree"]

/-- The lines that say why a command line is refused. -/
def Refusal.notice (r : Refusal) : List String := usage ++ ["exprtree: error: " ++ r.message]

end ArrayExpr.CommandLine
