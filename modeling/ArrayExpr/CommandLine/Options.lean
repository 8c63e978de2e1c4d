import ArrayExpr.CommandLine.Display
import ArrayExpr.Text.Digit
import ArrayExpr.Text.Quoted

/-!
# Command lines

A command line holds options and expressions. `Argument.classify` tells what a single argument is: an operand, an
option by its name or by an unambiguous beginning of a long name, a cluster of short options behind one dash, or an
option that is not known. Negative numbers and texts with a space are operands even with a dash in front, and so is all
that follows the separator `--`. `CommandLine.read` goes through the arguments from left to right: the operands of the
first run are the expressions, and operands of a later run are left over like unknown options. A request for help
counts as soon as it is met, an ambiguous name before anything else, and what is left over after all else.
-/

namespace ArrayExpr.CommandLine

/-! ## Options -/

/-- The options. None of them takes a value. -/
inductive Flag where
  | help | debug | noTokens | noTree | source
  deriving DecidableEq, Repr

namespace Flag

/-- All options, in the order in which they are listed. -/
def all : List Flag := [help, debug, noTokens, noTree, source]

/-- The names of an option. -/
def names : Flag → List String
  | help => ["-h", "--help"]
  | debug => ["-D", "--debug"]
  | noTokens => ["--no-tokens"]
  | noTree => ["--no-tree"]
  | source => ["--source"]

/-- An option as messages name it. -/
def described (f : Flag) : String := "/".intercalate f.names

/-- The names of all options, each with its option. -/
def table : List (String × Flag) := all.flatMap fun f => f.names.map fun name => (name, f)

/-- The option of a name. -/
def ofName? (name : String) : Option Flag := table.lookup name

/-- The long names that begin with a text, each with its option. -/
def completions (start : String) : List (String × Flag) :=
  table.filter fun (name, _) => start.toList.isPrefixOf name.toList

end Flag

/-- Why a command line is refused. -/
inductive Refusal where
  /-- The beginning of several names. -/
  | ambiguous (arg : String) (names : List String)
  /-- An option is given a value. -/
  | valueGiven (flag : Flag) (value : String)
  /-- Arguments that nothing asks for. -/
  | unrecognized (args : List String)
  deriving DecidableEq, Repr

/-- What is said of a refused command line. -/
def Refusal.message : Refusal → String
  | ambiguous arg names => "ambiguous option: " ++ arg ++ " could match " ++ ", ".intercalate names
  | valueGiven flag value => "argument " ++ flag.described ++ ": ignored explicit argument " ++ Text.quoted value
  | unrecognized args => "unrecognized arguments: " ++ " ".intercalate args

/-! ## Single arguments -/

/-- What an argument is. -/
inductive Argument where
  /-- An expression, or the separator. -/
  | operand (text : String)
  /-- The options that the argument stands for, or why it is refused once it is reached. -/
  | options (flags : Except Refusal (List Flag))
  /-- An option that is not known. -/
  | unknown (text : String)

namespace Argument

/-- The options of a cluster, from the first on: each further character names one. -/
def cluster (flag : Flag) : List Char → Except Refusal (List Flag)
  | [] => .ok [flag]
  | c :: rest =>
    match Flag.ofName? (String.ofList ['-', c]) with
    | some next => (cluster next rest).map (flag :: ·)
    | none => .error (.valueGiven flag (String.ofList (c :: rest)))

/-- An option with what is attached to its name. Behind a short name further options may be attached. -/
def withAttached (isShort : Bool) (flag : Flag) : Option String → Argument
  | none => options (.ok [flag])
  | some value =>
    options (if isShort && !value.isEmpty then cluster flag value.toList else .error (.valueGiven flag value))

/-- A dash and decimal digits, perhaps with a point among them or before them. A line feed may follow. -/
def isNegativeNumber (arg : List Char) : Bool :=
  match arg with
  | '-' :: rest =>
    let number := if rest.getLast? == some '\n' then rest.dropLast else rest
    match number.dropWhile Text.isDigit with
    | [] => !number.isEmpty
    | '.' :: decimals => !decimals.isEmpty && decimals.all Text.isDigit
    | _ => false
  | _ => false

/-- An argument cut at its first equals sign. -/
def cutAtEquals (arg : List Char) : String × Option String :=
  (String.ofList (arg.takeWhile (· != '=')),
    match arg.dropWhile (· != '=') with
    | [] => none
    | _ :: value => some (String.ofList value))

/-- What an argument is that begins with a dash and is no name of an option, perhaps with a value attached. -/
def classifyOther (arg : List Char) : Argument :=
  if isNegativeNumber arg || arg.contains ' ' then operand (String.ofList arg) else unknown (String.ofList arg)

/-- What an argument is that begins with two dashes. -/
def classifyLong (arg : List Char) : Except Refusal Argument :=
  let (start, value) := cutAtEquals arg
  match Flag.completions start with
  | [] => .ok (classifyOther arg)
  | [(_, flag)] => .ok (withAttached false flag value)
  | several => .error (.ambiguous (String.ofList arg) (several.map Prod.fst))

/-- What an argument is that begins with one dash. -/
def classifyShort (arg : List Char) : Argument :=
  match cutAtEquals arg with
  | (name, some value) =>
    match Flag.ofName? name with
    | some flag => withAttached true flag (some value)
    | none => classifyCluster arg
  | (_, none) => classifyCluster arg
where
  /-- What an argument is that may be a cluster. -/
  classifyCluster (arg : List Char) : Argument :=
    match Flag.ofName? (String.ofList (arg.take 2)) with
    | some flag => withAttached true flag (if arg.length ≤ 2 then none else some (String.ofList (arg.drop 2)))
    | none => classifyOther arg

/-- What an argument is that stands before the separator. -/
def classify (arg : String) : Except Refusal Argument :=
  match Flag.ofName? arg with
  | some flag => .ok (options (.ok [flag]))
  | none =>
    match arg.toList with
    | '-' :: '-' :: rest => classifyLong ('-' :: '-' :: rest)
    | '-' :: c :: rest => .ok (classifyShort ('-' :: c :: rest))
    | _ => .ok (operand arg)

/-- What the arguments are. The separator counts as an operand, and so does all behind it. -/
def classifyAll : List String → Except Refusal (List Argument)
  | [] => .ok []
  | arg :: rest =>
    if arg == "--" then .ok ((arg :: rest).map operand)
    else do
      let first ← classify arg
      let others ← classifyAll rest
      pure (first :: others)

end Argument

/-! ## Whole command lines -/

/-- What a command line asks for. -/
structure Request where
  expressions : List String := []
  display : Display := {}
  deriving DecidableEq, Repr

/-- The display with an option more. -/
def Flag.apply (d : Display) : Flag → Display
  | help => d
  | debug => { d with debug := true }
  | noTokens => { d with tokens := false }
  | noTree => { d with tree := false }
  | source => { d with source := true }

/-- What comes of a command line. -/
inductive Command where
  | help
  | refuse (reason : Refusal)
  | run (request : Request)
  deriving DecidableEq, Repr

/-- The arguments gone through: the request so far, whether a run of operands is open or over, and what is left over. -/
structure Progress where
  request : Request := {}
  runOpen : Bool := false
  runOver : Bool := false
  leftOver : List String := []

namespace Progress

/-- An operand belongs to the first run of operands, or is left over. -/
def operand (p : Progress) (text : String) : Progress :=
  if p.runOver then { p with leftOver := p.leftOver ++ [text] }
  else { p with request.expressions := p.request.expressions ++ [text], runOpen := true }

/-- An argument that is no operand ends a run of operands. -/
def endRun (p : Progress) : Progress := { p with runOver := p.runOver || p.runOpen }

/-- An option that is not known is left over. -/
def unknown (p : Progress) (text : String) : Progress := { p.endRun with leftOver := p.leftOver ++ [text] }

/-- Options change what is shown. -/
def options (p : Progress) (flags : List Flag) : Progress :=
  { p.endRun with request.display := flags.foldl Flag.apply p.request.display }

/-- The request, if nothing is left over. The separator is not one of its expressions. -/
def finish (p : Progress) : Command :=
  if p.leftOver.isEmpty then .run { p.request with expressions := p.request.expressions.erase "--" }
  else .refuse (.unrecognized p.leftOver)

/-- Goes through the arguments to come. -/
def run (p : Progress) : List Argument → Command
  | [] => p.finish
  | .operand text :: rest => (p.operand text).run rest
  | .unknown text :: rest => (p.unknown text).run rest
  | .options (.error reason) :: _ => .refuse reason
  | .options (.ok flags) :: rest => if flags.contains .help then .help else (p.options flags).run rest

end Progress

/-- What a command line asks for. -/
def read (args : List String) : Command :=
  match Argument.classifyAll args with
  | .error reason => .refuse reason
  | .ok arguments => Progress.run {} arguments

end ArrayExpr.CommandLine
