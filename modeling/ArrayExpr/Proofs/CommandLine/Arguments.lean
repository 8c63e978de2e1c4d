import ArrayExpr.CommandLine.Options

/-!
# Command lines for requests

Every request can be made on a command line: by the long names of options, and the expressions behind the separator
(`read_arguments`). Behind the separator every text is an expression, also one that looks like an option.
-/

namespace ArrayExpr

/-- The options that lead to a display. -/
def Display.flags (d : Display) : List CommandLine.Flag :=
  (if d.debug then [.debug] else []) ++ (if d.tokens then [] else [.noTokens]) ++ (if d.tree then [] else [.noTree]) ++
    if d.source then [.source] else []

namespace CommandLine

/-- The long name of an option. -/
def Flag.longName (f : Flag) : String := f.names.getLastD ""

/-- A command line for a request. -/
def Request.arguments (r : Request) : List String := r.display.flags.map Flag.longName ++ "--" :: r.expressions

theorem foldl_flags (d : Display) : d.flags.foldl Flag.apply {} = d := by
  obtain ⟨tokens, tree, source, debug⟩ := d
  cases tokens <;> cases tree <;> cases source <;> cases debug <;> rfl

theorem help_notMem_flags (d : Display) : .help ∉ d.flags := by
  obtain ⟨tokens, tree, source, debug⟩ := d
  cases tokens <;> cases tree <;> cases source <;> cases debug <;> decide

/-! ## Single arguments -/

theorem classify_longName (f : Flag) : Argument.classify f.longName = .ok (.options (.ok [f])) := by
  cases f <;> rfl

theorem longName_ne_separator (f : Flag) : f.longName ≠ "--" := by
  cases f <;> decide

/-- Options before the separator are options, and all behind it is an operand. -/
theorem classifyAll_longNames (flags : List Flag) (texts : List String) :
    Argument.classifyAll (flags.map Flag.longName ++ "--" :: texts) =
      .ok (flags.map (fun f => .options (.ok [f])) ++ ("--" :: texts).map .operand) := by
  induction flags with
  | nil => rfl
  | cons f flags ih =>
    have hsep : (f.longName == "--") = false := beq_eq_false_iff_ne.mpr (longName_ne_separator f)
    rw [List.map_cons, List.cons_append, Argument.classifyAll, hsep, classify_longName, ih]
    rfl

/-! ## Runs -/

namespace Progress

/-- Options change what is shown as long as there are no operands. -/
theorem run_options {p : Progress} (hp : p.runOpen = false) {flags : List Flag} (hhelp : .help ∉ flags)
    (rest : List Argument) :
    p.run (flags.map (fun f => .options (.ok [f])) ++ rest) =
      ({ p with request.display := flags.foldl Flag.apply p.request.display } : Progress).run rest := by
  induction flags generalizing p with
  | nil => rfl
  | cons f flags ih =>
    rw [List.mem_cons, not_or] at hhelp
    have hcontains : [f].contains .help = false := by simpa using hhelp.1
    have hoptions : p.options [f] = { p with request.display := f.apply p.request.display } := by
      simp [options, endRun, hp]
    rw [List.map_cons, List.cons_append, run, hcontains, hoptions]
    exact ih hp hhelp.2

/-- Operands are expressions as long as their run is not over. -/
theorem run_operands {p : Progress} (hp : p.runOver = false) (texts : List String) :
    p.run (texts.map .operand) =
      ({ p with request.expressions := p.request.expressions ++ texts } : Progress).finish := by
  induction texts generalizing p with
  | nil =>
    rw [List.append_nil]
    rfl
  | cons text texts ih =>
    have hoperand : p.operand text =
        { p with request.expressions := p.request.expressions ++ [text], runOpen := true } := by
      simp [operand, hp]
    have hover : (p.operand text).runOver = false := by
      rw [hoperand]
      exact hp
    rw [List.map_cons, run, ih hover, hoperand, List.append_assoc]
    rfl

end Progress

/-- Every request can be made. -/
theorem read_arguments (r : Request) : read r.arguments = .run r := by
  rw [read, Request.arguments, classifyAll_longNames]
  show Progress.run {} _ = _
  rw [Progress.run_options rfl (help_notMem_flags r.display), Progress.run_operands rfl, Progress.finish]
  simp [foldl_flags]

end CommandLine

end ArrayExpr
