import XtAsm.Compiler.Basic

/-!
# Sessions

A session works on a directory with one back end.  It keeps the program that was parsed last until
that is handed on, and all reports.
-/

namespace XtAsm

/-- What a session can be told to do. -/
inductive Command
  | write (path bytes : Text)
  | makeDirectory (path : Text)
  | remove (path : Text)
  | lex (path : Text)
  /-- Parses a file and keeps its program. -/
  | parse (path : Text)
  | compile (path : Text)
  /-- Hands the kept program on to the back end. -/
  | compileHeld
  | lexSource (source : Source)
  /-- Parses a source file and keeps its program. -/
  | parseSource (source : Source)
  /-- Takes the kept program out of the session. -/
  | transfer
  /-- Shows the kept program. -/
  | inspect
  | read (paths : List Text)
  | filter (least : Severity)

/-- What a session answers. -/
inductive Reply
  | done
  | tokens (tokens : List Token)
  | parsed (p : Program)
  | output (text : Text)
  | moved (p : Program)
  | held (p : Program)
  | sources (sources : List Source)
  | reports (reports : List Report)
  | failed (f : Failure)

/-- A directory, a back end, the kept program and the reports so far. -/
structure Session where
  backend : Backend
  files : Files
  held : Program
  reports : List Report

namespace Session

/-- A session at its start. -/
def start (backend : Backend) (files : Files) (reports : List Report) : Session :=
  ⟨backend, files, .absent, reports⟩

/-- The session with the reports of a stage, and the answer to its value or failure. -/
def record {α : Type} (s : Session) (x : Logged α) (reply : α → Reply) : Session × Reply :=
  ({ s with reports := s.reports ++ x.reports },
    match x.result with
    | .ok a => reply a
    | .error f => .failed f)

/-- The program that a stage yields; a failure yields none. -/
def kept (x : Logged Program) : Program :=
  match x.result with
  | .ok p => p
  | .error _ => .absent

/-- What a command makes of a session, and its answer. -/
def step (s : Session) : Command → Session × Reply
  | .write path bytes => ({ s with files := s.files.put path bytes }, .done)
  | .makeDirectory path => ({ s with files := s.files.makeDirectory path }, .done)
  | .remove path => ({ s with files := s.files.remove path }, .done)
  | .lex path => s.record (Compiler.lexFile s.files path) .tokens
  | .parse path =>
    let x := Compiler.parseFile s.files path
    { s with held := kept x }.record x .parsed
  | .compile path => s.record (Compiler.compileFile s.backend s.files path) .output
  | .compileHeld =>
    { s with held := .absent }.record (Compiler.compileProgram s.backend s.held) .output
  | .lexSource source => s.record (Compiler.lexSource source) .tokens
  | .parseSource source =>
    let x := Compiler.parseSource source
    { s with held := kept x }.record x .parsed
  | .transfer => ({ s with held := .absent }, .moved s.held)
  | .inspect => (s, .held s.held)
  | .read paths => s.record (.ofExcept (Compiler.readSources s.files paths)) .sources
  | .filter least => (s, .reports (Report.filter s.reports least))

/-- The sessions after each of several commands, with the answers. -/
def run (s : Session) : List Command → List (Session × Reply)
  | [] => []
  | c :: cs =>
    let (next, reply) := s.step c
    (next, reply) :: run next cs

end Session

end XtAsm
