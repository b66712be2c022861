import XtAsm.CommandLine.Tool
import XtAsm.Log
import XtAsm.Terminal.Display

/-!
# Running a command line

* `Surroundings`: what a command line runs in;
* `Outcome`: exit code, output and the directory afterwards;
* `run`: what a command line does.

Exit code 0 stands for success, 1 for a command line that makes no sense or output that cannot be
written, 2 for an unknown calling convention, 3 for a failure and 4 for a syntax error.
-/

namespace XtAsm.CommandLine

/-- The working directory, the libraries that can be opened and the version of the program. -/
structure Surroundings where
  files : Files
  libraries : Libraries
  version : Text

/-- What a command line leaves behind. -/
structure Outcome where
  exit : Nat
  stdout : Text
  stderr : Text
  files : Files

/-- Everything up to and with the first line break. -/
def firstLine (t : Text) : Text := t.takeWhile (· ≠ Text.newline) ++ "\n"

/-- The level of the log. -/
def logLevel (verbose : Bool) : Log.Level := if verbose then .debug else .info

/-- What a failed stage leaves behind, after the given log.  A syntax error is also displayed. -/
def failed (s : Surroundings) (log : Text) (f : Failure) : Outcome :=
  match f.syntaxError? with
  | none => ⟨3, [], log, s.files⟩
  | some e =>
    match Terminal.showError s.files e false with
    | .ok display => ⟨4, [], log ++ display, s.files⟩
    | .error fault => ⟨2, [], log ++ fault.message, s.files⟩

/-- What a stage leaves behind: its reports in the log, and its value as the given function says. -/
def finish {α : Type} (s : Surroundings) (level : Log.Level) (x : Logged α)
    (success : Text → α → Outcome) : Outcome :=
  let log := Log.entries level x.reports
  match x.result with
  | .ok a => success log a
  | .error f => failed s log f

/-- A text on the standard output, unless there is none to be had. -/
def printed (s : Surroundings) (log : Text) (t : Except Fault Text) : Outcome :=
  match t with
  | .ok t => ⟨0, t, log, s.files⟩
  | .error fault => ⟨2, [], log ++ fault.message, s.files⟩

/-- Output on the standard output, or in a file. -/
def delivered (s : Surroundings) (log : Text) (path? : Option Text) (output : Text) : Outcome :=
  match path? with
  | none => ⟨0, output, log, s.files⟩
  | some path =>
    match s.files.write path output with
    | .ok files => ⟨0, [], log, files⟩
    | .error e =>
      ⟨1, [], log ++ "error writing " ++ Text.apostrophes path ++ ": open " ++ path ++ ": " ++
        e.message ++ "\n", s.files⟩

/-- The character that stands around a topic. -/
def topicMark : Char := '\x60'

/-- The symbol can stand between topic marks as it is. -/
def standsInTopic : Text.Symbol → Bool
  | .char c => (c = '\t' || 0x20 ≤ c.toNat) && c ≠ topicMark && c ≠ '\x7f' && c ≠ '\uFEFF'
  | .stray _ => false

/-- A topic between marks, or in double quotes if it cannot stand between marks. -/
def topicText (t : Text) : Text :=
  if (Text.symbols t).all standsInTopic then
    Text.ofChars [topicMark] ++ t ++ Text.ofChars [topicMark]
  else t.quoted

/-- Several texts as a list of topics. -/
def topicList (topics : List Text) : Text := "[" ++ Text.join " " (topics.map topicText) ++ "]"

/-- What an invocation does. -/
def perform (s : Surroundings) (i : Invocation) : Outcome :=
  match i with
  | .help t => ⟨0, t.helpText, [], s.files⟩
  | .unknownTopic topics =>
    ⟨0, [], "Unknown help topic " ++ topicList topics ++ "\n" ++ Tool.main.usage, s.files⟩
  | .version => ⟨0, "xtc " ++ s.version ++ "\n", [], s.files⟩
  | .refused message => ⟨1, [], firstLine ("Error: " ++ message), s.files⟩
  | .tokens verbose path =>
    finish s (logLevel verbose)
      (do
        let _ ← Backend.choose s.libraries [] .direct
        Compiler.lexFile s.files path)
      fun log tokens => printed s log ((Terminal.tokenTable tokens).map (·.render))
  | .ast verbose path =>
    finish s (logLevel verbose)
      (do
        let _ ← Backend.choose s.libraries [] .direct
        Compiler.parseFile s.files path)
      fun log p => printed s log p.render
  | .compile verbose path backend convention _ =>
    match Convention.ofText? convention with
    | none => ⟨2, (Failure.unknownConvention convention).render ++ "\n", [], s.files⟩
    | some convention =>
      finish s (logLevel verbose)
        (do
          let b ← Backend.choose s.libraries backend convention
          Compiler.compileFile b s.files path)
        fun log code => delivered s log i.outputPath? code

/-- What a command line does. -/
def run (s : Surroundings) (arguments : List Text) : Outcome :=
  perform s (.ofArguments arguments)

end XtAsm.CommandLine
