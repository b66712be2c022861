import XtAsm.Compiler.Backend
import XtAsm.Parser.Step
import XtAsm.Token.Lexer

/-!
# Compiling

From source files over tokens and programs to output.

* `lexSource`, `parseTokens`: the stages on their own, which do not report their failures;
* `lexFile`, `parseFile`, `compileProgram`, `compileFile`: the stages of a compiler, which do.
-/

namespace XtAsm.Compiler

/-- The extension of a path: what stands from the last dot of its last name on. -/
def extension (path : Text) : Text :=
  let lastName := (Text.splitOn Files.separator path).getLastD []
  if lastName.contains 46 then
    46 :: (lastName.reverse.takeWhile (· ≠ 46)).reverse
  else []

/-- The tokens of a source file. -/
def lexSource (s : Source) : Logged (List Token) :=
  match s.lex with
  | .error e => .fail (.invalidSource (e.syntaxError s.file))
  | .ok tokens => do
    Logged.note (.progress ("lexed " ++ Text.ofNat tokens.length ++ " tokens") ⟨s.file, 1, 1⟩)
    return tokens

/-- The program of some tokens. -/
def parseTokens (tokens : List Token) : Logged Program :=
  let o := Program.ofTokens tokens
  ⟨o.reports, o.result.mapError fun e => .invalidSource e.syntaxError⟩

/-- The program of a source file. -/
def parseSource (s : Source) : Logged Program := do
  parseTokens (← lexSource s)

/-- The source file at a path. -/
def readSource (files : Files) (path : Text) : Except Failure Source :=
  match files.read path with
  | .ok bytes => .ok (.ofText path bytes)
  | .error e => .error (.unreadable path e)

/-- The source files at several paths, up to the first that cannot be read. -/
def readSources (files : Files) : List Text → Except Failure (List Source)
  | [] => .ok []
  | path :: paths => do
    let s ← readSource files path
    return s :: (← readSources files paths)

/-- The source file at a path that has the extension of source files. -/
def openSource (files : Files) (path : Text) : Except Failure Source :=
  if extension path ≠ Failure.sourceExtension then
    .error (.wrongExtension path (extension path))
  else (readSource files path).mapError (.within ("unable to open " ++ Text.apostrophes path))

/-- The tokens of the file at a path. -/
def lexFile (files : Files) (path : Text) : Logged (List Token) :=
  Logged.reporting do
    lexSource (← Logged.ofExcept (openSource files path))

/-- The program of the file at a path. -/
def parseFile (files : Files) (path : Text) : Logged Program := do
  let tokens ← lexFile files path
  Logged.reporting (parseTokens tokens)

/-- The output of a program. -/
def compileProgram (backend : Backend) (p : Program) : Logged Text := do
  let output ← Logged.reporting
    (.ofExcept ((backend p).mapError (.within "code generation failed")))
  Logged.note (.progress ("generated " ++ Text.ofNat output.length ++ " bytes") .none)
  return output

/-- The output of the file at a path. -/
def compileFile (backend : Backend) (files : Files) (path : Text) : Logged Text := do
  compileProgram backend (← parseFile files path)

end XtAsm.Compiler
