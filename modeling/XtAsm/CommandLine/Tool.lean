import XtAsm.CommandLine.Flag

/-!
# The commands of the command line

The program has a command for tokens, one for syntax trees and one for compilation.  Called without
a command it shows its help or its version.

* `Tool`: the commands, their flags and their help;
* `findTool`: which command a command line calls;
* `Invocation.ofArguments`: what a command line asks for.
-/

namespace XtAsm.CommandLine

/-! ### Flags -/

/-- Shows the help of a command. -/
def helpFlag (command : Text) : Flag := ⟨"help", some 104, none, "help for " ++ command⟩

/-- Shows the progress of the stages. -/
def verboseFlag : Flag := ⟨"verbose", some 118, none, "increase logging verbosity"⟩

/-- Shows the version of the program. -/
def versionFlag : Flag := ⟨"version", none, none, "Report version of this executable"⟩

/-- Chooses a code generation module. -/
def backendFlag : Flag :=
  ⟨"backend", some 98, some "", "specify backend module (default is built-in template)."⟩

/-- Chooses a calling convention. -/
def conventionFlag : Flag :=
  ⟨"abi", none, some "go", "specify backend calling convention (go or c)."⟩

/-- Chooses where the output goes. -/
def outputFlag : Flag := ⟨"output", some 111, some "-", "specify output file."⟩

/-! ### Commands -/

/-- The commands; `main` is the program called without one. -/
inductive Tool
  | main
  | ast
  | compile
  | help
  | tokens
  deriving DecidableEq

namespace Tool

/-- The name of a command. -/
def name : Tool → Text
  | .main => "xtc"
  | .ast => "ast"
  | .compile => "compile"
  | .help => "help"
  | .tokens => "tokens"

/-- The commands below the program itself. -/
def all : List Tool := [.ast, .compile, .help, .tokens]

/-- The command with the given name. -/
def ofName? (name : Text) : Option Tool := all.find? fun t => t.name = name

/-- The flags of a command itself, in the order of their names. -/
def ownFlags : Tool → List Flag
  | .main => [helpFlag "xtc", verboseFlag, versionFlag]
  | .compile => [conventionFlag, backendFlag, helpFlag "compile", outputFlag]
  | t => [helpFlag t.name]

/-- The flags that a command shares with all others. -/
def sharedFlags : Tool → List Flag
  | .main => []
  | _ => [verboseFlag]

/-- All flags that a command knows. -/
def flags (t : Tool) : List Flag := t.ownFlags ++ t.sharedFlags

/-- How a command is called. -/
def useLine : Tool → Text
  | .main => "xtc [flags]"
  | .help => "xtc help [command] [flags]"
  | t => "xtc " ++ t.name ++ " [flags] source_file"

/-- What a command does. -/
def description : Tool → Text
  | .main =>
    "A compiler for the xt language, which lexes and parses xt source files before\n" ++
      "\thanding the syntax tree to a code generation backend."
  | .ast =>
    "Parse a given xt source file, and print the resulting syntax tree in its\n" ++
      "\tcanonical source form."
  | .compile =>
    "Compile a given xt source file using either the built-in template backend, or\n" ++
      "\ta backend module loaded at runtime."
  | .help =>
    "Help provides help for any command in the application.\n" ++
      "Simply type xtc help [path to command] for full details."
  | .tokens => "Lex a given xt source file, and print the resulting tokens as a table."

end Tool

/-! ### Help -/

/-- The left half of a flag's line. -/
def flagHead (f : Flag) : Text :=
  let letter : Text := match f.letter? with
    | some l => "  -" ++ [l] ++ ", --"
    | none => "      --"
  letter ++ f.name ++ (if f.isSwitch then [] else " string")

/-- The right half of a flag's line. -/
def flagTail (f : Flag) : Text :=
  match f.default? with
  | none | some [] => f.usage
  | some default => f.usage ++ " (default " ++ default.quoted ++ ")"

/-- The lines of several flags, with their right halves under each other. -/
def flagLines (flags : List Flag) : List Text :=
  let width := (flags.map fun f => (flagHead f).length).foldl max 0
  flags.map fun f =>
    flagHead f ++ Text.spaces (width + 3 - (flagHead f).length) ++ flagTail f

/-- The lines that list the commands. -/
def commandLines : List Text :=
  ["", "Available Commands:",
   "  ast         print the syntax tree of an xt source file.",
   "  compile     compile an xt source file.",
   "  completion  Generate the autocompletion script for the specified shell",
   "  help        Help about any command",
   "  tokens      print the tokens of an xt source file."]

/-- How a command is called, with all its flags. -/
def Tool.usage (t : Tool) : Text :=
  let commands : List Text := if t = .main then commandLines else []
  let shared : List Text :=
    if t.sharedFlags = [] then [] else "" :: "Global Flags:" :: flagLines t.sharedFlags
  let closing : List Text :=
    if t = .main then ["", "Use \"xtc [command] --help\" for more information about a command."]
    else []
  let calls : List Text :=
    if t = .main then ["Usage:", "  " ++ t.useLine, "  xtc [command]"]
    else ["Usage:", "  " ++ t.useLine]
  let own : List Text := "" :: "Flags:" :: flagLines t.ownFlags
  Text.join "\n" (calls ++ commands ++ own ++ shared ++ closing) ++ "\n"

/-- The help of a command. -/
def Tool.helpText (t : Tool) : Text := t.description ++ "\n\n" ++ t.usage

/-! ### Finding the command -/

/-- The argument is a flag that takes its value from the next one.  Before the command is known
only the flags of the program itself are; any other flag is taken to need a value. -/
def takesNext (argument : Text) : Bool :=
  let switches := [verboseFlag, versionFlag]
  !argument.contains 61 &&
    match argument with
    | 45 :: 45 :: name => !switches.any fun f => f.name = name
    | [45, letter] => !switches.any fun f => f.letter? = some letter
    | _ => false

/-- The first word of a command line that is neither a flag nor the value of one, with the
arguments before and after it. -/
def findWord : List Text → Option (List Text × Text × List Text)
  | [] => none
  | argument :: rest =>
    if argument = ("--" : Text) then none
    else if takesNext argument then
      match rest with
      | value :: next :: more =>
        (findWord (next :: more)).map fun (before, word, after) =>
          (argument :: value :: before, word, after)
      | _ => none
    else if argument ≠ [] ∧ argument.head? ≠ some 45 then some ([], argument, rest)
    else (findWord rest).map fun (before, word, after) => (argument :: before, word, after)

/-- The command that a command line calls, and the arguments left for it.  A word that names no
command is refused. -/
def findTool (arguments : List Text) : Except Text (Tool × List Text) :=
  match findWord arguments with
  | none => .ok (.main, arguments)
  | some (before, word, after) =>
    match Tool.ofName? word with
    | some t => .ok (t, before ++ after)
    | none => .error word

/-! ### Invocations -/

/-- What a command line asks for. -/
inductive Invocation
  /-- The help of a command. -/
  | help (t : Tool)
  | unknownTopic (topics : List Text)
  | version
  | tokens (verbose : Bool) (path : Text)
  | ast (verbose : Bool) (path : Text)
  | compile (verbose : Bool) (path backend convention output : Text)
  /-- A command line that makes no sense. -/
  | refused (message : Text)
  deriving DecidableEq

namespace Invocation

/-- What a command with one argument asks for. -/
def ofPath (arguments : List Text) (invocation : Text → Invocation) : Invocation :=
  match arguments with
  | [path] => invocation path
  | _ => .refused ("accepts 1 arg(s), received " ++ Text.ofNat arguments.length)

/-- What the flags and arguments of a command ask for. -/
def ofParsed (t : Tool) (p : Parsed) : Invocation :=
  let verbose := p.isOn verboseFlag
  if p.isOn (helpFlag t.name) then .help t
  else match t with
    | .main => if p.isOn versionFlag then .version else .help .main
    | .help =>
      match findTool p.arguments with
      | .ok (topic, _) => .help topic
      | .error _ => .unknownTopic p.arguments
    | .tokens => ofPath p.arguments (.tokens verbose)
    | .ast => ofPath p.arguments (.ast verbose)
    | .compile =>
      ofPath p.arguments fun path =>
        .compile verbose path (p.value backendFlag) (p.value conventionFlag) (p.value outputFlag)

/-- The file that the output goes to; none if it goes to the standard output. -/
def outputPath? : Invocation → Option Text
  | .compile _ _ _ _ output => if output = [] ∨ output = ("-" : Text) then none else some output
  | _ => none

/-- The paths that an invocation reads or writes. -/
def paths (i : Invocation) : List Text :=
  let source : List Text := match i with
    | .tokens _ path | .ast _ path | .compile _ path _ _ _ => [path]
    | _ => []
  source ++ i.outputPath?.toList

/-- What a command line asks for. -/
def ofArguments (arguments : List Text) : Invocation :=
  match findTool arguments with
  | .error word => .refused ("unknown command " ++ word.quoted ++ " for \"xtc\"")
  | .ok (t, rest) =>
    match parseFlags t.flags rest with
    | .error e => .refused e.message
    | .ok p => ofParsed t p

end Invocation

end XtAsm.CommandLine
