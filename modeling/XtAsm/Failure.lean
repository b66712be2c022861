import XtAsm.Files
import XtAsm.Listing.Template
import XtAsm.Report

/-!
# Failures

Everything that can end a compilation, with the context in which it happened.

* `Failure`, `Failure.render`;
* `Failure.syntaxError?`: the syntax error behind a failure, if there is one;
* `Failure.report`: how a failure is reported.
-/

namespace XtAsm

/-- How the entry point of a code generation module is called. -/
structure Convention where
  code : UInt8
  deriving DecidableEq

namespace Convention

/-- A module that takes the program itself. -/
def direct : Convention := ⟨0⟩

/-- A shared library that takes the binary form of the program. -/
def shared : Convention := ⟨1⟩

/-- The name of a convention. -/
def render (c : Convention) : Text :=
  if c = direct then "go"
  else if c = shared then "c"
  else "ABI(" ++ Text.ofNat c.code.toNat ++ ")"

/-- The convention with the given name. -/
def ofText? (name : Text) : Option Convention :=
  if name = direct.render then some direct
  else if name = shared.render then some shared
  else none

end Convention

/-- Why a compilation failed. -/
inductive Failure
  | invalidSource (e : SyntaxError)
  | wrongExtension (path extension : Text)
  | unreadable (path : Text) (e : FileError)
  | unknownConvention (name : Text)
  /-- A code generation module with a calling convention that does not exist. -/
  | unsupportedModule (path : Text) (convention : Convention)
  | unopenedModule (path : Text)
  | missingEntryPoint
  | listing (e : Listing.Error)
  /-- The code generation module yielded nothing. -/
  | moduleFailed (path : Text)
  | fault (f : Fault)
  /-- A failure that is described by its message alone. -/
  | other (message : Text)
  /-- A failure in a context. -/
  | within (context : Text) (inner : Failure)

namespace Failure

/-- The only file extension of source files. -/
def sourceExtension : Text := ".xt"

/-- The description of a failure. -/
def render : Failure → Text
  | .invalidSource e => e.render
  | .wrongExtension path extension =>
    "unable to lex " ++ Text.apostrophes path ++ ": unrecognised extension " ++
      Text.apostrophes extension ++ " (expected " ++ sourceExtension ++ ")"
  | .unreadable path e => "failed to open file " ++ path.quoted ++ ": " ++ e.message
  | .unknownConvention name =>
    "unknown backend ABI " ++ Text.apostrophes name ++ " (expected go or c)"
  | .unsupportedModule path convention =>
    "unable to open backend " ++ Text.apostrophes path ++ ": unknown ABI " ++ convention.render
  | .unopenedModule path => "unable to open backend " ++ Text.apostrophes path
  | .missingEntryPoint => "unable to find symbol 'compile'"
  | .listing e => e.message
  | .moduleFailed path => "backend " ++ Text.apostrophes path ++ " failed to compile"
  | .fault f => f.message
  | .other message => message
  | .within context inner => context ++ ": " ++ inner.render

/-- The syntax error behind a failure. -/
def syntaxError? : Failure → Option SyntaxError
  | .invalidSource e => some e
  | .within _ inner => inner.syntaxError?
  | _ => none

/-- A syntax error is reported at its position, every other failure at none. -/
def report (f : Failure) : Report :=
  match f.syntaxError? with
  | some e => ⟨.error, e.message, e.position⟩
  | none => ⟨.error, f.render, .none⟩

end Failure

end XtAsm
