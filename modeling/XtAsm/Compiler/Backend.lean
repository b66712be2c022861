import XtAsm.Compiler.Logged
import XtAsm.Wire.Encode

/-!
# Back ends

A back end makes the output of a program, or fails.  Besides the built-in one there are back ends
in modules, which are opened by their path.
-/

namespace XtAsm

/-- A back end. -/
abbrev Backend := Program → Except Failure Text

/-- A shared library.  Its entry point, if it has one, takes the binary form of a program and may
yield nothing. -/
structure Library where
  compile? : Option (Text → Option Text)

/-- The shared libraries that can be opened, by their path. -/
abbrev Libraries := Text → Option Library

namespace Backend

/-- The built-in back end. -/
def template : Backend := fun p => (Listing.ofProgram p).mapError .listing

/-- The back end of a shared library.  Empty output counts as failure. -/
def ofEntryPoint (path : Text) (compile : Text → Option Text) : Backend := fun p =>
  match compile (Wire.encode p) with
  | some (b :: rest) => .ok (b :: rest)
  | _ => .error (.moduleFailed path)

/-- The back end of the module at a path.  Modules that take the program itself cannot be opened
here. -/
def load (libraries : Libraries) (path : Text) (convention : Convention) :
    Except Failure Backend :=
  if convention = .direct then .error (.unopenedModule path)
  else if convention = .shared then
    match libraries path with
    | none => .error (.unopenedModule path)
    | some ⟨none⟩ => .error .missingEntryPoint
    | some ⟨some compile⟩ => .ok (ofEntryPoint path compile)
  else .error (.unsupportedModule path convention)

/-- The back end that a path and a convention choose, with the report on the choice.  The empty
path chooses the built-in one. -/
def choose (libraries : Libraries) (path : Text) (convention : Convention) : Logged Backend :=
  if path = [] then do
    Logged.note (.progress "using built-in template backend" .none)
    return template
  else Logged.reporting do
    let backend ← Logged.ofExcept (load libraries path convention)
    Logged.note (.progress
      ("loaded " ++ convention.render ++ " backend " ++ Text.apostrophes path) .none)
    return backend

end Backend

end XtAsm
