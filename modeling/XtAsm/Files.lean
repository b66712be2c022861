import XtAsm.Source.File
import XtAsm.Text.Quoted

/-!
# Working directories

A working directory holds files and directories under relative paths.

* `Files.resolve`: where a path leads;
* `Files.read`: the bytes of a file, or why it cannot be read;
* `Files.write`: a file replaced or created in an existing directory;
* `Files.put`, `Files.makeDirectory`, `Files.remove`: changes that cannot fail.
-/

namespace XtAsm

/-- Why a path does not lead to a file. -/
inductive FileError
  | notFound
  | notADirectory
  | isADirectory
  | invalidName
  | nameTooLong
  deriving DecidableEq

/-- The description of the defect. -/
def FileError.message : FileError → Text
  | .notFound => "no such file or directory"
  | .notADirectory => "not a directory"
  | .isADirectory => "is a directory"
  | .invalidName => "invalid argument"
  | .nameTooLong => "file name too long"

/-- What stands under a path. -/
inductive Entry
  | file (bytes : Text)
  | directory
  deriving DecidableEq

/-- The entries of a working directory, each under the names that lead to it. -/
structure Files where
  entries : List (List Text × Entry)
  deriving DecidableEq

namespace Files

/-- The working directory without entries. -/
def empty : Files := ⟨[]⟩

/-- The byte between the names of a path. -/
def separator : UInt8 := 47

/-- The name that stays in a directory. -/
def dot : Text := "."

/-- The name that leads out of a directory. -/
def dotDot : Text := ".."

/-- The name of the root directory. -/
def root : Text := "/"

/-- Where a path starts: at the root, or in the working directory. -/
def origin (path : Text) : List Text := if path.head? = some separator then [root] else []

/-- The directories that always exist: the root, the working directory and those around it. -/
def isFixed (names : List Text) : Bool := names = [root] || names.all (· = dotDot)

/-- The entry under some names. -/
def lookup? (f : Files) (names : List Text) : Option Entry :=
  if isFixed names then some .directory
  else (f.entries.find? fun e => e.1 = names).map (·.2)

/-- The names that lead to a name of a directory.  The empty name and a dot stay in the directory,
and two dots lead out of it, unless it is the root. -/
def enter (here : List Text) (name : Text) : List Text :=
  if name = [] ∨ name = dot then here
  else if name = dotDot then
    if here = [root] then here
    else if here.all (· = dotDot) then here ++ [name]
    else here.dropLast
  else here ++ [name]

/-- The names that lead to where a path goes from a directory.  All names on the way have to lead
to directories. -/
def walk (f : Files) (here : List Text) : List Text → Except FileError (List Text)
  | [] => .ok here
  | name :: rest =>
    if 255 < name.length then .error .nameTooLong
    else match f.lookup? (enter here name) with
      | none => .error .notFound
      | some .directory => walk f (enter here name) rest
      | some (.file _) => if rest = [] then .ok (enter here name) else .error .notADirectory

/-- The names of a path, or why it cannot lead anywhere. -/
def namesOf (path : Text) : Except FileError (List Text) :=
  if path = [] then .error .notFound
  else if 0 ∈ path then .error .invalidName
  else if 4096 ≤ path.length then .error .nameTooLong
  else .ok (Text.splitOn separator path)

/-- The names under which a path leads to something. -/
def resolve (f : Files) (path : Text) : Except FileError (List Text) := do
  f.walk (origin path) (← namesOf path)

/-- The bytes of the file at a path. -/
def read (f : Files) (path : Text) : Except FileError Text := do
  match f.lookup? (← f.resolve path) with
  | some (.file bytes) => return bytes
  | some .directory => throw .isADirectory
  | none => throw .notFound

/-- The entry under some names, replaced or added. -/
def set (f : Files) (names : List Text) (e : Entry) : Files :=
  ⟨f.entries.filter (fun old => old.1 ≠ names) ++ [(names, e)]⟩

/-- What has been set is found. -/
theorem lookup?_set_self (f : Files) (names : List Text) (e : Entry) (h : isFixed names = false) :
    (f.set names e).lookup? names = some e := by
  have absent :
      (f.entries.filter fun old => old.1 ≠ names).find? (fun e => e.1 = names) = none := by
    simp
  simp only [lookup?, set, h, Bool.false_eq_true, if_false, List.find?_append, absent]
  simp

/-- The names of a path without the empty ones at its end, and whether there are any. -/
def cutTrailing (names : List Text) : List Text × Bool :=
  let kept := (names.reverse.dropWhile (· = [])).reverse
  (kept, kept.length < names.length)

/-- The file at a path, replaced or created.  The directory that it stands in has to exist, and a
path that ends in a separator leads to no file. -/
def write (f : Files) (path bytes : Text) : Except FileError Files := do
  let (names, trailing) := cutTrailing (← namesOf path)
  let directory ← f.walk (origin path) (names.dropLast ++ [[]])
  let name := names.getLastD dot
  if trailing ∨ name = dot ∨ name = dotDot then throw .isADirectory
  if 255 < name.length then throw .nameTooLong
  match f.lookup? (directory ++ [name]) with
  | some .directory => throw .isADirectory
  | _ => return f.set (directory ++ [name]) (.file bytes)

/-- The names that lead to where a path goes, whatever exists on the way. -/
def plainNames (path : Text) : List Text :=
  (Text.splitOn separator path).foldl enter (origin path)

/-- The directories on the way to some names, outermost first. -/
def parents (names : List Text) : List (List Text) :=
  (List.range (names.length - 1)).map fun n => names.take (n + 1)

/-- The directory under some names, added unless something stands there. -/
def addDirectory (f : Files) (names : List Text) : Files :=
  if (f.lookup? names).isSome then f else f.set names .directory

/-- The file at a path, with all directories on the way to it. -/
def put (f : Files) (path bytes : Text) : Files :=
  let names := plainNames path
  ((parents names).foldl addDirectory f).set names (.file bytes)

/-- The directory at a path, with all directories on the way to it. -/
def makeDirectory (f : Files) (path : Text) : Files :=
  let names := plainNames path
  addDirectory ((parents names).foldl addDirectory f) names

/-- Everything at or below a path removed; directories that always exist stay as they are. -/
def remove (f : Files) (path : Text) : Files :=
  let names := plainNames path
  if isFixed names then f else ⟨f.entries.filter fun e => !names.isPrefixOf e.1⟩

end Files

end XtAsm
