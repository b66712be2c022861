import XtAsm.CommandLine.Run

/-!
# The program

Reads the files that a command line names, runs the command line on them, and writes what it leaves
behind.
-/

namespace XtAsm.Program

/-- A text as a string. -/
def toPath (t : Text) : String := String.ofList (Text.toChars t)

/-- What stands at a path.  Whatever is there but cannot be read as a file counts as a
directory. -/
def entryAt (path : Text) : IO (Option Entry) := do
  try
    let bytes ← IO.FS.readBinFile (toPath path)
    return some (.file bytes.toList)
  catch
    | .noFileOrDirectory .. => return none
    | _ => return some .directory

/-- The path of the directory that a path lies in. -/
def parent (path : Text) : Text :=
  let names := (Text.splitOn Files.separator path).dropLast
  if names = [] then Files.dot else Text.join Files.root names

/-- The files with what stands at a path, or with the directory that it would stand in. -/
def load (files : Files) (path : Text) : IO Files := do
  match ← entryAt path with
  | some (.file bytes) => return files.put path bytes
  | some .directory => return files.makeDirectory path
  | none =>
    match ← entryAt (parent path) with
    | some .directory => return files.makeDirectory (parent path)
    | _ => return files

/-- The bytes of a text. -/
def toBytes (t : Text) : ByteArray := ⟨t.toArray⟩

end XtAsm.Program

open XtAsm XtAsm.CommandLine XtAsm.Program in
/-- Runs a command line. -/
def main (arguments : List String) : IO UInt32 := do
  let invocation := Invocation.ofArguments (arguments.map Text.ofString)
  let files ← invocation.paths.foldlM load Files.empty
  let outcome := perform ⟨files, fun _ => none, "(unknown version)"⟩ invocation
  (← IO.getStdout).write (toBytes outcome.stdout)
  (← IO.getStderr).write (toBytes outcome.stderr)
  if outcome.exit = 0 then
    if let some path := invocation.outputPath? then
      if let .ok bytes := outcome.files.read path then
        IO.FS.writeBinFile (toPath path) (toBytes bytes)
  return UInt32.ofNat outcome.exit
