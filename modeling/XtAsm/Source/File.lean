import XtAsm.Source.Position
import XtAsm.Text.Utf8

/-!
# Source files

The contents of a source file are characters, in which every line, the last one included, ends
with a newline.

* `Source.ofText`: the source file with the given bytes;
* `Source.lines`: all its lines;
* `Source.lineAt`, `Source.positionOf`: the line, and the position, of a character;
* `Source.enclosingLine`: the line on which a span starts.
-/

namespace XtAsm

/-- A named file and its characters. -/
structure Source where
  file : Text
  contents : List Char
  deriving DecidableEq

/-- A line of a source file, without its newline. -/
structure Line where
  /-- Lines are numbered from 1. -/
  number : Nat
  /-- The offset of the first character. -/
  start : Nat
  chars : List Char
  deriving DecidableEq

namespace Line

/-- The number of characters of a line. -/
def length (l : Line) : Nat := l.chars.length

/-- The characters of a line, in UTF-8. -/
def text (l : Line) : Text := Text.ofChars l.chars

end Line

namespace Source

/-- The lines of some bytes, without their newlines.  Bytes after the last newline form a line
too; there is no line after a newline at the very end. -/
def cutLines : Text → List Text
  | [] => []
  | b :: rest =>
    if b = Text.newline then [] :: cutLines rest
    else match cutLines rest with
      | [] => [[b]]
      | line :: lines => (b :: line) :: lines

/-- Every line of the given bytes, each ended by a newline. -/
def terminateLines (bytes : Text) : Text :=
  (cutLines bytes).flatMap fun line => line ++ [Text.newline]

/-- The source file with the given name and bytes. -/
def ofText (file bytes : Text) : Source := ⟨file, Text.toChars (terminateLines bytes)⟩

/-- The number of characters of a source file. -/
def size (s : Source) : Nat := s.contents.length

/-- The lines of the remaining characters, given the number and the start of the current line and
its characters so far in reverse. -/
def linesFrom (number start : Nat) (before : List Char) : List Char → List Line
  | [] => if before = [] then [] else [⟨number, start, before.reverse⟩]
  | c :: rest =>
    if c = '\n' then
      ⟨number, start, before.reverse⟩ ::
        linesFrom (number + 1) (start + before.length + 1) [] rest
    else linesFrom number start (c :: before) rest

/-- The lines of a source file, in order. -/
def lines (s : Source) : List Line := linesFrom 1 0 [] s.contents

/-- The line on which a walk through the characters ends after some more steps, given how far it
has come, and the number, the start and the characters from the start on of the line it is on.  A
newline at the very end starts no further line. -/
def enclosingFrom (passed number start : Nat) (fromStart : List Char) : Nat → List Char → Line
  | n + 1, c :: rest =>
    if c = '\n' ∧ rest ≠ [] then
      enclosingFrom (passed + 1) (number + 1) (passed + 1) rest n rest
    else enclosingFrom (passed + 1) number start fromStart n rest
  | _, _ => ⟨number, start, fromStart.takeWhile (· ≠ '\n')⟩

/-- The line around the character at an offset.  Every offset outside of the file belongs to the
last line. -/
def lineAt (s : Source) (offset : Int) : Line :=
  let steps := if 0 ≤ offset ∧ offset < s.size then offset.toNat else s.size
  enclosingFrom 0 1 0 s.contents steps s.contents

/-- The line on which a span starts. -/
def enclosingLine (s : Source) (span : Span) : Line := s.lineAt span.start

/-- The position of the character at an offset.  Offsets beyond the end of the file count as its
end. -/
def positionOf (s : Source) (offset : Int) : Position :=
  let line := s.lineAt offset
  ⟨s.file, line.number, distance line.start (min offset s.size + 1)⟩

end Source

end XtAsm
