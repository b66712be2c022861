import XtAsm.Fault
import XtAsm.Text.Integer

/-!
# Places in a source file

* `distance`: how far apart two offsets are;
* `Span`: a range of characters, counted from 0;
* `Position`: a line and a column of a named file, both counted from 1;
* `SyntaxError`: a message about the characters that start at a position.
-/

namespace XtAsm

/-- How far one offset lies behind another, in 64-bit arithmetic.  Offsets of a file are never
negative, and are as far apart as they say. -/
def distance (start stop : Int) : Int :=
  if 0 ≤ start ∧ 0 ≤ stop then stop - start else Text.wrap64 (stop - start)

theorem distance_of_nonneg {start stop : Int} (h : 0 ≤ start) (h' : 0 ≤ stop) :
    distance start stop = stop - start := if_pos ⟨h, h'⟩

/-- Between 64-bit offsets the distance is their difference as a 64-bit word. -/
theorem distance_eq_wrap64 {start stop : Int} (h : start < Text.halfWords)
    (h' : stop < Text.halfWords) : distance start stop = Text.wrap64 (stop - start) := by
  unfold distance
  split
  · exact (Text.wrap64_of_bounds (by omega) (by omega)).symm
  · rfl

/-- A range of characters from `start` up to, but without, `stop`. -/
structure Span where
  start : Int
  stop : Int
  start_le_stop : start ≤ stop
  deriving DecidableEq

namespace Span

/-- The span between two offsets, which have to be in order. -/
def ofBounds (start stop : Int) : Except Fault Span :=
  if h : start ≤ stop then .ok ⟨start, stop, h⟩ else .error (.invalidSpan start stop)

/-- The number of characters that a span covers. -/
def length (s : Span) : Int := distance s.start s.stop

/-- A span of a file covers as many characters as lie between its bounds. -/
theorem length_of_nonneg (s : Span) (h : 0 ≤ s.start) : s.length = s.stop - s.start :=
  distance_of_nonneg h (Int.le_trans h s.start_le_stop)

/-- The two bounds, with two dots between them. -/
def render (s : Span) : Text := Text.ofInt s.start ++ ".." ++ Text.ofInt s.stop

end Span

/-- A character of a named file.  Line and column are counted from 1. -/
structure Position where
  file : Text
  line : Int
  column : Int
  deriving DecidableEq

namespace Position

/-- The position used where no place in a file applies. -/
def none : Position := ⟨[], 0, 0⟩

/-- The position refers to an actual place. -/
def isValid (p : Position) : Bool := 0 < p.line && 0 < p.column

/-- File, line and column, with colons between them. -/
def render (p : Position) : Text :=
  p.file ++ ":" ++ Text.ofInt p.line ++ ":" ++ Text.ofInt p.column

end Position

/-- A defect of a source file, covering `length` characters from a position on. -/
structure SyntaxError where
  position : Position
  length : Int
  message : Text
  deriving DecidableEq

namespace SyntaxError

/-- Position and message. -/
def render (e : SyntaxError) : Text := e.position.render ++ " - " ++ e.message

end SyntaxError

end XtAsm
