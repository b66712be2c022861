import XtAsm.Text.Basic

/-!
# Broken preconditions

Some operations are only defined under a condition on their arguments.  Called outside of it they
yield a `Fault` rather than a value.
-/

namespace XtAsm

/-- A precondition that a caller did not meet. -/
inductive Fault
  /-- A span may not end before it starts. -/
  | invalidSpan (start stop : Int)
  /-- A table row needs one cell for every column. -/
  | columnCount
  /-- Only a present value can be taken out of an option. -/
  | absentValue
  /-- Nothing can be repeated a negative number of times. -/
  | negativeCount
  /-- Nothing can take up more than the capacity. -/
  | excessiveCount
  /-- An index has to lie within its list. -/
  | outOfRange
  deriving DecidableEq

namespace Fault

/-- The description of a fault. -/
def message : Fault → Text
  | .invalidSpan start stop => "invalid span " ++ Text.ofInt start ++ ".." ++ Text.ofInt stop
  | .columnCount => "incorrect number of columns"
  | .absentValue => "cannot unwrap an empty option"
  | .negativeCount => "strings: negative Repeat count"
  | .excessiveCount => "runtime error"
  | .outOfRange => "runtime error"

end Fault

/-- The value of an option that has to be present. -/
def present {α : Type} : Option α → Except Fault α
  | some a => .ok a
  | none => .error .absentValue

/-- The most bytes that anything can take up. -/
def capacity : Nat := 0x1000000000000

/-- A byte in a row, as often as a number says.  The number may not be negative, and the row has to
stay within the capacity. -/
def Text.repeated (b : UInt8) (count : Int) : Except Fault Text :=
  if count < 0 then .error .negativeCount
  else if (capacity : Int) < count then .error .excessiveCount
  else .ok (List.replicate count.toNat b)

theorem Text.repeated_of_le (b : UInt8) {n : Nat} (h : n ≤ capacity) :
    Text.repeated b n = .ok (List.replicate n b) := by
  have small : ¬ (capacity : Int) < n := by omega
  simp [Text.repeated, small]

end XtAsm
