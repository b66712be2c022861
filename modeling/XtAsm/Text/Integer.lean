import XtAsm.Text.Basic

/-!
# Reading 64-bit integers

A numeral is an optional sign and at least one decimal digit.  Its value has to fit into a signed
64-bit word; reading proceeds from the left and stops at the first digit that makes the magnitude
exceed 64 bits, or at the first byte that is no digit.
-/

namespace XtAsm.Text

/-- The number of 64-bit words. -/
def words : Nat := 0x10000000000000000

/-- The magnitude of the least signed 64-bit word. -/
def halfWords : Nat := 0x8000000000000000

/-- The integer congruent to the given one among the signed 64-bit words. -/
def wrap64 (i : Int) : Int := Int.bmod i words

/-- A signed 64-bit word stays as it is. -/
theorem wrap64_of_bounds {i : Int} (lower : -(halfWords : Int) ≤ i) (upper : i < halfWords) :
    wrap64 i = i := by
  simp only [halfWords] at lower upper
  exact Int.bmod_eq_of_le (by simp only [words]; omega) (by simp only [words]; omega)

/-- Why a text is not a 64-bit integer. -/
inductive IntegerError
  | malformed
  | outOfRange
  deriving DecidableEq

/-- The description of the defect. -/
def IntegerError.message : IntegerError → Text
  | .malformed => "invalid syntax"
  | .outOfRange => "value out of range"

/-- The digits after an already read magnitude, which stays below the number of words. -/
def magnitudeFrom (read : Nat) : Text → Except IntegerError Nat
  | [] => .ok read
  | b :: rest =>
    if 48 ≤ b ∧ b ≤ 57 then
      let next := read * 10 + (b.toNat - 48)
      if next < words then magnitudeFrom next rest else .error .outOfRange
    else .error .malformed

/-- At least one digit. -/
def magnitude : Text → Except IntegerError Nat
  | [] => .error .malformed
  | t => magnitudeFrom 0 t

/-- A magnitude that has to stay within a limit. -/
def bounded (limit : Nat) (t : Text) : Except IntegerError Nat :=
  match magnitude t with
  | .ok n => if n ≤ limit then .ok n else .error .outOfRange
  | .error e => .error e

/-- The signed 64-bit integer that a text denotes. -/
def readInt : Text → Except IntegerError Int
  | [] => .error .malformed
  | b :: rest =>
    if b = 45 then (bounded halfWords rest).map fun n => -(n : Int)
    else if b = 43 then (bounded (halfWords - 1) rest).map fun n => (n : Int)
    else (bounded (halfWords - 1) (b :: rest)).map fun n => (n : Int)

end XtAsm.Text
