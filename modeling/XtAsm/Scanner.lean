/-!
# Scanners

A scanner looks at the head of a list of characters and tells how many of them it accepts, where
none means that it does not match.

* `Scanner`, the combinators;
* `Scanner.run`, their meaning.
-/

namespace XtAsm

/-- The scanner combinators. -/
inductive Scanner
  /-- The first of several scanners that matches. -/
  | firstOf (alternatives : List Scanner)
  /-- Exactly the given characters. -/
  | word (chars : List Char)
  /-- One character between two bounds, both included. -/
  | within (lowest highest : Char)
  /-- One character other than the given ones. -/
  | noneOf (chars : List Char)
  /-- As many matches in a row as there are. -/
  | many (item : Scanner)
  /-- Everything before the first occurrence of a character. -/
  | upTo (stop : Char)

namespace Scanner

/-- The number of characters that matches in a row accept.  The accepted ones are counted off one
by one; `pending` of the coming characters belong to the last match. -/
def repeated (item : List Char → Nat) (pending : Nat) : List Char → Nat
  | [] => 0
  | c :: rest =>
    match pending with
    | n + 1 => 1 + repeated item n rest
    | 0 =>
      match item (c :: rest) with
      | 0 => 0
      | n + 1 => 1 + repeated item n rest

theorem repeated_le_length (item : List Char → Nat) (pending : Nat) (input : List Char) :
    repeated item pending input ≤ input.length := by
  induction input generalizing pending with
  | nil => simp [repeated]
  | cons c rest ih =>
    cases pending with
    | succ n =>
      have := ih n
      simp only [repeated, List.length_cons]
      omega
    | zero =>
      simp only [repeated, List.length_cons]
      split
      · omega
      · next n _ =>
        have := ih n
        omega

mutual

/-- The number of characters at the head of the input that a scanner accepts. -/
def run : Scanner → List Char → Nat
  | .firstOf alternatives, input => runFirst alternatives input
  | .word chars, input => if chars.isPrefixOf input then chars.length else 0
  | .within lowest highest, input =>
    match input with
    | c :: _ => if lowest ≤ c ∧ c ≤ highest then 1 else 0
    | [] => 0
  | .noneOf chars, input =>
    match input with
    | c :: _ => if c ∈ chars then 0 else 1
    | [] => 0
  | .many item, input => repeated item.run 0 input
  | .upTo stop, input => (input.takeWhile (· ≠ stop)).length

/-- The count of the first scanner that matches. -/
def runFirst : List Scanner → List Char → Nat
  | [], _ => 0
  | s :: rest, input =>
    match s.run input with
    | 0 => runFirst rest input
    | n + 1 => n + 1

end

mutual

/-- A scanner accepts no more characters than there are. -/
theorem run_le_length (s : Scanner) (input : List Char) : s.run input ≤ input.length := by
  cases s with
  | firstOf alternatives =>
    rw [run]
    exact runFirst_le_length alternatives input
  | word chars =>
    rw [run]
    split
    · next h => exact (List.isPrefixOf_iff_prefix.1 h).length_le
    · exact Nat.zero_le _
  | within lowest highest =>
    cases input with
    | nil => exact Nat.le_refl 0
    | cons c rest =>
      simp only [run, List.length_cons]
      split <;> omega
  | noneOf chars =>
    cases input with
    | nil => exact Nat.le_refl 0
    | cons c rest =>
      simp only [run, List.length_cons]
      split <;> omega
  | many item =>
    rw [run]
    exact repeated_le_length _ _ _
  | upTo stop =>
    rw [run]
    exact (List.takeWhile_prefix _).length_le

theorem runFirst_le_length (alternatives : List Scanner) (input : List Char) :
    runFirst alternatives input ≤ input.length := by
  cases alternatives with
  | nil => exact Nat.zero_le _
  | cons s rest =>
    rw [runFirst]
    split
    · exact runFirst_le_length rest input
    · next n h =>
      have := run_le_length s input
      omega

end

end Scanner

end XtAsm
