import XtAsm.Proofs.Source.Lines
import XtAsm.Proofs.Stateful.Action
import XtAsm.Proofs.Token.Extent
import XtAsm.Terminal.Display

/-!
# Displaying errors without faults

The display of an error picks a line by its number, cuts it out of the characters of its file, and
repeats blanks and carets.  All of that has preconditions.

* `printError`: the display by checked accesses;
* `printError_eq_showError`: the accesses are always possible;
* `highlight_cases`: what a highlight is, unless the carets do not fit anywhere;
* `showError_of_within`: so is everything else for an error that lies within a file, unless the file
  is too large for the carets to fit anywhere.
-/

namespace XtAsm.Terminal

/-- The text of a line, cut out of the characters of its file. -/
def cutLine (s : Source) (l : Line) : Except Fault Text := do
  return Text.ofChars (← slice s.contents l.start (l.start + l.length))

/-- The line of a file with the given number, if there is one. -/
def pickLine (s : Source) (number : Int) : Except Fault (Option Text) := do
  if number < 1 ∨ s.lines.length < number then return none
  else return some (← cutLine s (← element s.lines (number - 1)))

/-- The line of a file on which a position lies. -/
def findLine (files : Files) (p : Position) : Except Fault (Option Text) :=
  match Compiler.readSources files [p.file] with
  | .error _ => return none
  | .ok sources => do
    pickLine (← element sources 0) p.line

/-- The display of a syntax error by checked accesses. -/
def printError (files : Files) (e : SyntaxError) (colour : Bool) : Except Fault Text := do
  match ← findLine files e.position with
  | none => return []
  | some line => highlight line e.position.column e.length colour

theorem cutLine_of_mem {s : Source} {l : Line} (h : l ∈ s.lines) : cutLine s l = .ok l.text := by
  obtain ⟨u, v, split, start, -⟩ := Source.exists_split_of_mem_lines h
  have cut : slice s.contents l.start (l.start + l.length) = .ok l.chars := by
    rw [split, ← start]
    exact slice_append u l.chars v rfl rfl
  rw [cutLine, cut]
  rfl

/-- A number that is not too large picks a line. -/
theorem pickLine_eq (s : Source) (number : Int) :
    pickLine s number =
      .ok (if number < 1 then none else (s.lines[number.toNat - 1]?).map (·.text)) := by
  rw [pickLine]
  by_cases low : number < 1
  · rw [if_pos (.inl low), if_pos low]
    rfl
  · rw [if_neg low]
    obtain ⟨n, index⟩ := Int.eq_ofNat_of_zero_le (show 0 ≤ number - 1 by omega)
    rw [show number.toNat - 1 = n by omega]
    by_cases high : s.lines.length < number
    · rw [if_pos (.inr high), List.getElem?_eq_none (by omega)]
      rfl
    · have inside : n < s.lines.length := by omega
      have picked : element s.lines (number - 1) = .ok s.lines[n] := by
        rw [index]
        simp [element, inside]
      have cut := cutLine_of_mem (List.getElem_mem inside)
      rw [if_neg (by omega), List.getElem?_eq_getElem inside]
      simp only [picked, cut, bind, Except.bind]
      rfl

theorem findLine_eq (files : Files) (p : Position) :
    findLine files p = .ok (sourceLine files p) := by
  rw [findLine, sourceLine, Compiler.readSources, Compiler.readSources]
  cases Compiler.readSource files p.file with
  | error e => rfl
  | ok source => exact pickLine_eq source p.line

/-- The accesses of a display are always possible. -/
theorem printError_eq_showError (files : Files) (e : SyntaxError) (colour : Bool) :
    printError files e colour = showError files e colour := by
  rw [printError, showError, findLine_eq]
  cases sourceLine files e.position <;> rfl

/-! ### Repetitions -/

/-- Nothing but the capacity can stop a repetition that is not negative. -/
theorem repeated_of_nonneg (b : UInt8) {count : Int} (h : 0 ≤ count) :
    Text.repeated b count = .ok (List.replicate count.toNat b) ∨
      (Text.repeated b count = .error .excessiveCount ∧ capacity < count) := by
  rw [Text.repeated, if_neg (Int.not_lt.mpr h)]
  split
  · next large => exact .inr ⟨rfl, large⟩
  · exact .inl rfl

/-- Only the capacity can stop a highlight from the first column on. -/
theorem highlight_cases (line : Text) {column : Int} (h : 1 ≤ column) (length : Int)
    (colour : Bool) :
    (highlight line column length colour = .ok (line ++ "\n" ++ Text.spaces (column - 1).toNat ++
      (if colour then Escape.bold.colour red else .plain).wrap
        (List.replicate (max 1 length).toNat 94) ++ "\n")) ∨
    (highlight line column length colour = .error .excessiveCount ∧
      capacity < max column length) := by
  have margin : distance 1 column = column - 1 := distance_of_nonneg (by omega) (by omega)
  simp only [highlight, margin]
  rcases repeated_of_nonneg 32 (show 0 ≤ column - 1 by omega) with left | ⟨left, large⟩
  · rw [left]
    rcases repeated_of_nonneg 94 (show 0 ≤ max 1 length by omega) with right | ⟨right, large⟩
    · rw [right]
      exact .inl rfl
    · rw [right]
      exact .inr ⟨rfl, by omega⟩
  · rw [left]
    exact .inr ⟨rfl, by omega⟩

/-- An error that lies within a file can be displayed, whatever its file has become, as long as the
file is within the capacity. -/
theorem showError_of_within {e : SyntaxError} {size : Nat} (h : e.Within size) (files : Files)
    (colour : Bool) :
    (∃ t, showError files e colour = .ok t) ∨
      (showError files e colour = .error .excessiveCount ∧ capacity < size) := by
  obtain ⟨⟨pos, column⟩, length⟩ := h
  rw [showError]
  cases sourceLine files e.position with
  | none => exact .inl ⟨_, rfl⟩
  | some line =>
    rcases highlight_cases line pos e.length colour with shown | ⟨failed, large⟩
    · exact .inl ⟨_, shown⟩
    · exact .inr ⟨failed, by omega⟩

end XtAsm.Terminal
