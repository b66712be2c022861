import XtAsm.Proofs.Listing.Simulation

/-!
# Executing a block on its own

A block of lines is executed from its first line on, given an integer for every operand text.
Nothing in it changes the operands.  Execution falls off the end of the block, or jumps to a label
that the block does not place.  On the way it is recorded which comparisons are executed.

* `comparisons`, `labelTexts`: the comparisons and the labels of a block;
* `State`, `step`: executing one line;
* `Ends`: what execution comes to.
-/

namespace XtAsm

/-- The truth of a comparison.  A byte without a meaning is taken for "not less". -/
def Comparator.holds (op : Comparator) (a b : Int) : Bool := (op.relation?.getD .ge).holds a b

/-- The conditional jump for a comparison is taken exactly if the comparison is true. -/
theorem Listing.lookup_jumpMnemonic (op : Comparator) :
    Machine.branches.lookup (jumpMnemonic op : Text) = some (op.relation?.getD .ge) := by
  rw [jumpMnemonic]
  cases op.relation? with
  | none => rfl
  | some r => cases r <;> rfl

namespace Listing

/-- The operands that the lines of a block compare, in order. -/
def comparisons (block : List Line) : List (Text × Text) :=
  block.filterMap fun
    | .compare lhs rhs => some (lhs, rhs)
    | _ => none

/-- The label that a line places, as it is spelt. -/
def labelText? : Line → Option Text
  | .label l => some l.render
  | _ => none

/-- The labels that a block places. -/
def labelTexts (block : List Line) : List Text := block.filterMap labelText?

namespace Block

/-- How execution leaves a block. -/
inductive Exit
  | fell
  | jumped (target : Text)
  | stuck

/-- The next line, the two integers compared last, and the numbers of the comparisons that have been
executed; the first comparison of the block has the number 0. -/
structure State where
  pc : Nat
  compared? : Option (Int × Int)
  consulted : List Nat

/-- The state before the first line. -/
def State.start : State := ⟨0, none, []⟩

/-- How execution has left the block, and the comparisons that have been executed. -/
structure Result where
  exit : Exit
  consulted : List Nat

section

variable (value : Text → Int) (block : List Line)

/-- The place of a label: the first line that consists of it. -/
def position? (target : Text) : Option Nat := block.findIdx? fun l => labelText? l = some target

/-- Goes on at a label, or leaves the block if it does not place the label. -/
def goTo (s : State) (target : Text) : Except Result State :=
  match position? block target with
  | some pc => .ok { s with pc := pc }
  | none => .error ⟨.jumped target, s.consulted⟩

/-- Executes the next line.  After the last line execution falls off the end. -/
def step (s : State) : Except Result State :=
  match block[s.pc]? with
  | none => .error ⟨.fell, s.consulted⟩
  | some (.label _) => .ok { s with pc := s.pc + 1 }
  | some (.compare lhs rhs) =>
    .ok ⟨s.pc + 1, some (value lhs, value rhs),
      s.consulted ++ [(comparisons (block.take s.pc)).length]⟩
  | some (.branch op target) =>
    match s.compared?, Machine.branches.lookup (jumpMnemonic op : Text) with
    | some (a, b), some r =>
      if r.holds a b then goTo block s target.render else .ok { s with pc := s.pc + 1 }
    | _, _ => .error ⟨.stuck, s.consulted⟩
  | some (.jump target) => goTo block s target.render
  | some _ => .error ⟨.stuck, s.consulted⟩

/-- What execution comes to, from a state on or after it has left the block. -/
inductive Ends : Except Result State → Result → Prop
  | stop {r : Result} : Ends (.error r) r
  | step {s : State} {r : Result} (h : Ends (Block.step value block s) r) : Ends (.ok s) r

end

section

variable {value : Text → Int} {block ls : List Line} {r : Result} {pc : Nat}
  {compared? : Option (Int × Int)} {consulted : List Nat}

/-- Execution comes to one result only. -/
theorem Ends.unique {x : Except Result State} {r' : Result} (h : Ends value block x r)
    (h' : Ends value block x r') : r = r' := by
  induction h with
  | stop =>
    cases h'
    rfl
  | step _ ih =>
    cases h' with
    | step h' => exact ih h'

theorem getElem?_of_at {l : Line} (here : At block pc (l :: ls)) : block[pc]? = some l := by
  obtain ⟨before, after, rfl, rfl⟩ := here
  simp

theorem ends_label {l : Label} (here : At block pc (.label l :: ls))
    (next : Ends value block (.ok ⟨pc + 1, compared?, consulted⟩) r) :
    Ends value block (.ok ⟨pc, compared?, consulted⟩) r := by
  apply Ends.step
  rw [step, getElem?_of_at here]
  exact next

theorem ends_compare {lhs rhs : Text} (here : At block pc (.compare lhs rhs :: ls))
    (next : Ends value block (.ok ⟨pc + 1, some (value lhs, value rhs),
      consulted ++ [(comparisons (block.take pc)).length]⟩) r) :
    Ends value block (.ok ⟨pc, compared?, consulted⟩) r := by
  apply Ends.step
  rw [step, getElem?_of_at here]
  exact next

/-- A conditional jump is taken if the comparison is true. -/
theorem ends_branch {op : Comparator} {target : Label} {a b : Int}
    (here : At block pc (.branch op target :: ls))
    (taken : op.holds a b = true →
      Ends value block (goTo block ⟨pc, some (a, b), consulted⟩ target.render) r)
    (passed : op.holds a b = false →
      Ends value block (.ok ⟨pc + 1, some (a, b), consulted⟩) r) :
    Ends value block (.ok ⟨pc, some (a, b), consulted⟩) r := by
  apply Ends.step
  rw [step, getElem?_of_at here]
  simp only [lookup_jumpMnemonic]
  rw [Comparator.holds] at taken passed
  split
  · exact taken ‹_›
  · exact passed (Bool.eq_false_iff.2 ‹_›)

theorem ends_end (past : block.length ≤ pc) :
    Ends value block (.ok ⟨pc, compared?, consulted⟩) ⟨.fell, consulted⟩ := by
  apply Ends.step
  rw [step, List.getElem?_eq_none past]
  exact .stop

/-- No line is found for a label that is not placed. -/
theorem findIdx?_of_not_mem {target : Text} (absent : target ∉ labelTexts ls) :
    ls.findIdx? (fun l => labelText? l = some target) = none := by
  rw [List.findIdx?_eq_none_iff]
  intro l mem
  exact decide_eq_false fun placed => absent (List.mem_filterMap.2 ⟨l, mem, placed⟩)

/-- A label that is placed once stands where it is placed. -/
theorem goTo_of_at (nodup : (labelTexts block).Nodup) {l : Label}
    (here : At block pc (.label l :: ls)) (s : State) :
    goTo block s l.render = .ok { s with pc := pc } := by
  obtain ⟨before, after, rfl, rfl⟩ := here
  have absent : l.render ∉ labelTexts before := by
    simp only [labelTexts, List.filterMap_append, List.append_assoc] at nodup
    exact fun mem => (List.nodup_append.1 nodup).2.2 _ mem _ (by simp [labelText?]) rfl
  rw [goTo, position?, List.append_assoc, List.findIdx?_append, findIdx?_of_not_mem absent]
  simp [List.findIdx?_cons, labelText?]

/-- A jump to a label that is not placed leaves the block. -/
theorem goTo_of_not_mem {target : Text} (absent : target ∉ labelTexts block) (s : State) :
    goTo block s target = .error ⟨.jumped target, s.consulted⟩ := by
  rw [goTo, position?, findIdx?_of_not_mem absent]

end

end Block

end Listing

end XtAsm
