import XtAsm.Proofs.Scanner.Repetition
import XtAsm.Proofs.Stateful.Action

/-!
# Scanners with an index

A scanner goes through the characters with an index, which it moves on without a look at how many
characters there are.  Every access to a character has a precondition on the index.  Every turn of a
loop passes a character, so a bound above the number of characters is enough for all of them.

* `count`: the scanners by their loops;
* `runs_repeatFrom`: the loop of a repetition cuts off one piece after another;
* `runs_count`: every scanner comes to an end, meets all preconditions, and accepts as many
  characters as `Scanner.run` says.
-/

namespace XtAsm.Scanner

/-! ### Loops -/

section Loops

variable {σ : Type}

/-- The number of the given characters, if they stand in the input from an index on. -/
def compareFrom (chars input : List Char) : Nat → Nat → Action σ Nat
  | 0, _ => exhausted
  | n + 1, index => do
    if index < chars.length then
      if (← element input index) ≠ (← element chars index) then return 0
      else compareFrom chars input n (index + 1)
    else return chars.length

/-- One, if there is a first character and it passes a test. -/
def countOne (test : Char → Bool) (input : List Char) : Action σ Nat := do
  if input.length ≠ 0 then
    if test (← element input 0) then return 1 else return 0
  else return 0

/-- The index at which an item is found no more, from an index on. -/
def repeatFrom (item : List Char → Action σ Nat) (input : List Char) : Nat → Nat → Action σ Nat
  | 0, _ => exhausted
  | n + 1, index => do
    if index < input.length then
      let count ← item (← slice input index input.length)
      if count ≠ 0 then repeatFrom item input n (index + count) else return index
    else return index

/-- The index of a character, or of the end of the input, from an index on. -/
def seekFrom (stop : Char) (input : List Char) : Nat → Nat → Action σ Nat
  | 0, _ => exhausted
  | n + 1, index => do
    if index < input.length then
      if (← element input index) ≠ stop then seekFrom stop input n (index + 1) else return index
    else return index

mutual

/-- The number of characters that a scanner accepts, where no loop may take more turns than the
bound says. -/
def count (bound : Nat) : Scanner → List Char → Action σ Nat
  | .firstOf alternatives, input => countFirst bound alternatives input
  | .word chars, input =>
    if chars.length ≤ input.length then compareFrom chars input bound 0 else return 0
  | .within lowest highest, input => countOne (fun c => lowest ≤ c && c ≤ highest) input
  | .noneOf chars, input => countOne (fun c => c ∉ chars) input
  | .many item, input => repeatFrom (item.count bound) input bound 0
  | .upTo stop, input => seekFrom stop input bound 0

/-- The count of the first scanner that matches. -/
def countFirst (bound : Nat) : List Scanner → List Char → Action σ Nat
  | [], _ => return 0
  | s :: rest, input => do
    let count ← s.count bound input
    if 0 < count then return count else countFirst bound rest input

end

/-! ### Agreement -/

variable {st : σ} {n : Nat} {chars input front ahead : List Char}

theorem runs_compareFrom {more : List Char} (hc : chars = front ++ more)
    (hi : input = front ++ ahead) (enough : more.length ≤ ahead.length) (turns : more.length < n) :
    Runs (compareFrom chars input n front.length) st
      (if more.isPrefixOf ahead then chars.length else 0) st := by
  induction n generalizing front more ahead with
  | zero => exact absurd turns (Nat.not_lt_zero _)
  | succ n ih =>
    rw [compareFrom]
    cases more with
    | nil =>
      rw [if_neg (by simp [hc])]
      exact runs_pure _ _
    | cons c more =>
      obtain ⟨d, ahead, rfl⟩ := List.exists_cons_of_length_pos
        (Nat.lt_of_lt_of_le (Nat.succ_pos _) enough)
      have given : element chars front.length = .ok c := hc ▸ element_append front more c rfl
      have read : element input front.length = .ok d := hi ▸ element_append front ahead d rfl
      rw [if_pos (by simp [hc])]
      refine (runs_lift read _).bind ((runs_lift given _).bind ?_)
      by_cases same : d = c
      · subst same
        rw [if_neg (fun other => other rfl)]
        have later := @ih (front ++ [d]) ahead more (by simp [hc]) (by simp [hi])
          (Nat.le_of_succ_le_succ enough) (Nat.lt_of_succ_lt_succ turns)
        simpa [List.isPrefixOf] using later
      · rw [if_pos same, if_neg (by simp [List.isPrefixOf, Ne.symm same])]
        exact runs_pure _ _

theorem runs_countOne (test : Char → Bool) (input : List Char) (st : σ) :
    Runs (countOne test input) st (if input.head?.any test then 1 else 0) st := by
  rw [countOne]
  cases input with
  | nil => exact runs_pure _ _
  | cons c rest =>
    rw [if_pos (by simp)]
    refine (runs_lift (element_append [] rest c rfl) _).bind ?_
    show Runs (if test c = true then _ else _) _ (if test c = true then 1 else 0) _
    split <;> exact runs_pure _ _

/-- A repetition goes through the pieces, of which there are not more than characters. -/
theorem runs_repeatFrom {item : List Char → Action σ Nat} {accepted : List Char → Nat}
    (agrees : ∀ cs, cs.length ≤ ahead.length → Runs (item cs) st (accepted cs) st)
    {pieces : List (List Char)} {rest : List Char} (cut : Repeats accepted ahead pieces rest)
    (hi : input = front ++ ahead) (turns : ahead.length < n) :
    Runs (repeatFrom item input n front.length) st (front.length + pieces.flatten.length) st := by
  induction cut generalizing front n with
  | @stop rest nothing =>
    obtain ⟨n, rfl⟩ := Nat.exists_eq_succ_of_ne_zero (Nat.ne_zero_of_lt turns)
    rw [repeatFrom]
    split
    · have coming : slice input front.length input.length = .ok rest :=
        hi ▸ slice_rest front rest rfl
      have none := agrees rest (Nat.le_refl _)
      rw [nothing] at none
      exact (runs_lift coming _).bind (none.bind (runs_pure _ _))
    · exact runs_pure _ _
  | @next ahead piece after rest pieces split ne found more ih =>
    obtain ⟨n, rfl⟩ := Nat.exists_eq_succ_of_ne_zero (Nat.ne_zero_of_lt turns)
    have pos := List.length_pos_iff.mpr ne
    have size : ahead.length = piece.length + after.length := by
      rw [split, List.length_append]
    have coming : slice input front.length input.length = .ok ahead :=
      hi ▸ slice_rest front ahead rfl
    have one := agrees ahead (Nat.le_refl _)
    rw [found] at one
    have later := @ih n (front ++ piece) (fun cs hcs => agrees cs (by omega))
      (by rw [hi, split, List.append_assoc]) (by omega)
    rw [repeatFrom, if_pos (by rw [hi, List.length_append]; omega)]
    refine (runs_lift coming _).bind (one.bind ?_)
    rw [if_pos (Nat.ne_of_gt pos)]
    simpa [Nat.add_assoc] using later

theorem runs_seekFrom (stop : Char) (hi : input = front ++ ahead) (turns : ahead.length < n) :
    Runs (seekFrom stop input n front.length) st
      (front.length + (ahead.takeWhile (· ≠ stop)).length) st := by
  induction n generalizing front ahead with
  | zero => exact absurd turns (Nat.not_lt_zero _)
  | succ n ih =>
    rw [seekFrom]
    cases ahead with
    | nil =>
      rw [if_neg (by simp [hi])]
      exact runs_pure _ _
    | cons c ahead =>
      have read : element input front.length = .ok c := hi ▸ element_append front ahead c rfl
      rw [if_pos (by simp [hi])]
      refine (runs_lift read _).bind ?_
      by_cases found : c = stop
      · rw [if_neg (fun other => other found), List.takeWhile_cons_of_neg (by simpa using found)]
        exact runs_pure _ _
      · rw [if_pos found, List.takeWhile_cons_of_pos (by simpa using found)]
        have later := @ih (front ++ [c]) ahead (by simp [hi]) (Nat.lt_of_succ_lt_succ turns)
        simpa [Nat.add_assoc, Nat.add_comm 1] using later

mutual

/-- Every scanner comes to an end, meets all preconditions, and accepts as many characters as it
should. -/
theorem runs_count (s : Scanner) {bound : Nat} {input : List Char} (enough : input.length < bound)
    (st : σ) : Runs (s.count bound input) st (s.run input) st := by
  cases s with
  | firstOf alternatives =>
    rw [count, run]
    exact runs_countFirst alternatives enough st
  | word chars =>
    rw [count, run]
    by_cases fits : chars.length ≤ input.length
    · rw [if_pos fits]
      exact @runs_compareFrom σ st bound chars input [] input chars rfl rfl fits (by omega)
    · have longer : ¬ chars.isPrefixOf input := fun h =>
        fits (List.isPrefixOf_iff_prefix.mp h).length_le
      rw [if_neg fits, if_neg longer]
      exact runs_pure _ _
  | within lowest highest =>
    have one := runs_countOne (fun c => lowest ≤ c && c ≤ highest) input st
    rw [count]
    cases input with
    | nil => exact one
    | cons c rest => simpa [run] using one
  | noneOf chars =>
    have one := runs_countOne (fun c => c ∉ chars) input st
    rw [count]
    cases input with
    | nil => exact one
    | cons c rest =>
      rw [run]
      by_cases given : c ∈ chars <;> simpa [given] using one
  | many item =>
    obtain ⟨pieces, rest, cut⟩ := exists_repeats item.run_le_length input
    have loop := @runs_repeatFrom σ st bound input [] input (item.count bound) item.run
      (fun cs hcs => runs_count item (Nat.lt_of_le_of_lt hcs enough) st) pieces rest cut rfl enough
    rw [count, cut.run_many]
    simpa using loop
  | upTo stop =>
    have loop := @runs_seekFrom σ st bound input [] input stop rfl enough
    rw [count, run]
    simpa using loop

theorem runs_countFirst (alternatives : List Scanner) {bound : Nat} {input : List Char}
    (enough : input.length < bound) (st : σ) :
    Runs (countFirst bound alternatives input) st (runFirst alternatives input) st := by
  cases alternatives with
  | nil => exact runs_pure _ _
  | cons s rest =>
    have first := runs_count s enough st
    rw [countFirst, runFirst]
    refine first.bind ?_
    cases s.run input with
    | zero => exact runs_countFirst rest enough st
    | succ n => exact runs_pure _ _

end

end Loops

end XtAsm.Scanner
