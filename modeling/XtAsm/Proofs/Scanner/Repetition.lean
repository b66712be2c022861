import XtAsm.Scanner

/-!
# Matches in a row

To repeat a scanner is to cut the input into pieces, each of which is all that the scanner accepts
of what is left, until it accepts nothing.

* `Repeats`: the pieces, and what is left after them;
* `exists_repeats`, `Repeats.unique`: there is one way to cut every input;
* `Repeats.run_many`: the repetition of a scanner accepts the pieces and no more;
* `run_many_many`: a repetition that is repeated accepts nothing further.
-/

namespace XtAsm.Scanner

/-- The pieces that something accepts in a row from the start of the input on, and the rest, of
which it accepts nothing. -/
inductive Repeats (item : List Char → Nat) :
    List Char → List (List Char) → List Char → Prop
  | stop {rest : List Char} (nothing : item rest = 0) : Repeats item rest [] rest
  | next {input piece after rest : List Char} {pieces : List (List Char)}
    (split : input = piece ++ after) (ne : piece ≠ []) (accepted : item input = piece.length)
    (more : Repeats item after pieces rest) : Repeats item input (piece :: pieces) rest

namespace Repeats

variable {item : List Char → Nat} {input rest : List Char} {pieces : List (List Char)}

theorem eq_append (h : Repeats item input pieces rest) : input = pieces.flatten ++ rest := by
  induction h with
  | stop _ => rfl
  | next split _ _ _ ih => rw [split, ih, List.flatten_cons, List.append_assoc]

theorem item_rest (h : Repeats item input pieces rest) : item rest = 0 := by
  induction h with
  | stop nothing => exact nothing
  | next _ _ _ _ ih => exact ih

/-- What is accepted of the input decides the first piece, and so all of them. -/
theorem unique (h : Repeats item input pieces rest) {pieces' : List (List Char)}
    {rest' : List Char} (h' : Repeats item input pieces' rest') :
    pieces' = pieces ∧ rest' = rest := by
  induction h generalizing pieces' with
  | stop nothing =>
    cases h' with
    | stop _ => exact ⟨rfl, rfl⟩
    | next _ ne accepted _ =>
      rw [nothing] at accepted
      exact absurd (List.length_eq_zero_iff.mp accepted.symm) ne
  | next split ne accepted _ ih =>
    cases h' with
    | stop nothing =>
      rw [nothing] at accepted
      exact absurd (List.length_eq_zero_iff.mp accepted.symm) ne
    | next split' _ accepted' more' =>
      obtain ⟨rfl, rfl⟩ := List.append_inj (split.symm.trans split')
        (accepted.symm.trans accepted')
      obtain ⟨rfl, rfl⟩ := ih more'
      exact ⟨rfl, rfl⟩

end Repeats

/-- Every input can be cut, since every piece leaves less of it. -/
theorem exists_repeats {item : List Char → Nat} (bound : ∀ input, item input ≤ input.length)
    (input : List Char) : ∃ pieces rest, Repeats item input pieces rest := by
  induction size : input.length using Nat.strongRecOn generalizing input with
  | ind n ih =>
    by_cases nothing : item input = 0
    · exact ⟨[], input, .stop nothing⟩
    · have within := bound input
      have accepted : (input.take (item input)).length = item input :=
        List.length_take_of_le within
      have ne : input.take (item input) ≠ [] := fun empty => by
        rw [empty] at accepted
        exact nothing accepted.symm
      obtain ⟨pieces, rest, more⟩ := ih (input.drop (item input)).length
        (by rw [List.length_drop]; omega) _ rfl
      exact ⟨_, rest, .next (List.take_append_drop _ _).symm ne accepted.symm more⟩

/-! ### Repetitions -/

/-- The characters of a match are counted off before the next one is looked for. -/
theorem repeated_append (item : List Char → Nat) (cs rest : List Char) :
    repeated item cs.length (cs ++ rest) = cs.length + repeated item 0 rest := by
  induction cs with
  | nil => exact (Nat.zero_add _).symm
  | cons c cs ih =>
    rw [List.cons_append, List.length_cons, repeated, ih]
    omega

/-- The repetition of a scanner accepts the pieces and no more. -/
theorem Repeats.run_many {s : Scanner} {input rest : List Char} {pieces : List (List Char)}
    (h : Repeats s.run input pieces rest) : (many s).run input = pieces.flatten.length := by
  rw [run]
  induction h with
  | @stop rest nothing =>
    cases rest with
    | nil => rfl
    | cons c rest => simp only [repeated, nothing, List.flatten_nil, List.length_nil]
  | @next input piece after rest pieces split ne accepted more ih =>
    obtain ⟨c, cs, rfl⟩ := List.exists_cons_of_ne_nil ne
    rw [split, List.cons_append, List.length_cons] at accepted
    rw [split, List.cons_append, repeated, accepted]
    simp only [repeated_append, ih, List.flatten_cons, List.length_append, List.length_cons]
    omega

theorem run_many_of_run {s : Scanner} {input : List Char} (h : s.run input = 0) :
    (many s).run input = 0 :=
  Repeats.run_many (.stop h)

/-- A repetition that is repeated accepts nothing further. -/
theorem run_many_many (s : Scanner) (input : List Char) :
    (many (many s)).run input = (many s).run input := by
  obtain ⟨pieces, rest, cut⟩ := exists_repeats s.run_le_length input
  have accepted := cut.run_many
  by_cases nothing : pieces.flatten = []
  · rw [nothing] at accepted
    rw [accepted, run_many_of_run accepted]
    rfl
  · -- all pieces together are the only piece of the outer repetition
    have whole : Repeats (many s).run input [pieces.flatten] rest :=
      .next cut.eq_append nothing accepted (.stop (run_many_of_run cut.item_rest))
    rw [whole.run_many, accepted, List.flatten_cons, List.flatten_nil, List.append_nil]

end XtAsm.Scanner
