import XtAsm.Expectation
import XtAsm.Proofs.Text.Numeral

/-!
# The form of an annotation

An annotation is cut at its colons, its span at the dash, and what stands after the third colon is
put together again.

* `splitOn_append`, `not_mem_of_mem_splitOn`: cutting a text at a byte;
* `Reads`: the parts that a text consists of if it is read as an annotation;
* `parse_eq_ok_iff`: exactly these texts are read;
* `Announces`: annotations whose numbers are decimal numerals, and which are therefore read.
-/

namespace XtAsm

namespace Text

/-! ### Pieces -/

variable {sep : UInt8} {t : Text}

theorem splitOn_of_not_mem (h : sep ∉ t) : splitOn sep t = [t] := by
  induction t with
  | nil => rfl
  | cons b t ih =>
    rw [List.mem_cons, not_or] at h
    rw [splitOn, if_neg (Ne.symm h.1), ih h.2]

/-- The first piece goes on up to the first separator. -/
theorem splitOn_append (h : sep ∉ t) (rest : Text) :
    splitOn sep (t ++ sep :: rest) = t :: splitOn sep rest := by
  induction t with
  | nil => rw [List.nil_append, splitOn, if_pos rfl]
  | cons b t ih =>
    rw [List.mem_cons, not_or] at h
    rw [List.cons_append, splitOn, if_neg (Ne.symm h.1), ih h.2]

/-- No piece goes beyond a separator. -/
theorem not_mem_of_mem_splitOn {piece : Text} (h : piece ∈ splitOn sep t) : sep ∉ piece := by
  induction t generalizing piece with
  | nil =>
    rw [List.mem_singleton.mp h]
    exact List.not_mem_nil
  | cons b t ih =>
    rw [splitOn] at h
    split at h
    · rcases List.mem_cons.mp h with rfl | later
      · exact List.not_mem_nil
      · exact ih later
    · next other =>
      obtain ⟨first, pieces, cut⟩ := List.exists_cons_of_ne_nil (splitOn_ne_nil sep t)
      rw [cut] at h ih
      rcases List.mem_cons.mp h with rfl | later
      · exact List.not_mem_cons_of_ne_of_not_mem (Ne.symm other) (ih List.mem_cons_self)
      · exact ih (List.mem_cons_of_mem _ later)

end Text

namespace Expectation

/-! ### Numbers -/

section

variable {ε α β : Type} {x : Except ε α}

/-- Steps in a row succeed if each of them does. -/
theorem bind_eq_ok_iff {f : α → Except ε β} {b : β} :
    x >>= f = .ok b ↔ ∃ a, x = .ok a ∧ f a = .ok b := by
  cases x with
  | ok a => exact ⟨fun h => ⟨a, rfl, h⟩, by rintro ⟨_, ⟨⟩, h⟩; exact h⟩
  | error e => exact ⟨nofun, by rintro ⟨_, ⟨⟩, _⟩⟩

/-- What comes after a check succeeds only if the check does. -/
theorem check_eq_ok_iff {refused : Prop} [Decidable refused] {e : ε} {a : α} :
    (if refused then (do throw e; x) else x) = .ok a ↔ ¬ refused ∧ x = .ok a := by
  split
  · next h => exact ⟨nofun, fun both => absurd h both.1⟩
  · next h => exact ⟨fun ok => ⟨h, ok⟩, And.right⟩

end

theorem number_eq_ok_iff {span t : Text} {value : Int} :
    number span t = .ok value ↔ Text.readInt t = .ok value := by
  rw [number]
  cases Text.readInt t with
  | ok n => constructor <;> rintro ⟨⟩ <;> rfl
  | error e => constructor <;> rintro ⟨⟩

theorem lineNumber_eq_ok_iff {line span : Text} {n : Int} :
    lineNumber line span = .ok n ↔ Text.readInt line = .ok n ∧ n ≠ 0 := by
  simp only [lineNumber, bind_eq_ok_iff, number_eq_ok_iff, check_eq_ok_iff]
  constructor
  · rintro ⟨_, read, ne, ⟨⟩⟩
    exact ⟨read, ne⟩
  · rintro ⟨read, ne⟩
    exact ⟨n, read, ne, rfl⟩

/-- The two columns of a span are what stands around its only dash. -/
theorem columns_eq_ok_iff {span : Text} {start stop : Int} :
    columns span = .ok (start, stop) ↔
      ∃ first last, Text.splitOn 45 span = [first, last] ∧ Text.readInt first = .ok start ∧
        Text.readInt last = .ok stop ∧ start ≠ 0 ∧ start ≤ stop := by
  rw [columns]
  split
  · next first last cut =>
    simp only [bind_eq_ok_iff, number_eq_ok_iff, check_eq_ok_iff, cut]
    constructor
    · rintro ⟨_, left, ne, _, right, forward, ⟨⟩⟩
      exact ⟨first, last, rfl, left, right, ne, Int.not_lt.mp forward⟩
    · rintro ⟨_, _, ⟨⟩, left, right, ne, forward⟩
      exact ⟨start, left, ne, stop, right, Int.not_lt.mpr forward, rfl⟩
  · next other =>
    refine ⟨nofun, ?_⟩
    rintro ⟨first, last, cut, -⟩
    exact absurd cut (other first last)

/-! ### Annotations -/

/-- The text is read as an annotation.  Its line number stands between the first two colons, and
its columns around a dash before the third one.  None of these numbers is zero, and the columns are
in order. -/
inductive Reads : Text → Expected → Prop
  | mk {head line first last : Text} {e : Expected}
      (colons : ∀ t ∈ [head, line, first, last], 58 ∉ t) (dashes : ∀ t ∈ [first, last], 45 ∉ t)
      (line_eq : Text.readInt line = .ok e.line) (line_ne : e.line ≠ 0)
      (start_eq : Text.readInt first = .ok e.start) (stop_eq : Text.readInt last = .ok e.stop)
      (start_ne : e.start ≠ 0) (start_le_stop : e.start ≤ e.stop) :
      Reads (head ++ ":" ++ line ++ ":" ++ first ++ "-" ++ last ++ ":" ++ e.message) e

section

variable {t : Text} {e : Expected}

/-- No column is read as a negative number, since its sign would be a second dash. -/
theorem Reads.columns (h : Reads t e) : 1 ≤ e.start ∧ e.start ≤ e.stop := by
  obtain ⟨-, dashes, -, -, start, -, ne, forward⟩ := h
  have := Text.nonneg_of_readInt (dashes _ List.mem_cons_self) start
  exact ⟨by omega, forward⟩

theorem reads_of_parse (h : parse t = .ok e) : Reads t e := by
  rw [parse] at h
  split at h
  · next head line span message rest cut =>
    simp only [bind_eq_ok_iff, lineNumber_eq_ok_iff] at h
    obtain ⟨n, ⟨lineRead, lineNe⟩, ⟨start, stop⟩, spanRead, ⟨⟩⟩ := h
    obtain ⟨first, last, pair, startRead, stopRead, startNe, forward⟩ :=
      columns_eq_ok_iff.mp spanRead
    have text := Text.join_splitOn 58 t
    have spanText := Text.join_splitOn 45 span
    have colons : ∀ piece ∈ Text.splitOn 58 t, 58 ∉ piece := fun _ => Text.not_mem_of_mem_splitOn
    have dashes : ∀ piece ∈ Text.splitOn 45 span, 45 ∉ piece := fun _ => Text.not_mem_of_mem_splitOn
    rw [cut] at text colons
    rw [pair] at spanText dashes
    simp only [List.forall_mem_cons, ← spanText, Text.join_cons_cons, Text.join_singleton,
      List.mem_append, not_or] at colons
    obtain ⟨noHead, noLine, ⟨⟨noFirst, -⟩, noLast⟩, -⟩ := colons
    have parts : ∀ piece ∈ [head, line, first, last], 58 ∉ piece := by
      simp [noHead, noLine, noFirst, noLast]
    have form : t = head ++ ":" ++ line ++ ":" ++ first ++ "-" ++ last ++ ":" ++
        Text.join ":" (message :: rest) := by
      rw [← text, ← spanText]
      simp only [Text.join_cons_cons, Text.join_singleton, List.append_assoc]
      rfl
    rw [form]
    exact .mk (e := ⟨n, start, stop, _⟩) parts dashes lineRead lineNe startRead stopRead startNe
      forward
  · cases h

theorem parse_of_reads (h : Reads t e) : parse t = .ok e := by
  obtain @⟨head, line, first, last, e, colons, dashes, lineRead, lineNe, startRead, stopRead,
    startNe, forward⟩ := h
  simp only [List.forall_mem_cons] at colons dashes
  obtain ⟨noHead, noLine, noFirst, noLast, -⟩ := colons
  obtain ⟨noDash, noDash', -⟩ := dashes
  have pair : Text.splitOn 45 (first ++ 45 :: last) = [first, last] := by
    rw [Text.splitOn_append noDash, Text.splitOn_of_not_mem noDash']
  have noSpan : 58 ∉ first ++ 45 :: last := by
    simp [noFirst, noLast]
  have cut : Text.splitOn 58 (head ++ ":" ++ line ++ ":" ++ first ++ "-" ++ last ++ ":" ++
      e.message) = head :: line :: (first ++ 45 :: last) :: Text.splitOn 58 e.message := by
    have colon : Text.ofString ":" = [58] := rfl
    have dash : Text.ofString "-" = [45] := rfl
    have form : head ++ [58] ++ line ++ [58] ++ first ++ [45] ++ last ++ [58] ++ e.message =
        head ++ 58 :: (line ++ 58 :: ((first ++ 45 :: last) ++ 58 :: e.message)) := by simp
    rw [colon, dash, form, Text.splitOn_append noHead, Text.splitOn_append noLine,
      Text.splitOn_append noSpan]
  obtain ⟨message, rest, pieces⟩ :=
    List.exists_cons_of_ne_nil (Text.splitOn_ne_nil 58 e.message)
  have whole : Text.join ":" (message :: rest) = e.message := by
    rw [← pieces]
    exact Text.join_splitOn 58 e.message
  rw [parse, cut, pieces]
  simp only [bind_eq_ok_iff, lineNumber_eq_ok_iff]
  have spanRead := columns_eq_ok_iff.mpr ⟨first, last, pair, startRead, stopRead, startNe, forward⟩
  refine ⟨e.line, ⟨lineRead, lineNe⟩, (e.start, e.stop), spanRead, ?_⟩
  rw [whole]
  rfl

/-- What is read as an annotation, and as which one. -/
theorem parse_eq_ok_iff : parse t = .ok e ↔ Reads t e := ⟨reads_of_parse, parse_of_reads⟩

/-! ### Decimal numerals -/

/-- The text is an annotation with the usual opening, in which the numbers are decimal numerals. -/
inductive Announces : Text → Expected → Prop
  | mk {line first last : Text} {e : Expected} (line_eq : line.Denotes e.line)
      (start_eq : first.Denotes e.start) (stop_eq : last.Denotes e.stop) :
      Announces ("--error:" ++ line ++ ":" ++ first ++ "-" ++ last ++ ":" ++ e.message) e

theorem Announces.opening_isPrefix (h : Announces t e) : opening <+: t := by
  obtain ⟨-, -, -⟩ := h
  have start : Text.ofString "--error:" = opening ++ ":" := rfl
  simp only [start, List.append_assoc]
  exact List.prefix_append _ _

/-- Numbers from 1 on within 64 bits are read from their numerals. -/
theorem Announces.reads (h : Announces t e) (line_pos : 1 ≤ e.line) (start_pos : 1 ≤ e.start)
    (start_le_stop : e.start ≤ e.stop) (line_lt : e.line < Text.halfWords)
    (stop_lt : e.stop < Text.halfWords) : Reads t e := by
  obtain ⟨line, start, stop⟩ := h
  have absent {u : Text} {value : Int} (numeral : u.Denotes value) : 58 ∉ u ∧ 45 ∉ u :=
    ⟨fun mem => absurd (numeral.forall_mem _ mem) (by decide),
      fun mem => absurd (numeral.forall_mem _ mem) (by decide)⟩
  have head : Text.ofString "--error:" = opening ++ ":" := rfl
  rw [head]
  refine .mk ?_ ?_ (line.readInt_eq line_lt) (by omega) (start.readInt_eq (by omega))
    (stop.readInt_eq stop_lt) (by omega) start_le_stop
  · simp only [List.forall_mem_cons]
    exact ⟨by decide, (absent line).1, (absent start).1, (absent stop).1, by simp⟩
  · simp only [List.forall_mem_cons]
    exact ⟨(absent start).2, (absent stop).2, by simp⟩

end

end Expectation

end XtAsm
