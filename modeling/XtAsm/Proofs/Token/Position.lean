import XtAsm.Token.Lexer

/-!
# Counted and recomputed positions

Reading counts lines and columns as it goes along, while the position of an offset is found by
walking through the whole file.  Both agree on every character of the file.

* `Cursor.past`: the place after some characters, by counting;
* `enclosingFrom_past`: the line on which a walk through the file ends;
* `position_past`: counting and walking agree.
-/

namespace XtAsm

namespace Lexer.Cursor

/-- The place after one more character. -/
def next (k : Cursor) (c : Char) : Cursor := if c = '\n' then k.nextLine else k.advance 1

/-- The place after some more characters. -/
def past (k : Cursor) (w : List Char) : Cursor := w.foldl next k

@[simp] theorem past_nil (k : Cursor) : k.past [] = k := rfl

@[simp] theorem past_cons (k : Cursor) (c : Char) (w : List Char) :
    k.past (c :: w) = (k.next c).past w := rfl

theorem past_append (k : Cursor) (v w : List Char) : k.past (v ++ w) = (k.past v).past w :=
  List.foldl_append

@[simp] theorem offset_next (k : Cursor) (c : Char) : (k.next c).offset = k.offset + 1 := by
  unfold next
  split <;> rfl

/-- Every character counts for the offset. -/
theorem offset_past (k : Cursor) (w : List Char) : (k.past w).offset = k.offset + w.length := by
  induction w generalizing k with
  | nil => rfl
  | cons c w ih =>
    rw [past_cons, ih, offset_next, List.length_cons]
    omega

@[simp] theorem offset_past_start (w : List Char) : (start.past w).offset = w.length := by
  rw [offset_past, start, Nat.zero_add]

/-- On one line, every character counts for the column. -/
theorem past_of_not_mem {w : List Char} (h : '\n' ∉ w) (k : Cursor) :
    k.past w = k.advance w.length := by
  induction w generalizing k with
  | nil => rfl
  | cons c w ih =>
    have ne : c ≠ '\n' := fun eq => h (eq ▸ List.mem_cons_self)
    rw [past_cons, ih (fun mem => h (List.mem_cons_of_mem c mem)), next, if_neg ne]
    simp only [advance, List.length_cons, Nat.add_assoc, Nat.add_comm 1]

end Lexer.Cursor

namespace Source

open Lexer

/-- A walk to a character ends on the line that counting finds, and the column is the distance from
its start.  Since the character itself follows, no newline on the way is at the very end. -/
theorem enclosingFrom_past (before : List Char) (c : Char) (rest : List Char) (k : Cursor)
    (start : Nat) (counted : start + k.column = k.offset + 1) (fromStart : List Char) :
    let line := enclosingFrom k.offset k.line start fromStart before.length (before ++ c :: rest)
    line.number = (k.past before).line ∧
      line.start + (k.past before).column = (k.past before).offset + 1 := by
  induction before generalizing k start fromStart with
  | nil =>
    simp only [List.nil_append, List.length_nil, enclosingFrom, Cursor.past_nil]
    exact ⟨trivial, counted⟩
  | cons d before ih =>
    have more : before ++ c :: rest ≠ [] := by simp
    simp only [List.cons_append, List.length_cons, enclosingFrom, Cursor.past_cons]
    by_cases newline : d = '\n'
    · rw [if_pos ⟨newline, more⟩, Cursor.next, if_pos newline]
      exact ih k.nextLine _ rfl _
    · rw [if_neg (fun h => newline h.1), Cursor.next, if_neg newline]
      refine ih (k.advance 1) _ ?_ _
      simp only [Cursor.advance]
      omega

/-- Counting up to a character gives the position of its offset. -/
theorem position_past {s : Source} {before rest : List Char} (split : s.contents = before ++ rest)
    (ne : rest ≠ []) :
    (Cursor.start.past before).position s.file = s.positionOf before.length := by
  obtain ⟨c, rest, rfl⟩ := List.exists_cons_of_ne_nil ne
  have inside : before.length < s.size := by
    rw [size, split, List.length_append, List.length_cons]
    omega
  have line : s.lineAt before.length = enclosingFrom Cursor.start.offset Cursor.start.line 0
      s.contents before.length (before ++ c :: rest) := by
    rw [lineAt, if_pos ⟨by omega, by omega⟩, Int.toNat_natCast, split]
    rfl
  obtain ⟨number, column⟩ := enclosingFrom_past before c rest .start 0 rfl s.contents
  rw [← line] at number column
  rw [Cursor.offset_past_start] at column
  simp only [positionOf, Cursor.position, number, Position.mk.injEq, true_and]
  rw [distance_of_nonneg (by omega) (by omega)]
  omega

end Source

end XtAsm
