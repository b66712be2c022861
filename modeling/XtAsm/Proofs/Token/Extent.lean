import XtAsm.Parser.Fault
import XtAsm.Proofs.Token.Tiling

/-!
# The extent of tokens and errors

Columns are counted from 1, and nothing in a file is longer than the file.

* `Source.size_ofText_le`: a file has at most one character more than it has bytes;
* `Token.Within`, `SyntaxError.Within`: a token, or an error, lies within a file of some size;
* `within_of_lex_ok`, `within_of_lex_error`: what is read from a file lies within it.
-/

namespace XtAsm

/-! ### Sizes -/

theorem Text.length_symbolsFrom_le (n : Nat) (t : Text) : (symbolsFrom n t).length ≤ t.length := by
  fun_induction symbolsFrom n t with
  | case1 => exact Nat.le_refl _
  | case2 n b rest ih => exact Nat.le_succ_of_le ih
  | case3 b rest c n found ih => exact Nat.succ_le_succ ih
  | case4 b rest stray ih => exact Nat.succ_le_succ ih

theorem Text.length_toChars_le (t : Text) : (toChars t).length ≤ t.length := by
  rw [length_toChars]
  exact length_symbolsFrom_le 0 t

namespace Source

/-- Only the last line may lack a newline. -/
theorem length_terminateLines_le (t : Text) : (terminateLines t).length ≤ t.length + 1 := by
  induction t with
  | nil => exact Nat.zero_le _
  | cons b rest ih =>
    simp only [terminateLines, cutLines] at ih ⊢
    split
    · rw [List.flatMap_cons, List.nil_append, List.length_append, List.length_singleton,
        List.length_cons, Nat.add_comm]
      exact Nat.succ_le_succ ih
    · split
      · next empty => simp
      · next line lines cut =>
        rw [cut] at ih
        simp only [List.flatMap_cons, List.length_append, List.length_cons,
          List.cons_append] at ih ⊢
        omega

theorem size_ofText_le (file bytes : Text) : (ofText file bytes).size ≤ bytes.length + 1 :=
  Nat.le_trans (Text.length_toChars_le _) (length_terminateLines_le bytes)

end Source

/-! ### Columns -/

namespace Lexer.Cursor

theorem column_next_bounds {k : Cursor} (c : Char) (h : 1 ≤ k.column) :
    1 ≤ (k.next c).column ∧ (k.next c).column ≤ k.column + 1 := by
  unfold next
  split
  · exact ⟨Nat.le_refl 1, Nat.le_add_left 1 _⟩
  · exact ⟨Nat.le_succ_of_le h, Nat.le_refl _⟩

theorem column_past_bounds_of_pos {k : Cursor} (w : List Char) (h : 1 ≤ k.column) :
    1 ≤ (k.past w).column ∧ (k.past w).column ≤ k.column + w.length := by
  induction w generalizing k with
  | nil => exact ⟨h, Nat.le_refl _⟩
  | cons c w ih =>
    have first := column_next_bounds c h
    have rest := ih first.1
    rw [past_cons, List.length_cons]
    omega

/-- A column is at least 1, and counts no more than the characters before it. -/
theorem column_past_bounds (w : List Char) :
    1 ≤ (start.past w).column ∧ (start.past w).column ≤ w.length + 1 := by
  rw [Nat.add_comm]
  exact column_past_bounds_of_pos w (Nat.le_refl 1)

end Lexer.Cursor

/-! ### Extents -/

/-- The position is one of a file of the given size. -/
structure Position.Within (p : Position) (size : Nat) : Prop where
  column_pos : 1 ≤ p.column
  column_le : p.column ≤ size

/-- The token lies within a file of the given size. -/
structure Token.Within (t : Token) (size : Nat) : Prop where
  position : t.position.Within size
  start_nonneg : 0 ≤ t.span.start
  stop_le : t.span.stop ≤ size

/-- The error lies within a file of the given size. -/
structure SyntaxError.Within (e : SyntaxError) (size : Nat) : Prop where
  position : e.position.Within size
  length_le : e.length ≤ size

/-- An error from one token to another lies within the file if they do. -/
theorem ParseError.within_syntaxError {e : ParseError} {size : Nat} (first : e.first.Within size)
    (last : e.last.Within size) : e.syntaxError.Within size := by
  refine ⟨first.position, ?_⟩
  have start := first.start_nonneg
  have stop := Int.le_trans last.start_nonneg e.last.span.start_le_stop
  have bound := last.stop_le
  calc distance e.first.span.start e.last.span.stop
      = e.last.span.stop - e.first.span.start := distance_of_nonneg start stop
    _ ≤ size := by omega

namespace Lexer

variable {s : Source} {before rest : List Char} {c : Char}

theorem size_of_split (split : s.contents = before ++ c :: rest) :
    s.size = before.length + rest.length + 1 := by
  rw [Source.size, split, List.length_append, List.length_cons, Nat.add_assoc]

theorem within_position (split : s.contents = before ++ c :: rest) :
    ((Cursor.start.past before).position s.file).Within s.size := by
  have bounds := Cursor.column_past_bounds before
  have size := size_of_split split
  constructor
  · simp only [Cursor.position]
    omega
  · simp only [Cursor.position]
    omega

/-- All tokens of a file lie within it. -/
theorem within_of_lex_ok {ts : List Token} (h : s.lex = .ok ts) : ∀ t ∈ ts, t.Within s.size := by
  intro t ht
  have tiles := (lex_eq_ok_iff s ts).mp h
  obtain ⟨placed, stop⟩ := tiles.placed t ht
  have start := placed.start_nonneg
  have order := placed.start_lt_stop
  refine ⟨?_, start, stop⟩
  obtain ⟨offset, same⟩ := Int.eq_ofNat_of_zero_le start
  have inside : offset < s.contents.length := by omega
  rw [tiles.position_eq t ht, same]
  have split : s.contents = s.contents.take offset ++ s.contents[offset] ::
      s.contents.drop (offset + 1) := by simp
  have position := Source.position_past split (List.cons_ne_nil _ _)
  rw [List.length_take_of_le (Nat.le_of_lt inside)] at position
  rw [← position]
  exact within_position split

/-- A fault covers no more characters than there are. -/
theorem extra_le_of_fault {fault : LexFault} {extra : Nat}
    (item : itemAt c rest = .fault fault extra) : extra ≤ rest.length := by
  have described := describes_itemAt c rest
  rw [item] at described
  rw [show extra = _ from described]
  split
  · exact (List.takeWhile_prefix _).length_le
  · exact Nat.zero_le _

/-- A fault of a file lies within it. -/
theorem within_of_lex_error {e : Error} (h : s.lex = .error e) :
    (e.syntaxError s.file).Within s.size := by
  obtain ⟨before, us, c, rest, extra, split, -, item, cursor, length⟩ := exists_fault h
  constructor
  · rw [Error.syntaxError, cursor]
    exact within_position split
  · have le := extra_le_of_fault item
    have size := size_of_split split
    simp only [Error.syntaxError, length]
    omega

end Lexer

end XtAsm
