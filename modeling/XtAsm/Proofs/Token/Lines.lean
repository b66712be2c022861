import XtAsm.Proofs.Source.Lines
import XtAsm.Proofs.Token.Tiling

/-!
# Reading line by line

Nothing that is read goes beyond a line break, so that ended lines are read in the same way whatever
follows them, and what follows is read as if it stood alone, only further down.

* `itemAt_append`, `Trivia.append`, `Stands.append`: what stands on a line is decided there;
* `tokensFrom_append_of_terminated`: reading gets past ended lines by themselves;
* `Token.below`, `Error.below`, `tokensFrom_below`: what is read further down;
* `lex_append`: ended lines and what follows them, read one after the other.
-/

namespace XtAsm

namespace Lexer

/-! ### Nothing goes beyond a line break -/

section Ahead

variable {c : Char} {cs : List Char}

/-- A run that a character ends does not depend on what follows that character. -/
theorem takeWhile_append_of_mem {p : Char → Bool} {d : Char} (hd : p d = false) (h : d ∈ cs)
    (ds : List Char) : (cs ++ ds).takeWhile p = cs.takeWhile p := by
  induction cs with
  | nil => cases h
  | cons c cs ih =>
    rw [List.cons_append, List.takeWhile_cons, List.takeWhile_cons]
    split
    · next pos =>
      rcases List.mem_cons.mp h with rfl | later
      · rw [hd] at pos
        cases pos
      · rw [ih later]
    · rfl

theorem comment_append (h : '\n' ∈ cs) (ds : List Char) : comment (cs ++ ds) = comment cs := by
  have line : (cs ++ ds).takeWhile (· ≠ '\n') = cs.takeWhile (· ≠ '\n') :=
    takeWhile_append_of_mem (by decide) h ds
  have run : commentRest.run (cs ++ ds) = commentRest.run cs := congrArg List.length line
  obtain ⟨d, more, rfl⟩ := List.exists_cons_of_ne_nil (List.ne_nil_of_mem h)
  by_cases dash : d = '-'
  · subst dash
    exact congrArg Item.comment run
  · simp [comment, dash]

/-- What stands at a character is decided on its line. -/
theorem itemAt_append (h : c = '\n' ∨ '\n' ∈ cs) (ds : List Char) :
    itemAt c (cs ++ ds) = itemAt c cs := by
  rcases h with rfl | h
  · rfl
  unfold itemAt
  split
  case h_1 | h_2 | h_3 | h_4 | h_8 | h_9 => rfl
  case h_5 => rw [take_sectionRest, take_sectionRest, takeWhile_append_of_mem rfl h]
  case h_6 | h_7 => rw [take_nameRest, take_nameRest, takeWhile_append_of_mem rfl h]
  case h_10 | h_11 | h_12 | h_13 | h_14 | h_15 =>
    obtain ⟨d, more, rfl⟩ := List.exists_cons_of_ne_nil (List.ne_nil_of_mem h)
    rfl
  case h_16 => exact comment_append h ds
  case h_17 =>
    rw [take_identifierRest, take_identifierRest, take_numberRest, take_numberRest,
      takeWhile_append_of_mem rfl h, takeWhile_append_of_mem rfl h]

end Ahead

/-! ### Pieces of ended lines -/

section Pieces

variable {w after : List Char}

/-- Ended lines do not stop within a line, so that the next character is one of theirs. -/
theorem head?_append_of_terminated (h : Source.Terminated (w ++ after)) (ne : w ≠ [])
    (line : '\n' ∉ w) (ds : List Char) : (after ++ ds).head? = after.head? := by
  cases after with
  | nil =>
    rw [List.append_nil] at h
    have last := h (w.getLast ne) (List.getLast?_eq_some_getLast ne)
    exact absurd (last ▸ List.getLast_mem ne) line
  | cons c after => rfl

/-- Trivia within ended lines stays trivia, whatever follows the lines. -/
theorem Trivia.append (hw : Trivia w after) (h : Source.Terminated (w ++ after))
    (ds : List Char) : Trivia w (after ++ ds) := by
  cases hw with
  | blank blank => exact .blank blank _
  | comment line ends =>
    refine .comment line ?_
    rwa [head?_append_of_terminated h (List.cons_ne_nil _ _) (by simp [line])]

/-- A lexeme within ended lines stays the longest one, whatever follows the lines. -/
theorem Stands.append {l : Kind × Text} (hw : Stands l w after)
    (h : Source.Terminated (w ++ after)) (ds : List Char) : Stands l w (after ++ ds) := by
  have ends := (stands_iff_ends hw.spells).mp hw
  refine (stands_iff_ends hw.spells).mpr ?_
  rwa [Ends, head?_append_of_terminated h hw.spells.ne_nil hw.spells.newline_not_mem]

end Pieces

/-- Ended lines are read by themselves, and what follows them from the place after them on. -/
theorem tokensFrom_append_of_terminated {a : List Char} (h : Source.Terminated a) (file : Text)
    (k : Cursor) (b : List Char) :
    tokensFrom file k (a ++ b) = (tokensFrom file k a).bind fun ts =>
      (tokensFrom file (k.past a) b).map (ts ++ ·) := by
  -- every piece takes at least one character off the lines
  induction size : a.length using Nat.strongRecOn generalizing a k with
  | ind n ih =>
    cases a with
    | nil =>
      rw [List.nil_append, tokensFrom, Cursor.past_nil]
      cases tokensFrom file k b <;> rfl
    | cons c cs =>
      rcases piece_cases c cs with ⟨w, after, eq, hw⟩ | ⟨l, w, after, eq, hw⟩ |
        ⟨fault, extra, item⟩
      · have pos := List.length_pos_iff.mpr hw.ne_nil
        rw [eq] at h size ⊢
        rw [List.length_append] at size
        rw [List.append_assoc, tokensFrom_of_trivia (hw.append h b), tokensFrom_of_trivia hw,
          Cursor.past_append]
        exact ih after.length (by omega) h.of_append _ rfl
      · have pos := List.length_pos_iff.mpr hw.spells.ne_nil
        rw [eq] at h size ⊢
        rw [List.length_append] at size
        rw [List.append_assoc, tokensFrom_of_stands (hw.append h b), tokensFrom_of_stands hw,
          Cursor.past_append, ih after.length (by omega) h.of_append _ rfl]
        cases tokensFrom file (k.past w) after with
        | error e => rfl
        | ok ts =>
          simp only [Except.map, Except.bind]
          cases tokensFrom file ((k.past w).past after) b <;> rfl
      · have last := h _ (List.getLast?_eq_some_getLast (List.cons_ne_nil c cs))
        have inLine := List.mem_cons.mp (last ▸ List.getLast_mem (List.cons_ne_nil c cs))
        rw [List.cons_append,
          tokensFrom_of_fault (itemAt_append (inLine.imp_left Eq.symm) b ▸ item),
          tokensFrom_of_fault item]
        rfl

end Lexer

/-! ### Places below other lines -/

/-- The position some lines further down. -/
def Position.below (p : Position) (lines : Nat) : Position := { p with line := p.line + lines }

/-- The error some lines further down. -/
def SyntaxError.below (e : SyntaxError) (lines : Nat) : SyntaxError :=
  { e with position := e.position.below lines }

/-- The span after some characters. -/
def Span.after (s : Span) (chars : Nat) : Span :=
  ⟨s.start + chars, s.stop + chars, Int.add_le_add_right s.start_le_stop chars⟩

/-- The token in lines that follow the given ones. -/
def Token.below (t : Token) (above : List Char) : Token :=
  { t with
    position := t.position.below (above.count '\n')
    span := t.span.after above.length }

namespace Lexer

/-- The place in lines that follow the given ones. -/
def Cursor.below (k : Cursor) (above : List Char) : Cursor :=
  ⟨k.offset + above.length, k.line + above.count '\n', k.column⟩

/-- The fault in lines that follow the given ones. -/
def Error.below (e : Error) (above : List Char) : Error :=
  { e with cursor := e.cursor.below above }

section Below

variable (k : Cursor) (above : List Char)

theorem Cursor.below_advance (n : Nat) : (k.advance n).below above = (k.below above).advance n := by
  simp only [Cursor.below, Cursor.advance, Nat.add_right_comm]

theorem Cursor.below_nextLine : k.nextLine.below above = (k.below above).nextLine := by
  simp only [Cursor.below, Cursor.nextLine, Nat.add_right_comm]

theorem Cursor.position_below (file : Text) :
    (k.below above).position file = (k.position file).below (above.count '\n') := rfl

theorem Cursor.span_below (n : Nat) :
    (k.below above).span n = (k.span n).after above.length := by
  simp only [Cursor.below, Cursor.span, Span.after, Span.mk.injEq]
  omega

theorem Cursor.line_past (w : List Char) : (k.past w).line = k.line + w.count '\n' := by
  induction w generalizing k with
  | nil => rfl
  | cons c w ih =>
    rw [Cursor.past_cons, ih, Cursor.next, List.count_cons]
    by_cases newline : c = '\n'
    · simp only [newline, if_pos, Cursor.nextLine, beq_self_eq_true]
      omega
    · simp [newline, Cursor.advance]

/-- After ended lines a new one starts. -/
theorem Cursor.past_start {a : List Char} (h : Source.Terminated a) :
    start.past a = start.below a := by
  have column : (start.past a).column = 1 := by
    rcases List.eq_nil_or_concat a with rfl | ⟨cs, c, rfl⟩
    · rfl
    · obtain rfl : c = '\n' := h c (by simp)
      rw [List.concat_eq_append, Cursor.past_append]
      rfl
  calc start.past a = ⟨(start.past a).offset, (start.past a).line, (start.past a).column⟩ := rfl
    _ = start.below a := by
      rw [Cursor.offset_past, Cursor.line_past, column]
      rfl

/-- Characters are read in the same way further down. -/
theorem tokensFrom_below (file : Text) (cs : List Char) :
    tokensFrom file (k.below above) cs =
      ((tokensFrom file k cs).map (List.map (Token.below · above))).mapError
        (Error.below · above) := by
  fun_induction tokensFrom file k cs with
  | case1 =>
    rw [tokensFrom]
    rfl
  | case2 k c rest item ih =>
    rw [tokensFrom, item, ← ih, Cursor.below_advance]
  | case3 k c rest item ih =>
    rw [tokensFrom, item, ← ih, Cursor.below_nextLine]
  | case4 k c rest extra item ih =>
    rw [tokensFrom, item, ← ih, Cursor.below_advance]
  | case5 k c rest kind text extra item token =>
    rename_i ih
    rw [tokensFrom, item]
    dsimp only
    rw [← Cursor.below_advance, ih, Cursor.position_below, Cursor.span_below]
    cases tokensFrom file (k.advance (extra + 1)) (rest.drop extra) <;> rfl
  | case6 k c rest fault extra item =>
    rw [tokensFrom, item]
    rfl

end Below

/-- **Reading line by line.**  Ended lines are read, or found faulty, in the same way whatever
follows them; what follows them is read as if it stood alone, and moved down. -/
theorem lex_append (file : Text) {a : List Char} (h : Source.Terminated a) (b : List Char) :
    (∀ e, Source.lex ⟨file, a⟩ = .error e → Source.lex ⟨file, a ++ b⟩ = .error e) ∧
    ∀ ts, Source.lex ⟨file, a⟩ = .ok ts →
      (∀ e, Source.lex ⟨file, b⟩ = .error e →
        Source.lex ⟨file, a ++ b⟩ = .error (e.below a) ∧
          (e.below a).syntaxError file = (e.syntaxError file).below (a.count '\n')) ∧
      ∀ us, Source.lex ⟨file, b⟩ = .ok us →
        Source.lex ⟨file, a ++ b⟩ = .ok (ts ++ us.map (Token.below · a)) := by
  have read : Source.lex ⟨file, a ++ b⟩ = (Source.lex ⟨file, a⟩).bind fun ts =>
      (((Source.lex ⟨file, b⟩).map (List.map (Token.below · a))).mapError (Error.below · a)).map
        (ts ++ ·) := by
    rw [Source.lex, tokensFrom_append_of_terminated h, Cursor.past_start h]
    simp only [tokensFrom_below]
    rfl
  refine ⟨fun e first => ?_, fun ts first => ⟨fun e second => ⟨?_, rfl⟩, fun us second => ?_⟩⟩
  · rw [read, first]
    rfl
  · rw [read, first, second]
    rfl
  · rw [read, first, second]
    rfl

/-- Two lines with a token on the second one. -/
def upper : List Char := "-- .\n?\n".toList

/-- A line that is not ended. -/
def lower : List Char := "\t;".toList

theorem lex_append_upper :
    (Source.Terminated upper ∧
      Source.lex ⟨"two", upper⟩ = .ok [⟨.query, "?", ⟨"two", 2, 1⟩, spanAt 5 1⟩] ∧
      Source.lex ⟨"two", lower⟩ = .ok [⟨.semicolon, ";", ⟨"two", 1, 2⟩, spanAt 1 1⟩]) ∧
    Source.lex ⟨"two", upper ++ lower⟩ = .ok
      [⟨.query, "?", ⟨"two", 2, 1⟩, spanAt 5 1⟩, ⟨.semicolon, ";", ⟨"two", 3, 2⟩, spanAt 8 1⟩] := by
  have ended : Source.Terminated upper := fun c last => by
    cases last
    rfl
  have first : Source.lex ⟨"two", upper⟩ = .ok [⟨.query, "?", ⟨"two", 2, 1⟩, spanAt 5 1⟩] :=
    lex_of_toOption (by decide +kernel)
  have second : Source.lex ⟨"two", lower⟩ = .ok [⟨.semicolon, ";", ⟨"two", 1, 2⟩, spanAt 1 1⟩] :=
    lex_of_toOption (by decide +kernel)
  exact ⟨⟨ended, first, second⟩, ((lex_append "two" ended lower).2 _ first).2 _ second⟩

end Lexer

end XtAsm
