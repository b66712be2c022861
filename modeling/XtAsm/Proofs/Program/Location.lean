import XtAsm.Proofs.Parser.Blame
import XtAsm.Proofs.Token.Extent

/-!
# Errors point into the file

An error says where it starts and how many characters it covers.

* `SyntaxError.PointsInto`: the error covers characters of the file from an offset on, all on one
  line unless it is about a comparison, whose operands may stand on different lines;
* `Parser.covers_of_ofTokens_error`: an error of the parser covers a token, or two in order;
* `Source.exists_pointsInto`: all errors point into the file.
-/

namespace XtAsm

/-- The error covers at least one character from the given offset on and ends within the file.
Only that of a comparison of two literals may go beyond a line. -/
structure SyntaxError.PointsInto (e : SyntaxError) (s : Source) (offset : Nat) : Prop where
  position : e.position = s.positionOf offset
  length_pos : 1 ≤ e.length
  stop_le : offset + e.length ≤ s.size
  singleLine : e.message ≠ ("both sides can't be values" : Text) →
    '\n' ∉ (s.contents.drop offset).take e.length.toNat

/-! ### The tokens of an error -/

namespace Parser

/-- An error about something missing covers one token. -/
theorem first_eq_last_of_finish_error {s : State} {e : ParseError}
    (h : s.finish.result = .error e) : e.first = e.last := by
  rcases exists_missing?_of_finish_error h with ⟨-, -, d, -, missing⟩ |
    ⟨-, b, r, -, missing | missing⟩
  · cases d <;> cases missing <;> rfl
  · cases r <;> cases missing <;> rfl
  · obtain ⟨body, frames⟩ := b
    cases frames <;> cases missing
    rfl

/-- An error covers one token, or the tokens from the first literal of a comparison to the second
one. -/
theorem covers_of_ofTokens_error {ts : List Token} {e : ParseError}
    (h : (Program.ofTokens ts).result = .error e) :
    e.first = e.last ∨ (e.fault = .twoLiterals ∧ [e.first, e.last].Sublist ts) := by
  rcases reaches_or_stops .initial ts with ⟨last, reached⟩ |
    ⟨before, t, after, last, e', rfl, reached, stop⟩
  · refine .inl (first_eq_last_of_finish_error (s := last) ?_)
    rw [← run_nil, ← reached.run_append [], List.append_nil]
    exact h
  · rw [reached.result_of_error stop] at h
    cases h
    rcases step_error stop with ⟨fault, rfl, -⟩ |
      ⟨head, b, header, left, op, previous, inCode, -, -, rfl⟩
    · exact .inl rfl
    · have empty : State.initial.Recalls [] := by
        intro head b r inCode
        cases inCode
      obtain ⟨front, read, -⟩ := reached.recalls empty head b _ inCode
      rw [List.nil_append] at read
      subst read
      have inOrder : [left.token, t].Sublist ([left.token, previous] ++ t :: after) :=
        .cons_cons _ (.cons _ (.cons_cons _ (List.nil_sublist after)))
      rw [List.append_assoc]
      exact .inr ⟨rfl, inOrder.trans (List.sublist_append_right front _)⟩

end Parser

/-! ### Errors within the file -/

namespace Lexer

variable {s : Source}

/-- A fault does not go beyond its line. -/
theorem newline_not_mem_fault {c : Char} {rest : List Char} {fault : LexFault} {extra : Nat}
    (item : itemAt c rest = .fault fault extra) : '\n' ∉ (c :: rest).take (extra + 1) := by
  have described := describes_itemAt c rest
  rw [item] at described
  have first : c ≠ '\n' := by
    rintro rfl
    cases item
  rw [List.take_succ_cons, List.mem_cons, not_or]
  refine ⟨first.symm, ?_⟩
  rw [show extra = _ from described]
  split
  · rw [← List.prefix_iff_eq_take.mp (List.takeWhile_prefix _)]
    exact fun mem => absurd (mem_takeWhile mem) (by decide)
  · rw [List.take_zero]
    exact List.not_mem_nil

/-- A fault of a file points to the lexeme that is rejected. -/
theorem pointsInto_of_lex_error {e : Error} (h : s.lex = .error e) :
    ∃ before us c rest, s.contents = before ++ c :: rest ∧ Tiles s before us ∧ Stuck (c :: rest) ∧
      (e.syntaxError s.file).PointsInto s before.length := by
  obtain ⟨before, us, c, rest, extra, split, tiles, item, cursor, length⟩ := exists_fault h
  refine ⟨before, us, c, rest, split, tiles, stuck_of_itemAt item, ?_, ?_, ?_, fun _ => ?_⟩
  · rw [Error.syntaxError, cursor]
    exact Source.position_past split (List.cons_ne_nil c rest)
  · simp only [Error.syntaxError, length]
    omega
  · have size := size_of_split split
    have le := extra_le_of_fault item
    simp only [Error.syntaxError, length]
    omega
  · have covered : (s.contents.drop before.length).take (extra + 1) =
        (c :: rest).take (extra + 1) := by
      rw [split, List.drop_left]
    simp only [Error.syntaxError, length, Int.toNat_natCast, covered]
    exact newline_not_mem_fault item

/-- From the start of a token to the end of the same or a later one. -/
theorem pointsInto_of_covers {ts : List Token} (lexed : s.lex = .ok ts) {e : SyntaxError}
    {first last : Token} (hf : first ∈ ts) (hl : last ∈ ts)
    (order : first.span.start < last.span.stop)
    (position : e.position = first.position)
    (length : e.length = distance first.span.start last.span.stop)
    (single : e.message ≠ Text.ofString "both sides can't be values" → first = last) :
    e.PointsInto s first.span.start.toNat := by
  have tiles := (lex_eq_ok_iff s ts).mp lexed
  obtain ⟨placed, -⟩ := tiles.placed first hf
  obtain ⟨-, stop⟩ := tiles.placed last hl
  have start := placed.start_nonneg
  rw [distance_of_nonneg start (by omega)] at length
  have offset : (first.span.start.toNat : Int) = first.span.start := Int.toNat_of_nonneg start
  refine ⟨?_, by omega, ?_, fun other => ?_⟩
  · rw [position, tiles.position_eq first hf, offset]
  · rw [Source.size, offset]
    omega
  · obtain rfl := single other
    rw [length]
    exact placed.stands.spells.newline_not_mem

end Lexer

namespace Source

/-- **Errors point into the file.**  The fault of a file points to the place at which no lexeme and
nothing else stands, and an error in its tokens to one of them. -/
theorem exists_pointsInto (s : Source) :
    (∀ e, s.lex = .error e → ∃ before us c rest, s.contents = before ++ c :: rest ∧
      Lexer.Tiles s before us ∧ Lexer.Stuck (c :: rest) ∧
      (e.syntaxError s.file).PointsInto s before.length) ∧
    ∀ ts e, s.lex = .ok ts → (Program.ofTokens ts).result = .error e →
      ∃ t ∈ ts, e.syntaxError.PointsInto s t.span.start.toNat := by
  refine ⟨fun e lexed => Lexer.pointsInto_of_lex_error lexed, fun ts e lexed rejected => ?_⟩
  have tiles := (Lexer.lex_eq_ok_iff s ts).mp lexed
  obtain ⟨first, last⟩ := Parser.mem_of_ofTokens_error rejected
  have placed := (tiles.placed e.last last).1
  refine ⟨e.first, first, ?_⟩
  rcases Parser.covers_of_ofTokens_error rejected with same | ⟨fault, inOrder⟩
  · refine Lexer.pointsInto_of_covers lexed first last ?_ rfl rfl fun _ => same
    rw [same]
    exact placed.start_lt_stop
  · refine Lexer.pointsInto_of_covers lexed first last ?_ rfl rfl fun other => ?_
    · have apart := List.rel_of_pairwise_cons (tiles.separated.sublist inOrder)
        (List.mem_singleton_self _)
      have := (tiles.placed e.first first).1.start_lt_stop
      have := placed.start_lt_stop
      omega
    · rw [ParseError.syntaxError, fault] at other
      exact absurd rfl other

/-- A file with a comparison of two literals on different lines. -/
def literals : Source := ⟨"literals", "#code\nif 1<\n2".toList⟩

/-- Its tokens. -/
def literalTokens : List Token :=
  [⟨.code, "#code", ⟨"literals", 1, 1⟩, Lexer.spanAt 0 5⟩,
   ⟨.word .if_, "if", ⟨"literals", 2, 1⟩, Lexer.spanAt 6 2⟩,
   ⟨.int, "1", ⟨"literals", 2, 4⟩, Lexer.spanAt 9 1⟩,
   ⟨.compare .lt, "<", ⟨"literals", 2, 5⟩, Lexer.spanAt 10 1⟩,
   ⟨.int, "2", ⟨"literals", 3, 1⟩, Lexer.spanAt 12 1⟩]

theorem exists_pointsInto_literals :
    (literals.lex = .ok literalTokens ∧ (Program.ofTokens literalTokens).result =
      .error ⟨.twoLiterals, literalTokens[2], literalTokens[4]⟩) ∧
    ∃ t ∈ literalTokens, SyntaxError.PointsInto
      ⟨⟨"literals", 2, 4⟩, 4, "both sides can't be values"⟩ literals t.span.start.toNat := by
  have lexed : literals.lex = .ok literalTokens := Lexer.lex_of_toOption (by decide +kernel)
  have rejected : (Program.ofTokens literalTokens).result =
      .error ⟨.twoLiterals, literalTokens[2], literalTokens[4]⟩ := rfl
  exact ⟨⟨lexed, rejected⟩, (exists_pointsInto literals).2 _ _ lexed rejected⟩

end Source

end XtAsm
