import XtAsm.Proofs.Program.Location
import XtAsm.Proofs.Terminal.Display

/-!
# Highlights under lines

The display of an error is the line it is on, and a marker under it.

* `Highlights`: a line and a marker are what is displayed of an error;
* `exists_highlights`: errors that point into their file are displayed in this way;
* `stop_le_iff`: two tokens in order are on one line exactly if the last one ends on the line of the
  first one;
* `highlight_fits_iff`: a marker is longer than its line exactly if the error is about operands on
  different lines.
-/

namespace XtAsm

/-! ### Lengths -/

namespace Text

theorem charCount_ofChars (cs : List Char) : charCount (ofChars cs) = cs.length := by
  rw [← length_toChars, toChars_ofChars]

theorem ofChars_replicate (n : Nat) {c : Char} {b : UInt8} (h : String.utf8EncodeChar c = [b]) :
    ofChars (List.replicate n c) = List.replicate n b := by
  induction n with
  | zero => rfl
  | succ n ih => rw [List.replicate_succ, ofChars_cons, h, ih, List.replicate_succ]; rfl

end Text

namespace Terminal

/-- The marker of some carets after a margin. -/
def markerOf (margin carets : Nat) : Text := Text.spaces margin ++ List.replicate carets 94

theorem charCount_markerOf (margin carets : Nat) :
    Text.charCount (markerOf margin carets) = margin + carets := by
  have blanks : Text.ofChars (List.replicate margin ' ') = Text.spaces margin :=
    Text.ofChars_replicate margin rfl
  have row : Text.ofChars (List.replicate carets '^') = List.replicate carets 94 :=
    Text.ofChars_replicate carets rfl
  rw [markerOf, ← blanks, ← row, ← Text.ofChars_append, Text.charCount_ofChars]
  simp

/-- The line is the one that the error is on, the marker consists of blanks up to the column of the
error and of carets for the characters that it covers, and both are displayed.  Only a file that
exceeds the capacity can make the display exceed it. -/
structure Highlights (files : Files) (bytes : Text) (e : SyntaxError) (line marker : Text) :
    Prop where
  exists_line : ∃ l ∈ (Source.ofText e.position.file bytes).lines,
    l.number = e.position.line ∧ line = l.text
  exists_marker : ∃ margin carets : Nat, margin = e.position.column - 1 ∧ carets = e.length ∧
    1 ≤ carets ∧ marker = markerOf margin carets
  shown : showError files e false = .ok (line ++ "\n" ++ marker ++ "\n") ∨
    (showError files e false = .error .excessiveCount ∧ capacity ≤ bytes.length)

section

variable {files : Files} {file bytes : Text}

/-- The line of a file that has not changed. -/
theorem sourceLine_of_mem (unchanged : files.read file = .ok bytes) {l : Line}
    (h : l ∈ (Source.ofText file bytes).lines) (column : Int) :
    sourceLine files ⟨file, l.number, column⟩ = some l.text := by
  obtain ⟨k, found⟩ := List.getElem?_of_mem h
  have number : l.number = 1 + k := Source.number_of_getElem? found
  have index : (l.number : Int).toNat - 1 = k := by omega
  rw [sourceLine, Compiler.readSource, unchanged]
  simp only [index, found, if_neg (show ¬ (l.number : Int) < 1 by omega)]
  rfl

/-- An error that points into its file is displayed with its line, beyond which its marker goes
exactly if the error does. -/
theorem exists_highlights (unchanged : files.read file = .ok bytes) {e : SyntaxError} {offset : Nat}
    (h : e.PointsInto (.ofText file bytes) offset) :
    ∃ line marker, Highlights files bytes e line marker ∧
      (Text.charCount marker ≤ Text.charCount line ↔
        offset + e.length ≤ ((Source.ofText file bytes).lineAt offset).start +
          ((Source.ofText file bytes).lineAt offset).length) := by
  have size := Source.size_ofText_le file bytes
  have length_pos := h.length_pos
  have stop_le := h.stop_le
  have inside : offset < (Source.ofText file bytes).size := by omega
  obtain ⟨mem, start, stop⟩ := Source.lineAt_spec inside
  have position := h.position
  rw [Source.positionOf_eq inside] at position
  generalize (Source.ofText file bytes).lineAt offset = l at *
  obtain ⟨margin, rfl⟩ := Nat.exists_eq_add_of_le start
  obtain ⟨carets, length⟩ := Int.eq_ofNat_of_zero_le (show 0 ≤ e.length by omega)
  have place : e.position = ⟨file, l.number, margin + 1⟩ := by
    rw [position, Position.mk.injEq]
    exact ⟨rfl, rfl, by omega⟩
  have column := congrArg Position.column place
  dsimp only at column
  have lines : ∃ m ∈ (Source.ofText e.position.file bytes).lines,
      m.number = e.position.line ∧ l.text = m.text := by
    rw [place]
    exact ⟨l, mem, rfl, rfl⟩
  refine ⟨l.text, markerOf margin carets, ⟨lines, ⟨margin, carets, ?_⟩, ?_⟩, ?_⟩
  · exact ⟨by omega, by omega, by omega, rfl⟩
  · rw [showError, place, sourceLine_of_mem unchanged mem]
    have blanks : ((margin : Int) + 1 - 1).toNat = margin := by omega
    have row : (max 1 e.length).toNat = carets := by omega
    rcases highlight_cases l.text (show 1 ≤ (margin : Int) + 1 by omega) e.length false with
      shown | ⟨failed, large⟩
    · left
      simp only [shown, blanks, row, markerOf, List.append_assoc]
      rfl
    · exact .inr ⟨failed, by omega⟩
  · rw [charCount_markerOf, Line.text, Text.charCount_ofChars, ← Line.length]
    omega

end

end Terminal

/-! ### Tokens on a line -/

namespace Lexer

variable {s : Source} {ts : List Token}

/-- A token ends on the line on which it starts, which is that of its position. -/
theorem line_of_mem (lexed : s.lex = .ok ts) {t : Token} (h : t ∈ ts) :
    let l := s.lineAt t.span.start.toNat
    l ∈ s.lines ∧ t.position.line = l.number ∧ l.start ≤ t.span.start ∧
      t.span.stop ≤ l.start + l.length := by
  have tiles := (lex_eq_ok_iff s ts).mp lexed
  obtain ⟨placed, stop⟩ := tiles.placed t h
  have start := placed.start_nonneg
  have order := placed.start_lt_stop
  have offset : (t.span.start.toNat : Int) = t.span.start := Int.toNat_of_nonneg start
  have inside : t.span.start.toNat < s.size := by
    rw [Source.size]
    omega
  obtain ⟨mem, before, after⟩ := Source.lineAt_spec inside
  have within := Source.stop_le_of_newline_not_mem (n := (t.span.stop - t.span.start).toNat) mem
    after (by rw [Source.size]; omega) placed.stands.spells.newline_not_mem
  have position := tiles.position_eq t h
  rw [← offset, Source.positionOf_eq inside] at position
  exact ⟨mem, congrArg Position.line position, by omega, by omega⟩

/-- Of two tokens in order, the last one ends on the line of the first one exactly if both have
positions on the same line. -/
theorem stop_le_iff (lexed : s.lex = .ok ts) {first last : Token} (hf : first ∈ ts)
    (hl : last ∈ ts) (order : first.span.start ≤ last.span.start) :
    last.span.stop ≤ (s.lineAt first.span.start.toNat).start +
        (s.lineAt first.span.start.toNat).length ↔
      first.position.line = last.position.line := by
  obtain ⟨mem, line, start, -⟩ := line_of_mem lexed hf
  obtain ⟨mem', line', start', stop'⟩ := line_of_mem lexed hl
  have nonempty := (((lex_eq_ok_iff s ts).mp lexed).placed last hl).1.start_lt_stop
  rw [line, line', Int.natCast_inj]
  -- two lines that are not the same have different numbers and lie apart
  rcases Source.before_or_eq mem mem' with before | same | after
  · have := before.1
    have := before.2
    omega
  · rw [same]
    exact iff_of_true stop' rfl
  · have := after.1
    have := after.2
    omega

/-- The description of a fault is not that of a comparison of two literals. -/
theorem message_ne (fault : LexFault) : fault.message ≠ ("both sides can't be values" : Text) := by
  have first : fault.message.head? = some 117 ∨ fault.message.head? = some 109 := by
    cases fault with
    | missingName => exact .inr rfl
    | _ => exact .inl rfl
  intro same
  rw [same] at first
  exact absurd first (by decide)

/-- An error in the tokens of a file goes from the start of a token to the end of the same one, or,
if it is about two literals, of a later one. -/
theorem ordered_of_ofTokens_error (lexed : s.lex = .ok ts) {e : ParseError}
    (rejected : (Program.ofTokens ts).result = .error e) :
    e.first.span.start ≤ e.last.span.start ∧ (e.fault ≠ .twoLiterals → e.first = e.last) := by
  rcases Parser.covers_of_ofTokens_error rejected with same | ⟨fault, inOrder⟩
  · rw [same]
    exact ⟨Int.le_refl _, fun _ => rfl⟩
  · have tiles := (lex_eq_ok_iff s ts).mp lexed
    have apart := List.rel_of_pairwise_cons (tiles.separated.sublist inOrder)
      (List.mem_singleton_self _)
    have first := (Parser.mem_of_ofTokens_error rejected).1
    have nonempty := (tiles.placed e.first first).1.start_lt_stop
    exact ⟨by omega, fun other => absurd fault other⟩

end Lexer

namespace Terminal

/-- **Highlights under lines.**  If reading a file ends in an error, and the file has not changed,
then the line of the error is displayed with a marker under it.  The marker of a lexical error is
never longer than the line, and that of another error is longer exactly if the error is about the
two literals of a comparison and they stand on different lines. -/
theorem highlight_fits_iff {files : Files} {file bytes : Text}
    (unchanged : files.read file = .ok bytes) :
    (∀ e, (Source.ofText file bytes).lex = .error e →
      ∃ line marker, Highlights files bytes (e.syntaxError file) line marker ∧
        Text.charCount marker ≤ Text.charCount line) ∧
    ∀ ts e, (Source.ofText file bytes).lex = .ok ts → (Program.ofTokens ts).result = .error e →
      ∃ line marker, Highlights files bytes e.syntaxError line marker ∧
        (Text.charCount marker ≤ Text.charCount line ↔
          e.first.position.line = e.last.position.line) ∧
        (e.first.position.line ≠ e.last.position.line → e.fault = .twoLiterals) := by
  refine ⟨fun e lexed => ?_, fun ts e lexed rejected => ?_⟩
  · obtain ⟨before, us, c, rest, -, -, -, points⟩ := Lexer.pointsInto_of_lex_error lexed
    obtain ⟨line, marker, highlights, fits⟩ := exists_highlights unchanged points
    refine ⟨line, marker, highlights, fits.mpr ?_⟩
    have length := points.length_pos
    have stop := points.stop_le
    have inside : before.length < (Source.ofText file bytes).size := by omega
    obtain ⟨mem, -, after⟩ := Source.lineAt_spec inside
    have within := Source.stop_le_of_newline_not_mem mem after (by omega)
      (points.singleLine (Lexer.message_ne e.fault))
    omega
  · obtain ⟨first, last⟩ := Parser.mem_of_ofTokens_error rejected
    obtain ⟨order, single⟩ := Lexer.ordered_of_ofTokens_error lexed rejected
    have tiles := (Lexer.lex_eq_ok_iff _ ts).mp lexed
    have start := (tiles.placed e.first first).1.start_nonneg
    have nonempty := (tiles.placed e.last last).1.start_lt_stop
    have points := Lexer.pointsInto_of_covers (e := e.syntaxError) lexed first last (by omega) rfl
      rfl fun other => single fun two => other (by rw [ParseError.syntaxError, two]; rfl)
    obtain ⟨line, marker, highlights, fits⟩ := exists_highlights unchanged points
    refine ⟨line, marker, highlights, ?_, fun apart => ?_⟩
    · have length : e.syntaxError.length = e.last.span.stop - e.first.span.start :=
        distance_of_nonneg start (by omega)
      rw [fits, ← Lexer.stop_le_iff lexed first last order, length]
      omega
    · exact Decidable.byContradiction fun other =>
        apart (congrArg (·.position.line) (single other))

/-- The directory with a single file. -/
def directoryOf (file bytes : Text) : Files := ⟨[([file], .file bytes)]⟩

/-- A comparison of two literals. -/
def inlineBytes : Text := "#code\nif 1==2 in end"

/-- Its tokens. -/
def inlineTokens : List Token :=
  [⟨.code, "#code", ⟨"inline", 1, 1⟩, Lexer.spanAt 0 5⟩,
   ⟨.word .if_, "if", ⟨"inline", 2, 1⟩, Lexer.spanAt 6 2⟩,
   ⟨.int, "1", ⟨"inline", 2, 4⟩, Lexer.spanAt 9 1⟩,
   ⟨.compare .eq, "==", ⟨"inline", 2, 5⟩, Lexer.spanAt 10 2⟩,
   ⟨.int, "2", ⟨"inline", 2, 7⟩, Lexer.spanAt 12 1⟩,
   ⟨.word .in_, "in", ⟨"inline", 2, 9⟩, Lexer.spanAt 14 2⟩,
   ⟨.word .end_, "end", ⟨"inline", 2, 12⟩, Lexer.spanAt 17 3⟩]

theorem highlight_fits_iff_inline :
    ((directoryOf "inline" inlineBytes).read "inline" = .ok inlineBytes ∧
      (Source.ofText "inline" inlineBytes).lex = .ok inlineTokens ∧
      (Program.ofTokens inlineTokens).result =
        .error ⟨.twoLiterals, inlineTokens[2], inlineTokens[4]⟩) ∧
    ∃ line marker, Highlights (directoryOf "inline" inlineBytes) inlineBytes
        ⟨⟨"inline", 2, 4⟩, 4, "both sides can't be values"⟩ line marker ∧
      Text.charCount marker ≤ Text.charCount line := by
  have unchanged : (directoryOf "inline" inlineBytes).read "inline" = .ok inlineBytes := rfl
  have lexed : (Source.ofText "inline" inlineBytes).lex = .ok inlineTokens :=
    Lexer.lex_of_toOption (by decide +kernel)
  have rejected : (Program.ofTokens inlineTokens).result =
      .error ⟨.twoLiterals, inlineTokens[2], inlineTokens[4]⟩ := rfl
  obtain ⟨line, marker, highlights, fits, -⟩ :=
    (highlight_fits_iff unchanged).2 _ _ lexed rejected
  exact ⟨⟨unchanged, lexed, rejected⟩, line, marker, highlights, fits.mpr rfl⟩

/-- A comparison of two literals on different lines. -/
def splitBytes : Text := "#code\nif 1==\n2 in end"

/-- Its tokens. -/
def splitTokens : List Token :=
  [⟨.code, "#code", ⟨"split", 1, 1⟩, Lexer.spanAt 0 5⟩,
   ⟨.word .if_, "if", ⟨"split", 2, 1⟩, Lexer.spanAt 6 2⟩,
   ⟨.int, "1", ⟨"split", 2, 4⟩, Lexer.spanAt 9 1⟩,
   ⟨.compare .eq, "==", ⟨"split", 2, 5⟩, Lexer.spanAt 10 2⟩,
   ⟨.int, "2", ⟨"split", 3, 1⟩, Lexer.spanAt 13 1⟩,
   ⟨.word .in_, "in", ⟨"split", 3, 3⟩, Lexer.spanAt 15 2⟩,
   ⟨.word .end_, "end", ⟨"split", 3, 6⟩, Lexer.spanAt 18 3⟩]

/-- The carets of an error that goes on in the next line go beyond the line they are under. -/
theorem highlight_beyond_line :
    ((directoryOf "split" splitBytes).read "split" = .ok splitBytes ∧
      (Source.ofText "split" splitBytes).lex = .ok splitTokens ∧
      (Program.ofTokens splitTokens).result =
        .error ⟨.twoLiterals, splitTokens[2], splitTokens[4]⟩) ∧
    showError (directoryOf "split" splitBytes)
      ⟨⟨"split", 2, 4⟩, 5, "both sides can't be values"⟩ false = .ok "if 1==\n   ^^^^^\n" ∧
    ¬ Text.charCount "   ^^^^^" ≤ Text.charCount "if 1==" := by
  have unchanged : (directoryOf "split" splitBytes).read "split" = .ok splitBytes := rfl
  have lexed : (Source.ofText "split" splitBytes).lex = .ok splitTokens :=
    Lexer.lex_of_toOption (by decide +kernel)
  have shown : showError (directoryOf "split" splitBytes)
      ⟨⟨"split", 2, 4⟩, 5, "both sides can't be values"⟩ false = .ok "if 1==\n   ^^^^^\n" := by rfl
  exact ⟨⟨unchanged, lexed, rfl⟩, shown, by decide⟩

end Terminal

end XtAsm
