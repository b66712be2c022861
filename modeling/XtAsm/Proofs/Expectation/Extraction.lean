import Mathlib.Data.List.Forall2
import XtAsm.Proofs.Expectation.Form
import XtAsm.Proofs.Source.Lines

/-!
# Reading all annotations of a file

* `leading`: the lines at the head of a file that start like annotations;
* `InLines`: columns of an existing line;
* `ofLine_cases`, `extractFrom_cases`: what one line, and what all leading lines, are read as;
* `extract_ok_iff`: every leading line yields an annotation within the file or an error, unless one
  of them has a negative line number, which is looked up;
* `extract_announced`: annotations within the file are read as they are written.
-/

namespace XtAsm.Expectation

/-- The lines at the head of some lines that start like annotations. -/
def leading (lines : List Line) : List Line := lines.takeWhile fun l => opening.isPrefixOf l.text

/-- The columns belong to an existing line, of which the end may be passed by one. -/
structure InLines (lines : List Line) (line start stop : Int) : Prop where
  line_pos : 1 ≤ line
  line_le : line ≤ lines.length
  start_pos : 1 ≤ start
  start_le_stop : start ≤ stop
  stop_le : ∀ l, lines[line.toNat - 1]? = some l → stop ≤ l.length + 1

/-- The error is about columns of an existing line. -/
def IsInLines (lines : List Line) (e : SyntaxError) : Prop :=
  InLines lines e.position.line e.position.column (e.position.column + e.length)

theorem isInLines_syntaxError {lines : List Line} {e : Expected}
    (h : InLines lines e.line e.start e.stop) (file : Text) :
    IsInLines lines (e.syntaxError file) := by
  have stop : e.start + (e.stop - e.start) = e.stop := by omega
  rw [IsInLines, Expected.syntaxError]
  simpa only [stop] using h

/-! ### One line -/

section Step

variable {file : Text} {lines : List Line} {l : Line} {e : Expected}

theorem check_of_inLines (h : InLines lines e.line e.start e.stop) :
    check lines e = .ok (.ok e) := by
  have existing : e.line.toNat - 1 < lines.length := by
    have := h.line_pos
    have := h.line_le
    omega
  have found := List.getElem?_eq_getElem existing
  have stop := h.stop_le _ found
  have order := h.start_le_stop
  rw [check, if_neg (Int.not_lt.mpr h.line_le), if_neg (Int.not_lt.mpr h.line_pos), found]
  exact if_neg (by omega)

theorem check_cases (columns : 1 ≤ e.start ∧ e.start ≤ e.stop) (line : 1 ≤ e.line) :
    (∃ error, check lines e = .ok (.error error)) ∨ InLines lines e.line e.start e.stop := by
  rw [check]
  split
  · exact .inl ⟨_, rfl⟩
  next existing =>
  rw [if_neg (Int.not_lt.mpr line)]
  have inside : e.line.toNat - 1 < lines.length := by omega
  rw [List.getElem?_eq_getElem inside]
  dsimp only
  split
  · exact .inl ⟨_, rfl⟩
  · next within =>
    refine .inr ⟨line, Int.not_lt.mp existing, columns.1, columns.2, fun l found => ?_⟩
    rw [List.getElem?_eq_getElem inside] at found
    cases found
    omega

theorem ofLine_of_not_opening (h : ¬ opening <+: l.text) : ofLine file lines l = .ok none := by
  rw [ofLine, if_neg (mt List.isPrefixOf_iff_prefix.mp h)]

/-- A line with an annotation of the file. -/
theorem ofLine_of_reads (h : opening <+: l.text) (reads : Reads l.text e)
    (inLines : InLines lines e.line e.start e.stop) :
    ofLine file lines l = .ok (some (.ok (e.syntaxError file))) := by
  rw [ofLine, if_pos (List.isPrefixOf_iff_prefix.mpr h), parse_eq_ok_iff.mpr reads]
  simp only [check_of_inLines inLines]
  rfl

/-- A line that starts like an annotation yields an error, or an annotation of the file, unless its
line number is negative. -/
theorem ofLine_cases (h : opening <+: l.text) (file : Text) (lines : List Line) :
    ((∃ e, Reads l.text e ∧ e.line < 1) ∧ ofLine file lines l = .error .outOfRange) ∨
    ((∀ e, Reads l.text e → 1 ≤ e.line) ∧ ∃ r, ofLine file lines l = .ok (some r) ∧
      ∀ item, r = .ok item → IsInLines lines item) := by
  rw [ofLine, if_pos (List.isPrefixOf_iff_prefix.mpr h)]
  cases read : parse l.text with
  | error error =>
    refine .inr ⟨fun e reads => ?_, .error error, rfl, nofun⟩
    rw [parse_eq_ok_iff.mpr reads] at read
    cases read
  | ok e =>
    have reads := parse_eq_ok_iff.mp read
    have only : ∀ e', Reads l.text e' → e' = e := fun e' reads' => by
      rw [parse_eq_ok_iff.mpr reads'] at read
      exact Except.ok.inj read
    dsimp only
    by_cases low : e.line < 1
    · -- the number is below the number of lines, and is looked up
      have failed : check lines e = .error .outOfRange := by
        rw [check, if_neg (by omega), if_pos low]
      rw [failed]
      exact .inl ⟨⟨e, reads, low⟩, rfl⟩
    · have line : 1 ≤ e.line := Int.not_lt.mp low
      refine .inr ⟨fun e' reads' => only e' reads' ▸ line, ?_⟩
      rcases check_cases reads.columns line with ⟨error, checked⟩ | inLines
      · rw [checked]
        exact ⟨.error error, rfl, nofun⟩
      · rw [check_of_inLines inLines]
        refine ⟨.ok (e.syntaxError file), rfl, ?_⟩
        rintro _ ⟨⟩
        exact isInLines_syntaxError inLines file

end Step

/-! ### All leading lines -/

section Run

variable {file : Text} {lines ls : List Line} {l : Line}

/-- What is extracted with what one more line yields in front. -/
def Extracted.add (r : Except Error SyntaxError) (x : Extracted) : Extracted :=
  match r with
  | .ok item => { x with items := item :: x.items }
  | .error e => { x with errors := e :: x.errors }

theorem extractFrom_cons_of_none (h : ofLine file lines l = .ok none) :
    extractFrom file lines (l :: ls) = .ok ⟨[], []⟩ := by
  rw [extractFrom, h]
  rfl

theorem extractFrom_cons_of_some {r : Except Error SyntaxError}
    (h : ofLine file lines l = .ok (some r)) :
    extractFrom file lines (l :: ls) = (extractFrom file lines ls).map (Extracted.add r) := by
  rw [extractFrom, h]
  cases r <;> cases extractFrom file lines ls <;> rfl

theorem extractFrom_cons_of_error {fault : Fault} (h : ofLine file lines l = .error fault) :
    extractFrom file lines (l :: ls) = .error fault := by
  rw [extractFrom, h]
  rfl

/-- Every leading line yields one item or one error, unless a line number is negative. -/
theorem extractFrom_cases (file : Text) (lines ls : List Line) :
    ((∃ l ∈ leading ls, ∃ e, Reads l.text e ∧ e.line < 1) ∧
      extractFrom file lines ls = .error .outOfRange) ∨
    ((∀ l ∈ leading ls, ∀ e, Reads l.text e → 1 ≤ e.line) ∧
      ∃ x, extractFrom file lines ls = .ok x ∧
        x.items.length + x.errors.length = (leading ls).length ∧
        ∀ item ∈ x.items, IsInLines lines item) := by
  induction ls with
  | nil => exact .inr ⟨by simp [leading], ⟨[], []⟩, rfl, rfl, by simp⟩
  | cons l ls ih =>
    by_cases starts : opening <+: l.text
    · have lead : leading (l :: ls) = l :: leading ls :=
        List.takeWhile_cons_of_pos (List.isPrefixOf_iff_prefix.mpr starts)
      simp only [lead, List.forall_mem_cons, List.exists_mem_cons_iff]
      rcases ofLine_cases starts file lines with ⟨negative, failed⟩ | ⟨positive, r, read, item⟩
      · exact .inl ⟨.inl negative, extractFrom_cons_of_error failed⟩
      rw [extractFrom_cons_of_some read]
      rcases ih with ⟨negative, failed⟩ | ⟨later, x, extracted, count, items⟩
      · rw [failed]
        exact .inl ⟨.inr negative, rfl⟩
      · rw [extracted]
        refine .inr ⟨⟨positive, later⟩, x.add r, rfl, ?_, ?_⟩
        · cases r <;> simp only [Extracted.add, List.length_cons] <;> omega
        · cases r with
          | error e => exact items
          | ok first => exact List.forall_mem_cons.mpr ⟨item first rfl, items⟩
    · have lead : leading (l :: ls) = [] :=
        List.takeWhile_cons_of_neg (mt List.isPrefixOf_iff_prefix.mp starts)
      rw [lead]
      exact .inr ⟨by simp, ⟨[], []⟩, extractFrom_cons_of_none (ofLine_of_not_opening starts), rfl,
        by simp⟩

/-- Annotations in a row, up to a line that is none. -/
theorem extractFrom_append {items : List SyntaxError} {rest : List Line}
    (read : List.Forall₂ (fun l item => ofLine file lines l = .ok (some (.ok item))) ls items)
    (last : ∀ l ∈ rest.head?, ¬ opening <+: l.text) :
    extractFrom file lines (ls ++ rest) = .ok ⟨items, []⟩ := by
  induction read with
  | nil =>
    cases rest with
    | nil => rfl
    | cons l rest => exact extractFrom_cons_of_none (ofLine_of_not_opening (last l rfl))
  | cons first _ ih =>
    rw [List.cons_append, extractFrom_cons_of_some first, ih]
    rfl

end Run

/-! ### Files -/

/-- **Reading all annotations.**  Reading comes to an end exactly if no leading line has a negative
line number, which would be looked up among the lines.  It then has an item or an error for every
leading line, and each item is about columns of an existing line. -/
theorem extract_ok_iff (s : Source) :
    ((∃ x, extract s = .ok x) ↔ ∀ l ∈ leading s.lines, ∀ e, Reads l.text e → 1 ≤ e.line) ∧
    ∀ x, extract s = .ok x →
      x.items.length + x.errors.length = (leading s.lines).length ∧
      ∀ item ∈ x.items, IsInLines s.lines item := by
  rw [extract]
  rcases extractFrom_cases s.file s.lines s.lines with ⟨⟨l, hl, e, reads, low⟩, failed⟩ |
    ⟨positive, x, extracted, count, items⟩
  · rw [failed]
    refine ⟨⟨fun read => ?_, fun positive => ?_⟩, nofun⟩
    · obtain ⟨_, ⟨⟩⟩ := read
    · exact absurd (positive l hl e reads) (Int.not_le.mpr low)
  · rw [extracted]
    refine ⟨⟨fun _ => positive, fun _ => ⟨x, rfl⟩⟩, ?_⟩
    rintro _ ⟨⟩
    exact ⟨count, items⟩

/-- A file with an annotation of its second line, which is no proper annotation. -/
def mixed : Source := .ofText "mixed" "--error:2:1-3:m\n--error\n#code"

theorem extract_ok_iff_mixed :
    ∃ x, extract mixed = .ok x ∧ x.items = [⟨⟨"mixed", 2, 1⟩, 2, "m"⟩] ∧
      x.items.length + x.errors.length = (leading mixed.lines).length ∧
      ∀ item ∈ x.items, IsInLines mixed.lines item := by
  have extracted : extract mixed =
      .ok ⟨[⟨⟨"mixed", 2, 1⟩, 2, "m"⟩], [.malformed "--error"]⟩ := by rfl
  exact ⟨_, extracted, rfl, (extract_ok_iff mixed).2 _ extracted⟩

/-- A file with an annotation of line -1. -/
def negative : Source := .ofText "negative" "--error:-1:1-2:m"

/-- A negative line number is looked up among the lines. -/
theorem not_exists_extract : ¬ ∃ x, extract negative = .ok x := by
  rintro ⟨x, extracted⟩
  have failed : extract negative = .error .outOfRange := by rfl
  rw [failed] at extracted
  cases extracted

/-- Line numbers and columns of a file whose characters are counted in 64 bits are 64-bit words. -/
theorem InLines.lt_halfWords {s : Source} {line start stop : Int}
    (words : s.size + 1 < Text.halfWords) (h : InLines s.lines line start stop) :
    line < Text.halfWords ∧ stop < Text.halfWords := by
  have lines := s.length_lines_le
  have line_pos := h.line_pos
  have line_le := h.line_le
  have existing : line.toNat - 1 < s.lines.length := by omega
  have stop := h.stop_le _ (List.getElem?_eq_getElem existing)
  have length := Source.stop_le_of_mem_lines (List.getElem_mem existing)
  omega

/-- **Annotations are read as they are written.**  If some lines at the head of a file are
annotations, with decimal numerals for columns of existing lines, then they are what is read. -/
theorem extract_announced {s : Source} {ls rest : List Line} {es : List Expected}
    (words : s.size + 1 < Text.halfWords) (split : s.lines = ls ++ rest)
    (announced : List.Forall₂
      (fun l e => Announces l.text e ∧ InLines s.lines e.line e.start e.stop) ls es)
    (last : ∀ l ∈ rest.head?, ¬ opening <+: l.text) :
    let items : List SyntaxError :=
      es.map fun e => ⟨⟨s.file, e.line, e.start⟩, e.stop - e.start, e.message⟩
    extract s = .ok ⟨items, []⟩ ∧
      items.map summary = es.map fun e => s.file ++ ":" ++ Text.ofInt e.line ++ ":" ++
        Text.ofInt e.start ++ "-" ++ Text.ofInt e.stop ++ " " ++ e.message := by
  intro items
  constructor
  · have read : List.Forall₂ (fun l item => ofLine s.file s.lines l = .ok (some (.ok item)))
        ls items := by
      refine List.forall₂_map_right_iff.mpr (announced.imp ?_)
      rintro l e ⟨written, inLines⟩
      obtain ⟨line, stop⟩ := inLines.lt_halfWords words
      exact ofLine_of_reads written.opening_isPrefix
        (written.reads inLines.line_pos inLines.start_pos inLines.start_le_stop line stop) inLines
    rw [extract]
    nth_rewrite 2 [split]
    exact extractFrom_append read last
  · rw [List.map_map]
    refine List.map_congr_left fun e _ => ?_
    have stop : e.start + (e.stop - e.start) = e.stop := by omega
    simp only [Function.comp_apply, summary, Position.render, stop]

/-- A file with two annotations.  The message of the first one looks like another one, and that of
the second one, which is about the end of its line, is empty. -/
def annotated : Source :=
  .ofText "annotated" "--error:3:06-7:--error:1:2-3:m\n--error:3:7-7:\nexit 1\n--error"

/-- The lines of its annotations. -/
def annotationLines : List Line :=
  [⟨1, 0, "--error:3:06-7:--error:1:2-3:m".toList⟩, ⟨2, 31, "--error:3:7-7:".toList⟩]

/-- Its other lines. -/
def otherLines : List Line := [⟨3, 46, "exit 1".toList⟩, ⟨4, 53, "--error".toList⟩]

/-- Its annotations. -/
def annotations : List Expected := [⟨3, 6, 7, "--error:1:2-3:m"⟩, ⟨3, 7, 7, []⟩]

theorem extract_announced_message :
    (annotated.size + 1 < Text.halfWords ∧ annotated.lines = annotationLines ++ otherLines ∧
      List.Forall₂ (fun l e => Announces l.text e ∧ InLines annotated.lines e.line e.start e.stop)
        annotationLines annotations ∧ ∀ l ∈ otherLines.head?, ¬ opening <+: l.text) ∧
    extract annotated = .ok ⟨[⟨⟨"annotated", 3, 6⟩, 1, "--error:1:2-3:m"⟩,
      ⟨⟨"annotated", 3, 7⟩, 0, []⟩], []⟩ := by
  have words : annotated.size + 1 < Text.halfWords := by decide +kernel
  have split : annotated.lines = annotationLines ++ otherLines := by decide +kernel
  have last : ∀ l ∈ otherLines.head?, ¬ opening <+: l.text := by decide
  have inLines (start stop : Int) (h : 1 ≤ start ∧ start ≤ stop ∧ stop ≤ 7) :
      InLines annotated.lines 3 start stop := by
    rw [split]
    refine ⟨by decide, by decide, h.1, h.2.1, fun l found => ?_⟩
    cases found
    exact h.2.2
  have three : Text.Denotes "3" 3 := Text.denotes_ofNat 3
  have seven : Text.Denotes "7" 7 := Text.denotes_ofNat 7
  have six : Text.Denotes "06" 6 := ⟨['0', '6'], by decide, by simp [Char.isDigit], rfl, rfl⟩
  have first : Announces "--error:3:06-7:--error:1:2-3:m" ⟨3, 6, 7, "--error:1:2-3:m"⟩ :=
    @Announces.mk "3" "06" "7" ⟨3, 6, 7, "--error:1:2-3:m"⟩ three six seven
  have second : Announces "--error:3:7-7:" ⟨3, 7, 7, []⟩ :=
    @Announces.mk "3" "7" "7" ⟨3, 7, 7, []⟩ three seven seven
  have announced : List.Forall₂
      (fun l e => Announces l.text e ∧ InLines annotated.lines e.line e.start e.stop)
      annotationLines annotations :=
    .cons ⟨first, inLines 6 7 (by decide)⟩ (.cons ⟨second, inLines 7 7 (by decide)⟩ .nil)
  exact ⟨⟨words, split, announced, last⟩, (extract_announced words split announced last).1⟩

end XtAsm.Expectation
