import XtAsm.Proofs.Text.Utf8

/-!
# Lines and positions

The lines of a file are cut out of it in one go, while the line around an offset is found by a walk
through the characters that counts line breaks.  Both find the same lines.

* `Terminated`: characters of which the last line is ended too, as in every file;
* `flatMap_linesFrom`, `number_of_getElem?`, `pairwise_linesFrom`: the lines make up the file, are
  numbered, and lie apart;
* `exists_split_of_mem_lines`, `stop_le_of_newline_not_mem`: where a line stands in its file, and
  which characters stand on it;
* `enclosingFrom_spec`, `enclosingFrom_length`: where a walk to a character, and a walk to the end,
  arrive;
* `lines_agree`: lines, enclosing lines and positions agree.
-/

namespace XtAsm

/-- A line ends before the other one starts. -/
def Line.Before (l m : Line) : Prop := l.number < m.number ∧ l.start + l.length < m.start

namespace Source

/-! ### Ended lines -/

/-- Every line is ended by a newline, the last one included. -/
def Terminated (cs : List Char) : Prop := ∀ c ∈ cs.getLast?, c = '\n'

theorem terminated_nil : Terminated [] := by simp [Terminated]

theorem Terminated.of_append {cs ds : List Char} (h : Terminated (cs ++ ds)) : Terminated ds := by
  intro c hc
  refine h c ?_
  rw [List.getLast?_append, show ds.getLast? = some c from hc]
  rfl

/-- The lines of a file are all ended. -/
theorem terminated_ofText (file bytes : Text) : Terminated (ofText file bytes).contents := by
  rw [ofText, terminateLines]
  rcases List.eq_nil_or_concat (cutLines bytes) with none | ⟨lines, last, cut⟩
  · rw [none]
    exact terminated_nil
  · rw [cut, List.concat_eq_append, List.flatMap_append, List.flatMap_singleton,
      ← List.append_assoc, Text.toChars_append_newline]
    simp [Terminated, Text.toChars, Text.symbols, Text.symbolsFrom]

/-! ### Cutting -/

section Cutting

variable {number start : Nat} {before cs : List Char} {l : Line}

/-- The lines make up the characters again. -/
theorem flatMap_linesFrom (line : '\n' ∉ before) (h : Terminated (before.reverse ++ cs)) :
    (linesFrom number start before cs).flatMap (fun l => l.chars ++ ['\n']) =
      before.reverse ++ cs := by
  induction cs generalizing number start before with
  | nil =>
    cases before with
    | nil => rfl
    | cons c before =>
      -- the last line would have to end with a newline
      have last : c = '\n' := h c (by simp)
      exact absurd (last ▸ List.mem_cons_self) line
  | cons c cs ih =>
    rw [linesFrom]
    split
    · next newline =>
      have split : before.reverse ++ c :: cs = (before.reverse ++ [c]) ++ cs := by simp
      have after : Terminated cs := (split ▸ h).of_append
      have rest := @ih (number + 1) (start + before.length + 1) [] List.not_mem_nil after
      simp [rest, newline]
    · next other =>
      have rest := @ih number start (c :: before)
        (List.not_mem_cons_of_ne_of_not_mem (Ne.symm other) line) (by simpa using h)
      simpa using rest

/-- No line goes beyond a line break. -/
theorem newline_not_mem_linesFrom (line : '\n' ∉ before)
    (h : l ∈ linesFrom number start before cs) : '\n' ∉ l.chars := by
  induction cs generalizing number start before with
  | nil =>
    rw [linesFrom] at h
    split at h
    · cases h
    · rw [List.mem_singleton.mp h]
      simpa using line
  | cons c cs ih =>
    rw [linesFrom] at h
    split at h
    · rcases List.mem_cons.mp h with rfl | later
      · simpa using line
      · exact ih List.not_mem_nil later
    · next other => exact ih (List.not_mem_cons_of_ne_of_not_mem (Ne.symm other) line) h

/-- The lines are numbered one by one. -/
theorem number_of_getElem? {k : Nat} (h : (linesFrom number start before cs)[k]? = some l) :
    l.number = number + k := by
  induction cs generalizing number start before k with
  | nil =>
    rw [linesFrom] at h
    split at h
    · cases h
    · cases k <;> cases h
      rfl
  | cons c cs ih =>
    rw [linesFrom] at h
    split at h
    · cases k with
      | zero =>
        cases h
        rfl
      | succ k =>
        rw [ih h]
        omega
    · exact ih h

theorem bounds_of_mem_linesFrom (h : l ∈ linesFrom number start before cs) :
    number ≤ l.number ∧ start ≤ l.start := by
  induction cs generalizing number start before with
  | nil =>
    rw [linesFrom] at h
    split at h
    · cases h
    · rw [List.mem_singleton.mp h]
      exact ⟨Nat.le_refl _, Nat.le_refl _⟩
  | cons c cs ih =>
    rw [linesFrom] at h
    split at h
    · rcases List.mem_cons.mp h with rfl | later
      · exact ⟨Nat.le_refl _, Nat.le_refl _⟩
      · have := ih later
        omega
    · exact ih h

/-- Every line ends before the next one starts. -/
theorem pairwise_linesFrom (number start : Nat) (before cs : List Char) :
    (linesFrom number start before cs).Pairwise Line.Before := by
  induction cs generalizing number start before with
  | nil =>
    rw [linesFrom]
    split
    · exact .nil
    · exact List.pairwise_singleton _ _
  | cons c cs ih =>
    rw [linesFrom]
    split
    · refine .cons (fun m hm => ?_) (ih _ _ _)
      have bounds := bounds_of_mem_linesFrom hm
      simp only [Line.Before, Line.length, List.length_reverse]
      omega
    · exact ih _ _ _

/-- There are not more lines than characters. -/
theorem length_linesFrom_le (number start : Nat) (before cs : List Char) :
    (linesFrom number start before cs).length ≤ before.length + cs.length := by
  induction cs generalizing number start before with
  | nil =>
    rw [linesFrom]
    split
    · exact Nat.zero_le _
    · next more => exact List.length_pos_iff.mpr more
  | cons c cs ih =>
    rw [linesFrom]
    split
    · have rest := ih (number + 1) (start + before.length + 1) []
      simp only [List.length_cons, List.length_nil] at rest ⊢
      omega
    · have rest := ih number start (c :: before)
      simp only [List.length_cons] at rest ⊢
      omega

/-- Every line stands in the file where it says, and what follows it starts with a line break. -/
theorem exists_split_of_mem_linesFrom {front : List Char}
    (h : l ∈ linesFrom number front.length before cs) :
    ∃ u v, front ++ (before.reverse ++ cs) = u ++ (l.chars ++ v) ∧ u.length = l.start ∧
      ∀ c ∈ v.head?, c = '\n' := by
  induction cs generalizing number front before with
  | nil =>
    rw [linesFrom] at h
    split at h
    · cases h
    · rw [List.mem_singleton.mp h]
      exact ⟨front, [], rfl, rfl, by simp⟩
  | cons c cs ih =>
    rw [linesFrom] at h
    split at h
    · next newline =>
      rcases List.mem_cons.mp h with rfl | later
      · exact ⟨front, c :: cs, rfl, rfl, by simp [newline]⟩
      · have next := @ih (number + 1) [] (front ++ (before.reverse ++ [c]))
        simp only [List.length_append, List.length_reverse, List.length_singleton,
          ← Nat.add_assoc] at next
        simpa using next later
    · have next := ih h
      rwa [List.reverse_cons, List.append_assoc, List.singleton_append] at next

/-- The first line goes on up to the next line break. -/
theorem head?_linesFrom (number start : Nat) (before : List Char) (c : Char) (cs : List Char) :
    (linesFrom number start before (c :: cs)).head? =
      some ⟨number, start, before.reverse ++ (c :: cs).takeWhile (· ≠ '\n')⟩ := by
  induction cs generalizing before c with
  | nil => by_cases newline : c = '\n' <;> simp [linesFrom, newline]
  | cons d cs ih =>
    rw [linesFrom]
    by_cases newline : c = '\n'
    · simp [newline]
    · rw [if_neg newline, ih]
      simp [newline]

end Cutting

/-! ### Walking -/

section Walking

variable {number start : Nat} {line cs : List Char}

theorem takeWhile_line (h : '\n' ∉ line) (cs : List Char) :
    (line ++ cs).takeWhile (· ≠ '\n') = line ++ cs.takeWhile (· ≠ '\n') :=
  List.takeWhile_append_of_pos fun _ hc => decide_eq_true fun eq => h (eq ▸ hc)

theorem enclosingFrom_zero (passed number start : Nat) (fromStart cs : List Char) :
    enclosingFrom passed number start fromStart 0 cs =
      ⟨number, start, fromStart.takeWhile (· ≠ '\n')⟩ := by
  cases cs <;> rfl

/-- A walk to a character, from within a line, arrives on a line around the character. -/
theorem enclosingFrom_spec (h : '\n' ∉ line) {steps : Nat} (inside : steps < cs.length) :
    let l := enclosingFrom (start + line.length) number start (line ++ cs) steps cs
    l ∈ linesFrom number start line.reverse cs ∧
      l.start ≤ start + line.length + steps ∧ start + line.length + steps ≤ l.start + l.length := by
  induction steps generalizing number start line cs with
  | zero =>
    obtain ⟨c, cs, rfl⟩ := List.exists_cons_of_length_pos inside
    have first := List.mem_of_mem_head? (head?_linesFrom number start line.reverse c cs)
    rw [List.reverse_reverse] at first
    rw [enclosingFrom_zero, takeWhile_line h]
    refine ⟨first, Nat.le_add_right _ _, ?_⟩
    simp only [Line.length, List.length_append]
    omega
  | succ steps ih =>
    obtain ⟨c, cs, rfl⟩ := List.exists_cons_of_length_pos (Nat.zero_lt_of_lt inside)
    have within : steps < cs.length := Nat.lt_of_succ_lt_succ inside
    by_cases newline : c = '\n'
    · have more : cs ≠ [] := List.ne_nil_of_length_pos (Nat.zero_lt_of_lt within)
      have next := @ih (number + 1) (start + line.length + 1) [] cs List.not_mem_nil within
      rw [enclosingFrom, if_pos ⟨newline, more⟩, linesFrom, if_pos newline]
      simp only [List.length_nil, Nat.add_zero, List.nil_append, List.reverse_nil,
        List.length_reverse] at next ⊢
      refine ⟨List.mem_cons_of_mem _ next.1, ?_⟩
      omega
    · have longer : '\n' ∉ line ++ [c] := by simp [h, Ne.symm newline]
      have next := @ih number start (line ++ [c]) cs longer within
      rw [enclosingFrom, if_neg (fun both => newline both.1), linesFrom, if_neg newline]
      simp only [List.length_append, List.length_singleton, List.append_assoc,
        List.singleton_append, List.reverse_append, List.reverse_singleton, ← Nat.add_assoc]
        at next ⊢
      refine ⟨next.1, ?_⟩
      omega

/-- A walk to the end arrives on the last line. -/
theorem enclosingFrom_length (h : '\n' ∉ line) (ne : line ++ cs ≠ []) :
    (linesFrom number start line.reverse cs).getLast? =
      some (enclosingFrom (start + line.length) number start (line ++ cs) cs.length cs) := by
  induction cs generalizing number start line with
  | nil =>
    rw [List.append_nil] at ne
    rw [List.length_nil, enclosingFrom_zero, takeWhile_line h, linesFrom,
      if_neg (fun eq => ne (List.reverse_eq_nil_iff.mp eq))]
    simp
  | cons c cs ih =>
    by_cases newline : c = '\n'
    · rw [linesFrom, if_pos newline]
      cases cs with
      | nil =>
        -- a line break at the very end starts no line
        rw [List.length_singleton, enclosingFrom, if_neg (fun both => both.2 rfl),
          enclosingFrom_zero, takeWhile_line h]
        simp [linesFrom, newline]
      | cons d cs =>
        have next := @ih (number + 1) (start + line.length + 1) [] List.not_mem_nil
          (List.cons_ne_nil d cs)
        rw [List.reverse_nil, List.nil_append, List.length_nil, Nat.add_zero] at next
        rw [List.length_cons, enclosingFrom, if_pos ⟨newline, List.cons_ne_nil d cs⟩,
          List.length_reverse, List.getLast?_cons, next]
        rfl
    · have longer : '\n' ∉ line ++ [c] := by simp [h, Ne.symm newline]
      have next := @ih number start (line ++ [c]) longer (by simp)
      rw [List.length_cons, enclosingFrom, if_neg (fun both => newline both.1), linesFrom,
        if_neg newline]
      simpa [← Nat.add_assoc] using next

end Walking

/-! ### Offsets of a file -/

section Offsets

variable {s : Source}

theorem length_lines_le (s : Source) : s.lines.length ≤ s.size := by
  have count := length_linesFrom_le 1 0 [] s.contents
  rwa [List.length_nil, Nat.zero_add] at count

theorem exists_split_of_mem_lines {l : Line} (h : l ∈ s.lines) :
    ∃ u v, s.contents = u ++ (l.chars ++ v) ∧ u.length = l.start ∧ ∀ c ∈ v.head?, c = '\n' :=
  @exists_split_of_mem_linesFrom 1 [] s.contents l [] h

theorem stop_le_of_mem_lines {l : Line} (h : l ∈ s.lines) : l.start + l.length ≤ s.size := by
  obtain ⟨u, v, split, start, -⟩ := exists_split_of_mem_lines h
  rw [size, split, List.length_append, List.length_append, start, Line.length]
  omega

/-- Characters without a line break do not go beyond the line that they start on. -/
theorem stop_le_of_newline_not_mem {l : Line} {offset n : Nat} (h : l ∈ s.lines)
    (stop : offset ≤ l.start + l.length) (inside : offset + n ≤ s.size)
    (line : '\n' ∉ (s.contents.drop offset).take n) : offset + n ≤ l.start + l.length := by
  obtain ⟨u, v, split, front, after⟩ := exists_split_of_mem_lines h
  rcases Nat.lt_or_ge (l.start + l.length) (offset + n) with beyond | within
  · -- the line break after the line would be one of the characters
    have size : s.size = l.start + l.length + v.length := by
      rw [size, split, List.length_append, List.length_append, front, Line.length, Nat.add_assoc]
    obtain ⟨c, v, rfl⟩ := List.exists_cons_of_length_pos (show 0 < v.length by omega)
    obtain rfl := after c rfl
    refine absurd ?_ line
    have lineBreak : s.contents[l.start + l.length]? = some '\n' := by
      rw [split, ← List.append_assoc, List.getElem?_append_right] <;>
        simp [front, Line.length]
    rw [List.mem_iff_getElem?]
    refine ⟨l.start + l.length - offset, ?_⟩
    rw [List.getElem?_take_of_lt (by omega), List.getElem?_drop, Nat.add_sub_cancel' stop,
      lineBreak]
  · exact within

/-- The line around a character of the file. -/
theorem lineAt_spec {offset : Nat} (inside : offset < s.size) :
    s.lineAt offset ∈ s.lines ∧ (s.lineAt offset).start ≤ offset ∧
      offset ≤ (s.lineAt offset).start + (s.lineAt offset).length := by
  have walk := @enclosingFrom_spec 1 0 [] s.contents List.not_mem_nil offset inside
  rw [List.reverse_nil, List.nil_append, List.length_nil, Nat.zero_add, Nat.zero_add] at walk
  rw [lineAt, if_pos ⟨Int.natCast_nonneg _, Int.ofNat_lt.mpr inside⟩]
  exact walk

/-- An offset outside of the file belongs to the last line. -/
theorem getLast?_lines {offset : Int} (outside : offset < 0 ∨ s.size ≤ offset)
    (ne : s.contents ≠ []) : s.lines.getLast? = some (s.lineAt offset) := by
  rw [lineAt, if_neg (by omega)]
  exact @enclosingFrom_length 1 0 [] s.contents List.not_mem_nil ne

/-- The lines of a file lie one after another. -/
theorem before_or_eq {l m : Line} (hl : l ∈ s.lines) (hm : m ∈ s.lines) :
    l.Before m ∨ l = m ∨ m.Before l := by
  have ordered := List.pairwise_iff_getElem.mp (pairwise_linesFrom 1 0 [] s.contents)
  obtain ⟨i, hi, rfl⟩ := List.getElem_of_mem hl
  obtain ⟨j, hj, rfl⟩ := List.getElem_of_mem hm
  rcases Nat.lt_trichotomy i j with lt | rfl | gt
  · exact .inl (ordered i j hi hj lt)
  · exact .inr (.inl rfl)
  · exact .inr (.inr (ordered j i hj hi gt))

/-- The line around a character of the file is the only one that the walk can arrive on. -/
theorem mem_lines_iff {offset : Nat} (inside : offset < s.size) (l : Line) :
    (l ∈ s.lines ∧ l.start ≤ offset ∧ offset ≤ l.start + l.length) ↔ l = s.lineAt offset := by
  have found := lineAt_spec inside
  constructor
  · rintro ⟨mem, start, stop⟩
    rcases before_or_eq mem found.1 with before | same | after
    · have := before.2
      omega
    · exact same
    · have := after.2
      omega
  · rintro rfl
    exact found

/-- The position of a character of the file. -/
theorem positionOf_eq {offset : Nat} (inside : offset < s.size) :
    s.positionOf offset =
      ⟨s.file, (s.lineAt offset).number, offset - (s.lineAt offset).start + 1⟩ := by
  rw [positionOf, distance_of_nonneg (by omega) (by omega), Position.mk.injEq]
  exact ⟨rfl, rfl, by omega⟩

/-- A later character is on a later line, or further on in the same line. -/
theorem positionOf_lt {offset other : Nat} (lt : offset < other) (inside : other < s.size) :
    (s.positionOf offset).line < (s.positionOf other).line ∨
      (s.positionOf offset).line = (s.positionOf other).line ∧
        (s.positionOf offset).column < (s.positionOf other).column := by
  have inside' := Nat.lt_trans lt inside
  obtain ⟨mem, start, stop⟩ := lineAt_spec inside'
  obtain ⟨mem', start', stop'⟩ := lineAt_spec inside
  rw [positionOf_eq inside, positionOf_eq inside']
  rcases before_or_eq mem mem' with before | same | after
  · exact .inl (Int.ofNat_lt.mpr before.1)
  · rw [same]
    exact .inr ⟨rfl, Int.add_lt_add_right (Int.sub_lt_sub_right (Int.ofNat_lt.mpr lt) _) 1⟩
  · have := after.2
    omega

end Offsets

/-- **Lines and positions.**  The lines of a file make up its contents and are numbered from 1.  The
walk to a character finds the only line around it, from which its position is counted, so that
positions grow with offsets; every other offset belongs to the last line. -/
theorem lines_agree (file bytes : Text) :
    let s := ofText file bytes
    (s.lines.flatMap fun l => l.text ++ [Text.newline]) = Text.ofChars s.contents ∧
    (∀ k l, s.lines[k]? = some l → l.number = k + 1 ∧ '\n' ∉ l.chars) ∧
    (∀ (offset : Nat) (span : Span), offset < s.size → span.start = offset →
      (∀ l, (l ∈ s.lines ∧ l.start ≤ offset ∧ offset ≤ l.start + l.length) ↔
        l = s.enclosingLine span) ∧
      s.positionOf offset = ⟨file, (s.enclosingLine span).number,
        offset - (s.enclosingLine span).start + 1⟩) ∧
    (∀ offset other : Nat, offset < other → other < s.size →
      (s.positionOf offset).line < (s.positionOf other).line ∨
        (s.positionOf offset).line = (s.positionOf other).line ∧
          (s.positionOf offset).column < (s.positionOf other).column) ∧
    ∀ span : Span, span.start < 0 ∨ s.size ≤ span.start →
      ∀ l ∈ s.lines.getLast?, s.enclosingLine span = l := by
  intro s
  have made := @flatMap_linesFrom 1 0 [] s.contents List.not_mem_nil (terminated_ofText file bytes)
  refine ⟨?_, fun k l h => ⟨?_, ?_⟩, fun offset span inside start => ?_,
    fun offset other lt inside => positionOf_lt lt inside, fun span outside l last => ?_⟩
  · have encoded : (s.lines.flatMap fun l => l.text ++ [Text.newline]) =
        Text.ofChars (s.lines.flatMap fun l => l.chars ++ ['\n']) := by
      rw [Text.ofChars, List.flatMap_assoc]
      refine congrArg (List.flatMap · s.lines) (funext fun l => ?_)
      rw [List.flatMap_append]
      rfl
    rw [encoded]
    exact congrArg Text.ofChars made
  · rw [number_of_getElem? h, Nat.add_comm]
  · exact newline_not_mem_linesFrom List.not_mem_nil (List.mem_of_getElem? h)
  · rw [enclosingLine, start]
    exact ⟨mem_lines_iff inside, positionOf_eq inside⟩
  · have ne : s.contents ≠ [] := fun empty => by
      rw [lines, empty] at last
      cases last
    rw [getLast?_lines outside ne] at last
    exact Option.some.inj last

/-- The line break of an empty line belongs to the line. -/
theorem lines_agree_blank :
    let s := ofText "blank" "a\n\nb"
    2 < s.size ∧ (∀ l, (l ∈ s.lines ∧ l.start ≤ 2 ∧ 2 ≤ l.start + l.length) ↔ l = ⟨2, 2, []⟩) ∧
      s.positionOf 2 = ⟨"blank", 2, 1⟩ := by
  intro s
  have inside : 2 < s.size := by decide +kernel
  have line : s.enclosingLine ⟨2, 2, Int.le_refl 2⟩ = ⟨2, 2, []⟩ := by decide +kernel
  obtain ⟨only, position⟩ := (lines_agree "blank" "a\n\nb").2.2.1 2 ⟨2, 2, Int.le_refl 2⟩ inside rfl
  rw [line] at only position
  exact ⟨inside, only, position⟩

end Source

end XtAsm
