import XtAsm.Proofs.Source.Lines
import XtAsm.Proofs.Text.Decoding

/-!
# The characters of a file

A file is taken apart at its line breaks and put together again before it is read as UTF-8.  All
that this changes is that the last line is ended too.

* `IsEnded`: the bytes end with a line break, unless there are none;
* `terminateLines_eq`: the line break that is added to bytes that are not ended;
* `ofText_append_newline`: a line break at the end of a file may be left out;
* `contents_normalised`: the characters of a file, of the file made from these characters, and of
  two files in a row.
-/

namespace XtAsm.Source

/-- There are no bytes after the last line break. -/
def IsEnded (bytes : Text) : Prop := bytes = [] ∨ bytes.getLast? = some Text.newline

instance (bytes : Text) : Decidable (IsEnded bytes) :=
  inferInstanceAs (Decidable (bytes = [] ∨ bytes.getLast? = some Text.newline))

theorem IsEnded.cases {t : Text} (h : IsEnded t) : t = [] ∨ ∃ u, t = u ++ [Text.newline] :=
  h.imp_right List.getLast?_eq_some_iff.mp

theorem not_isEnded_of_getLast? {t : Text} {b : UInt8} (last : t.getLast? = some b)
    (other : b ≠ Text.newline) : ¬ IsEnded t := by
  rintro (rfl | ended)
  · cases last
  · exact other (Option.some.inj (last.symm.trans ended))

/-- Whether bytes are ended depends on the last of them. -/
theorem isEnded_append {t u : Text} (ne : u ≠ []) : IsEnded (t ++ u) ↔ IsEnded u := by
  have last := List.getLast?_eq_some_getLast ne
  simp [IsEnded, ne, List.getLast?_append, last]

/-! ### Line breaks at the end -/

/-- A line break at the end of the bytes ends their last line, and starts no other. -/
theorem cutLines_append_newline {t : Text} (unended : ¬ IsEnded t) :
    cutLines (t ++ [Text.newline]) = cutLines t := by
  induction t with
  | nil => exact absurd (.inl rfl) unended
  | cons b t ih =>
    cases t with
    | nil =>
      have other : b ≠ Text.newline := fun same => unended (.inr (congrArg some same))
      simp [cutLines, other]
    | cons c t =>
      have tail : ¬ IsEnded (c :: t) := fun h =>
        unended ((isEnded_append (t := [b]) (List.cons_ne_nil c t)).mpr h)
      rw [List.cons_append, cutLines, cutLines, ih tail]

/-- All that is added is the line break of the last line. -/
theorem terminateLines_eq (t : Text) :
    terminateLines t = if IsEnded t then t else t ++ [Text.newline] := by
  split
  · next ended =>
    rcases ended.cases with rfl | ⟨u, rfl⟩
    · rfl
    · exact terminateLines_append_newline u
  · next unended =>
    rw [← terminateLines_append_newline, terminateLines, terminateLines,
      cutLines_append_newline unended]

/-- Ended lines are put together apart from what follows them. -/
theorem terminateLines_append {t : Text} (h : IsEnded t) (u : Text) :
    terminateLines (t ++ u) = t ++ terminateLines u := by
  by_cases none : u = []
  · rw [none, List.append_nil, terminateLines_eq, if_pos h]
    exact (List.append_nil t).symm
  · have same := isEnded_append (t := t) none
    rw [terminateLines_eq, terminateLines_eq]
    by_cases ended : IsEnded u
    · rw [if_pos ended, if_pos (same.mpr ended)]
    · rw [if_neg ended, if_neg fun h => ended (same.mp h), List.append_assoc]

/-- A file is the same without the line break at its end. -/
theorem ofText_append_newline {t : Text} (unended : ¬ IsEnded t) (file : Text) :
    ofText file (t ++ Text.ofString "\n") = ofText file t := by
  have newline : Text.ofString "\n" = [Text.newline] := rfl
  rw [ofText, ofText, terminateLines, terminateLines, newline, cutLines_append_newline unended]

/-! ### Characters -/

variable {file : Text} {bytes : Text}

theorem contents_of_isEnded (h : IsEnded bytes) :
    (ofText file bytes).contents = Text.toChars bytes := by
  rw [ofText, terminateLines_eq, if_pos h]

theorem contents_of_not_isEnded (h : ¬ IsEnded bytes) :
    (ofText file bytes).contents = Text.toChars bytes ++ ['\n'] := by
  rw [ofText, terminateLines_eq, if_neg h, Text.toChars_append_newline]
  rfl

/-- The characters of a file make up a file of their own. -/
theorem contents_ofChars_contents (file other bytes : Text) :
    (ofText other (Text.ofChars (ofText file bytes).contents)).contents =
      (ofText file bytes).contents := by
  have ended := terminated_ofText file bytes
  generalize (ofText file bytes).contents = cs at ended ⊢
  rcases List.eq_nil_or_concat cs with rfl | ⟨ds, c, rfl⟩
  · rfl
  · obtain rfl : c = '\n' := ended c (by simp)
    rw [List.concat_eq_append, contents_ofText]

/-- Ended bytes are read in the same way whatever follows them. -/
theorem contents_append (h : IsEnded bytes) (file more : Text) :
    (ofText file (bytes ++ more)).contents =
      (ofText file bytes).contents ++ (ofText file more).contents := by
  rw [contents_of_isEnded h, ofText, terminateLines_append h]
  rcases h.cases with rfl | ⟨t, rfl⟩
  · rfl
  · rw [List.append_assoc, List.singleton_append, Text.toChars_append_newline,
      Text.toChars_append_newline, List.append_assoc]
    rfl

/-- **Files are normalised.**  The characters of a file are those that its bytes stand for, where
every byte that belongs to no encoded character is replaced, and one line break more if there are
bytes after the last line break.  The characters of a file, encoded again, make up the same file;
and bytes that are ended can be read apart from those that follow them. -/
theorem contents_normalised (file bytes : Text) :
    (∃ cs, (∀ ds, Text.Decodes bytes ds ↔ ds = cs) ∧
      (ofText file bytes).contents =
        if bytes = [] ∨ bytes.getLast? = some Text.newline then cs else cs ++ ['\n']) ∧
    (∀ other, (ofText other (Text.ofChars (ofText file bytes).contents)).contents =
      (ofText file bytes).contents) ∧
    ∀ more, bytes = [] ∨ bytes.getLast? = some Text.newline →
      (ofText file (bytes ++ more)).contents =
        (ofText file bytes).contents ++ (ofText file more).contents := by
  refine ⟨⟨Text.toChars bytes, Text.decodes_iff bytes, ?_⟩,
    fun other => contents_ofChars_contents file other bytes,
    fun more ended => contents_append ended file more⟩
  split
  · next ended => exact contents_of_isEnded ended
  · next unended => exact contents_of_not_isEnded unended

/-- An encoding that a line break interrupts. -/
def interrupted : Text := [0xE2, 0x82, Text.newline]

theorem contents_normalised_interrupted :
    interrupted.getLast? = some Text.newline ∧
      (ofText "cut" (interrupted ++ [0xAC])).contents =
        ['\uFFFD', '\uFFFD', '\n', '\uFFFD', '\n'] := by
  have ended : interrupted.getLast? = some Text.newline := rfl
  exact ⟨ended, (contents_normalised "cut" interrupted).2.2 [0xAC] (.inr ended)⟩

end XtAsm.Source
