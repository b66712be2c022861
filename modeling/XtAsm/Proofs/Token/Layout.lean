import XtAsm.Proofs.Token.Lexeme

/-!
# Lexemes laid out as text

A layout is a sequence of spellings, spaces and line breaks in which no spelling runs into the next
one.  Reading it gives the lexemes back, however it is indented.

* `Layout`: characters that are a layout of given lexemes;
* `tokensFrom_append`, `tokensFrom_of_layout`: the lexemes are read back, whatever follows;
* `Prints`: texts that are a layout, with the rules by which such texts are put together;
* `spells_of_tokensFrom`: the tokens that are read are all lexemes with a spelling.
-/

namespace XtAsm.Lexer

/-- The characters are a layout of the lexemes. -/
inductive Layout : List Char → List (Kind × Text) → Prop
  | nil : Layout [] []
  | space {cs : List Char} {ls : List (Kind × Text)} (h : Layout cs ls) : Layout (' ' :: cs) ls
  | newline {cs : List Char} {ls : List (Kind × Text)} (h : Layout cs ls) : Layout ('\n' :: cs) ls
  | lexeme {l : Kind × Text} {w cs : List Char} {ls : List (Kind × Text)} (hw : Spells l w)
      (hb : Bounded l.1 cs) (h : Layout cs ls) : Layout (w ++ cs) (l :: ls)

theorem Spells.ne_nil {l : Kind × Text} {w : List Char} (h : Spells l w) : w ≠ [] := by
  cases h with
  | word w =>
    obtain ⟨c, cs, spelling, _⟩ := letters_spelling w
    simp [spelling]
  | compare r => cases r <;> simp [Relation.chars]
  | connect j => cases j <;> simp [Junction.chars]
  | _ => simp

/-- After the given characters no spelling before them goes on. -/
def Free (cs : List Char) : Prop := ∀ c ∈ cs.head?, c = ' ' ∨ c = '\n'

theorem Bounded.append {k : Kind} {cs ds : List Char} (h : Bounded k cs) (free : Free ds) :
    Bounded k (cs ++ ds) := by
  cases cs with
  | nil => exact .inr fun c hc => (free c hc).imp_right .inl
  | cons c cs => exact h

/-- A layout is read as its lexemes, and then what follows it. -/
theorem tokensFrom_append {cs ds : List Char} {ls : List (Kind × Text)} (h : Layout cs ls)
    (free : Free ds) (file : Text) (k : Cursor) :
    ∃ k' ts, ts.map Token.lexeme = ls ∧
      tokensFrom file k (cs ++ ds) = (tokensFrom file k' ds).map (ts ++ ·) := by
  induction h generalizing k with
  | nil =>
    refine ⟨k, [], rfl, ?_⟩
    rw [List.nil_append]
    cases tokensFrom file k ds <;> rfl
  | space _ ih =>
    obtain ⟨k', ts, lexemes, lexed⟩ := ih (k.advance 1)
    exact ⟨k', ts, lexemes, by simpa [tokensFrom, itemAt] using lexed⟩
  | newline _ ih =>
    obtain ⟨k', ts, lexemes, lexed⟩ := ih k.nextLine
    exact ⟨k', ts, lexemes, by simpa [tokensFrom, itemAt] using lexed⟩
  | @lexeme l w cs ls hw hb _ ih =>
    obtain ⟨c, rest, rfl⟩ := List.exists_cons_of_ne_nil hw.ne_nil
    obtain ⟨k', ts, lexemes, lexed⟩ := ih (k.advance (rest.length + 1))
    refine ⟨k', ⟨l.1, l.2, k.position file, k.span (rest.length + 1)⟩ :: ts, ?_, ?_⟩
    · simp [Token.lexeme, lexemes]
    · rw [List.append_assoc, List.cons_append, tokensFrom, itemAt_of_spells hw (hb.append free)]
      simp only [List.drop_left, lexed]
      cases tokensFrom file k' ds <;> rfl

/-- A layout is read as its lexemes. -/
theorem tokensFrom_of_layout {cs : List Char} {ls : List (Kind × Text)} (h : Layout cs ls)
    (file : Text) (k : Cursor) :
    ∃ ts, tokensFrom file k cs = .ok ts ∧ ts.map Token.lexeme = ls := by
  have free : Free [] := by simp [Free]
  obtain ⟨k', ts, lexemes, lexed⟩ := tokensFrom_append h free file k
  rw [List.append_nil, tokensFrom] at lexed
  exact ⟨ts, by simpa [Except.map] using lexed, lexemes⟩

/-- The tokens that are read are all lexemes with a spelling. -/
theorem spells_of_tokensFrom {file : Text} {k : Cursor} {cs : List Char} {ts : List Token}
    (h : tokensFrom file k cs = .ok ts) : ∀ t ∈ ts, ∃ w, Spells t.lexeme w := by
  fun_induction tokensFrom file k cs generalizing ts with
  | case1 =>
    cases h
    simp
  | case2 k c rest item ih => exact ih h
  | case3 k c rest item ih => exact ih h
  | case4 k c rest extra item ih => exact ih h
  | case5 k c rest kind text extra item token =>
    rename_i ih
    cases tail : tokensFrom file (k.advance (extra + 1)) (rest.drop extra) with
    | error e =>
      rw [tail] at h
      cases h
    | ok us =>
      rw [tail] at h
      cases h
      intro t ht
      obtain rfl | ht := List.mem_cons.1 ht
      · exact spells_of_itemAt item
      · exact ih tail t ht
  | case6 => cases h

/-! ### Putting layouts together -/

theorem Layout.append {cs ds : List Char} {ls ms : List (Kind × Text)} (h : Layout cs ls)
    (h' : Layout ds ms) (free : Free ds) : Layout (cs ++ ds) (ls ++ ms) := by
  induction h with
  | nil => exact h'
  | space _ ih => exact ih.space
  | newline _ ih => exact ih.newline
  | lexeme hw hb _ ih =>
    rw [List.append_assoc]
    exact .lexeme hw (hb.append free) ih

/-- A character outside of a class does not occur among characters of the class. -/
theorem not_mem_of_class {p : Char → Bool} {c : Char} {cs : List Char} (hc : p c = false)
    (hs : ∀ d ∈ cs, p d = true) : c ∉ cs := by
  intro h
  rw [hs c h] at hc
  cases hc

/-- No spelling contains a line break. -/
theorem Spells.newline_not_mem {l : Kind × Text} {w : List Char} (h : Spells l w) : '\n' ∉ w := by
  cases h with
  | code => decide
  | data => decide
  | query => decide
  | semicolon => decide
  | int hc hs =>
    refine List.not_mem_cons_of_ne_of_not_mem ?_ (not_mem_of_class (by decide) hs)
    rintro rfl
    exact absurd hc (by decide)
  | register _ hs | label _ hs | var _ hs =>
    exact List.not_mem_cons_of_ne_of_not_mem (by decide) (not_mem_of_class (by decide) hs)
  | name hc hs =>
    refine List.not_mem_cons_of_ne_of_not_mem ?_ (not_mem_of_class (by decide) hs)
    rintro rfl
    exact absurd hc (by decide)
  | word w => cases w <;> decide
  | compare r => cases r <;> decide
  | connect j => cases j <;> decide

theorem head?_indentChars (cs : List Char) : (Text.indentChars cs).head? = cs.head? := by
  cases cs with
  | nil => rfl
  | cons c cs =>
    by_cases hc : c = '\n'
    · subst hc
      rfl
    · rw [Text.indentChars_cons_of_ne hc]
      rfl

/-- Indenting keeps the lexemes. -/
theorem Layout.indent {cs : List Char} {ls : List (Kind × Text)} (h : Layout cs ls) :
    Layout (Text.indentChars cs) ls := by
  induction h with
  | nil => exact .nil
  | space _ ih => exact ih.space
  | newline _ ih => exact ih.space.space.newline
  | @lexeme l w cs ls hw hb _ ih =>
    rw [Text.indentChars_append, Text.indentChars_of_not_mem hw.newline_not_mem]
    -- what bounds a lexeme is its next character, and indenting keeps that
    refine .lexeme hw ?_ ih
    unfold Bounded at hb ⊢
    rwa [head?_indentChars]

/-! ### Texts -/

/-- The text is a layout of the lexemes. -/
def Prints (t : Text) (ls : List (Kind × Text)) : Prop := ∃ cs, t = Text.ofChars cs ∧ Layout cs ls

namespace Prints

variable {t u : Text} {l : Kind × Text} {ls ms : List (Kind × Text)}

theorem nil : Prints [] [] := ⟨[], rfl, .nil⟩

theorem ofSpells {w : List Char} (h : Spells l w) : Prints (Text.ofChars w) [l] :=
  ⟨w, rfl, by simpa using Layout.lexeme h (.inr (by simp)) .nil⟩

/-- Two texts with a space between them. -/
theorem spaced (h : Prints t ls) (h' : Prints u ms) :
    Prints (t ++ Text.ofString " " ++ u) (ls ++ ms) := by
  obtain ⟨cs, rfl, hc⟩ := h
  obtain ⟨ds, rfl, hd⟩ := h'
  refine ⟨cs ++ ' ' :: ds, ?_, hc.append hd.space ?_⟩
  · rw [Text.ofChars_append, List.append_assoc]
    rfl
  · intro c hc
    cases hc
    exact .inl rfl

/-- Two texts on lines of their own. -/
theorem broken (h : Prints t ls) (h' : Prints u ms) :
    Prints (t ++ Text.ofString "\n" ++ u) (ls ++ ms) := by
  obtain ⟨cs, rfl, hc⟩ := h
  obtain ⟨ds, rfl, hd⟩ := h'
  refine ⟨cs ++ '\n' :: ds, ?_, hc.append hd.newline ?_⟩
  · rw [Text.ofChars_append, List.append_assoc]
    rfl
  · intro c hc
    cases hc
    exact .inr rfl

/-- A text on an indented line of its own. -/
theorem indented (h : Prints t ls) (h' : Prints u ms) :
    Prints (t ++ (Node.indentation ++ Node.indent u)) (ls ++ ms) := by
  obtain ⟨cs, rfl, hc⟩ := h
  obtain ⟨ds, rfl, hd⟩ := h'
  refine ⟨cs ++ '\n' :: ' ' :: ' ' :: Text.indentChars ds, ?_,
    hc.append hd.indent.space.space.newline ?_⟩
  · rw [Text.ofChars_append, Text.indent_ofChars]
    rfl
  · intro c hc
    cases hc
    exact .inr rfl

/-- A reserved word and a space in front of a text. -/
theorem afterWord (h : Prints t ls) (w : Keyword) {s : Text}
    (hs : s = Text.ofString w.spelling ++ Text.ofString " ") :
    Prints (s ++ t) ((.word w, Text.ofString w.spelling) :: ls) :=
  hs ▸ (ofSpells (.word w)).spaced h

/-- A space and a reserved word after a text. -/
theorem spaceWord (h : Prints t ls) (w : Keyword) {s : Text}
    (hs : s = Text.ofString " " ++ Text.ofString w.spelling) :
    Prints (t ++ s) (ls ++ [(.word w, Text.ofString w.spelling)]) := by
  rw [hs, ← List.append_assoc]
  exact h.spaced (ofSpells (.word w))

/-- A line break and a reserved word after a text. -/
theorem breakWord (h : Prints t ls) (w : Keyword) {s : Text}
    (hs : s = Text.ofString "\n" ++ Text.ofString w.spelling) :
    Prints (t ++ s) (ls ++ [(.word w, Text.ofString w.spelling)]) := by
  rw [hs, ← List.append_assoc]
  exact h.broken (ofSpells (.word w))

/-- An operand with a semicolon right after it. -/
theorem separated {w : List Char} (hw : Spells l w) (operand : l.1.isOperand = true)
    (h : Prints u ms) :
    Prints (Text.ofChars w ++ (Text.ofString ";" ++ u)) (l :: (.semicolon, ";") :: ms) := by
  obtain ⟨ds, rfl, hd⟩ := h
  have rest := Layout.lexeme .semicolon (.inl rfl) hd
  refine ⟨w ++ ([';'] ++ ds), ?_, .lexeme hw (.inr ?_) rest⟩
  · rw [Text.ofChars_append]
    rfl
  · intro c hc
    cases hc
    exact .inr (.inr ⟨rfl, operand⟩)

end Prints

/-- The texts are layouts of the lexemes, taken together. -/
inductive PrintsAll : List Text → List (Kind × Text) → Prop
  | nil : PrintsAll [] []
  | cons {t : Text} {ts : List Text} {ls ms : List (Kind × Text)} (h : Prints t ls)
      (hs : PrintsAll ts ms) : PrintsAll (t :: ts) (ls ++ ms)

namespace PrintsAll

variable {t : Text} {us : List Text} {ls ms : List (Kind × Text)}

/-- A text followed by indented lines. -/
theorem indented (hs : PrintsAll us ms) (h : Prints t ls) :
    Prints (t ++ Node.indented us) (ls ++ ms) := by
  induction hs generalizing t ls with
  | nil => simpa [Node.indented] using h
  | cons hu _ ih =>
    have := ih (h.indented hu)
    simpa [Node.indented, List.append_assoc] using this

/-- A text followed by lines. -/
theorem onLines (hs : PrintsAll us ms) (h : Prints t ls) :
    Prints (t ++ Node.onLines us) (ls ++ ms) := by
  induction hs generalizing t ls with
  | nil => simpa [Node.onLines] using h
  | cons hu _ ih =>
    have := ih (h.broken hu)
    simpa [Node.onLines, List.append_assoc] using this

end PrintsAll

/-- A text that ends with a line break is read as the lexemes that it is a layout of. -/
theorem lex_ofText {t : Text} {ls : List (Kind × Text)} (h : Prints t ls) (file : Text) :
    ∃ ts, (Source.ofText file (t ++ Text.ofString "\n")).lex = .ok ts ∧
      ts.map Token.lexeme = ls := by
  obtain ⟨cs, rfl, layout⟩ := h
  have ended : Layout (cs ++ ['\n']) (ls ++ []) :=
    layout.append (.newline .nil) fun c hc => by
      cases hc
      exact .inr rfl
  rw [List.append_nil] at ended
  have bytes : Text.ofChars cs ++ Text.ofString "\n" = Text.ofChars (cs ++ ['\n']) := by
    rw [Text.ofChars_append]
    rfl
  rw [Source.lex, bytes, Source.contents_ofText]
  exact tokensFrom_of_layout ended _ _

/-- The span of the given length at an offset. -/
def spanAt (start length : Nat) : Span :=
  ⟨start, start + length, Int.le_add_of_nonneg_right (Int.natCast_nonneg length)⟩

/-- Faults cannot be compared, so reading is evaluated without them. -/
theorem lex_of_toOption {s : Source} {ts : List Token} (h : s.lex.toOption = some ts) :
    s.lex = .ok ts := by
  cases lexed : s.lex with
  | error e =>
    rw [lexed] at h
    cases h
  | ok us =>
    rw [lexed] at h
    exact congrArg Except.ok (Option.some.inj h)

end XtAsm.Lexer
