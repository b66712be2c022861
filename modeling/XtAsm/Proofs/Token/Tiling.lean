import XtAsm.Proofs.Token.Layout
import XtAsm.Proofs.Token.Position

/-!
# Tilings of a source file

Reading cuts a file into lexemes and trivia, where each lexeme is the longest one of its class at
its place, and stops at the first place at which neither stands.

* `HasForm`, `Stands`: the forms of lexemes, and the longest one at a place;
* `Trivia`: blanks, line breaks and comments;
* `Tiles`: the head of a file, cut up;
* `Tiles.lex_eq`: reading goes on after the tiles in place;
* `lex_eq_ok_iff_tiles`: a file is read exactly if it can be cut up as a whole;
* `position_eq_positionOf`: tokens and faults are where the file says.
-/

namespace XtAsm.Lexer

/-! ### Forms of lexemes -/

/-- A character of one class and some more of another. -/
def Run (first more : Char → Bool) : List Char → Prop
  | [] => False
  | c :: cs => first c = true ∧ ∀ d ∈ cs, more d = true

/-- The lexemes that are listed one by one. -/
def operators : List (List Char) :=
  [['?'], [';'], ['=', '='], ['!', '='], ['<'], ['<', '='], ['>'], ['>', '='], ['&', '&'],
   ['|', '|']]

/-- The characters have the form that the lexemes of a class have.  Names share theirs with the
reserved words, and a section head may have any name. -/
def HasForm : Kind → List Char → Prop
  | .code, w | .data, w => Run (· == '#') isSectionRest w
  | .reg, w => Run (· == '$') isNameRest w ∧ 2 ≤ w.length
  | .label, w => Run (· == ':') isNameRest w ∧ 2 ≤ w.length
  | .var, w => Run (· == '.') isIdentifierRest w ∧ 2 ≤ w.length
  | .name, w | .word _, w => Run isLetter isIdentifierRest w
  | .int, w => Run Char.isDigit isNumberRest w
  | _, w => w ∈ operators

/-- The lexeme stands in front of the rest, and nothing longer there has its form. -/
structure Stands (l : Kind × Text) (w rest : List Char) : Prop where
  spells : Spells l w
  longest : ∀ v, v <+: w ++ rest → HasForm l.1 v → v.length ≤ w.length

theorem Run.concat {first more : Char → Bool} {w : List Char} {d : Char} (h : Run first more w)
    (hd : more d = true) : Run first more (w ++ [d]) := by
  cases w with
  | nil => exact h.elim
  | cons c cs =>
    refine ⟨h.1, fun e he => ?_⟩
    rcases List.mem_append.mp he with he | he
    · exact h.2 e he
    · rw [List.mem_singleton.mp he]
      exact hd

theorem Run.more_of_append {first more : Char → Bool} {w us : List Char} {d : Char}
    (h : Run first more (w ++ d :: us)) (ne : w ≠ []) : more d = true := by
  obtain ⟨c, cs, rfl⟩ := List.exists_cons_of_ne_nil ne
  exact h.2 d (by simp)

/-- A spelling has the form of its class. -/
theorem Spells.hasForm {l : Kind × Text} {w : List Char} (h : Spells l w) : HasForm l.1 w := by
  cases h with
  | code => exact ⟨rfl, List.all_eq_true.1 (by decide)⟩
  | data => exact ⟨rfl, List.all_eq_true.1 (by decide)⟩
  | query => simp [HasForm, operators]
  | semicolon => simp [HasForm, operators]
  | int hc hs => exact ⟨hc, hs⟩
  | register ne hs | label ne hs | var ne hs =>
    have := List.length_pos_iff.mpr ne
    exact ⟨⟨rfl, hs⟩, by rw [List.length_cons]; omega⟩
  | name hc hs => exact ⟨hc, hs⟩
  | word w =>
    obtain ⟨c, cs, spelling, hc, hs⟩ := letters_spelling w
    rw [spelling]
    exact ⟨hc, hs⟩
  | compare r => cases r <;> simp [HasForm, operators, Relation.chars]
  | connect j => cases j <;> simp [HasForm, operators, Junction.chars]

/-- What extends a spelling keeps its form. -/
theorem Spells.hasForm_concat {l : Kind × Text} {w : List Char} {d : Char} (h : Spells l w)
    (hd : extendsLexeme l.1 d = true) : HasForm l.1 (w ++ [d]) := by
  have form := h.hasForm
  cases h with
  | code | data | int | name | word =>
    simp only [HasForm] at form ⊢
    exact form.concat hd
  | register | label | var =>
    simp only [HasForm] at form ⊢
    refine ⟨form.1.concat hd, ?_⟩
    rw [List.length_append]
    exact Nat.le_add_right_of_le form.2
  | compare r =>
    cases r with
    | lt | gt =>
      rw [beq_iff_eq.mp hd]
      simp [HasForm, operators, Relation.chars]
    | _ => cases hd
  | _ => cases hd

/-- Nothing but what extends a spelling keeps its form. -/
theorem Spells.extends_of_hasForm {l : Kind × Text} {w us : List Char} {d : Char}
    (h : Spells l w) (form : HasForm l.1 (w ++ d :: us)) : extendsLexeme l.1 d = true := by
  have ne := h.ne_nil
  cases h with
  | code | data | int | name | word =>
    simp only [HasForm] at form
    exact form.more_of_append ne
  | register | label | var =>
    simp only [HasForm] at form
    exact form.1.more_of_append ne
  | compare r => cases r <;> simp_all [HasForm, operators, Relation.chars, extendsLexeme]
  | connect j => cases j <;> simp [HasForm, operators, Junction.chars] at form
  | _ => simp [HasForm, operators] at form

/-- A spelling is the longest one at its place exactly if nothing there extends it. -/
theorem stands_iff_ends {l : Kind × Text} {w rest : List Char} (h : Spells l w) :
    Stands l w rest ↔ Ends l.1 rest := by
  constructor
  · intro stands d hd
    obtain ⟨us, rfl⟩ : ∃ us, rest = d :: us := List.head?_eq_some_iff.mp hd
    refine Bool.eq_false_iff.mpr fun extended => ?_
    have le := stands.longest (w ++ [d]) (by simp) (h.hasForm_concat extended)
    rw [List.length_append, List.length_singleton] at le
    omega
  · intro ends
    refine ⟨h, fun v hv form => Nat.le_of_not_lt fun longer => ?_⟩
    obtain ⟨us, rfl⟩ : w <+: v :=
      List.prefix_of_prefix_length_le (List.prefix_append w rest) hv (Nat.le_of_lt longer)
    cases us with
    | nil => simp at longer
    | cons d us =>
      -- the first character after the spelling extends it
      have extended := h.extends_of_hasForm form
      obtain ⟨after, eq⟩ := (List.prefix_append_right_inj w).mp hv
      rw [ends d (by rw [← eq]; rfl)] at extended
      cases extended

/-! ### Pieces of a file -/

/-- Characters without a meaning: a blank, a line break, or a comment up to the end of its line. -/
inductive Trivia : List Char → List Char → Prop
  | blank {c : Char} (h : c ∈ [' ', '\t', '\r', '\n']) (rest : List Char) : Trivia [c] rest
  | comment {cs rest : List Char} (line : '\n' ∉ cs) (ends : ∀ c ∈ rest.head?, c = '\n') :
      Trivia ('-' :: '-' :: cs) rest

theorem Trivia.ne_nil {w rest : List Char} (h : Trivia w rest) : w ≠ [] := by
  cases h <;> simp

/-- Neither trivia nor a lexeme stands at the head of the characters. -/
def Stuck (cs : List Char) : Prop :=
  ∀ w rest, cs = w ++ rest → ¬ Trivia w rest ∧ ∀ l, ¬ Stands l w rest

theorem itemAt_of_stands {l : Kind × Text} {c : Char} {cs rest : List Char}
    (h : Stands l (c :: cs) rest) : itemAt c (cs ++ rest) = .lexeme l.1 l.2 cs.length :=
  itemAt_of_ends h.spells ((stands_iff_ends h.spells).mp h)

theorem stands_of_itemAt {c : Char} {rest : List Char} {kind : Kind} {text : Text} {n : Nat}
    (h : itemAt c rest = .lexeme kind text n) :
    ∃ cs after, rest = cs ++ after ∧ Stands (kind, text) (c :: cs) after := by
  obtain ⟨cs, after, split, -, spells, ends⟩ := cut_of_itemAt h
  exact ⟨cs, after, split, (stands_iff_ends spells).mpr ends⟩

theorem itemAt_of_blank {c : Char} (h : c ∈ [' ', '\t', '\r', '\n']) (rest : List Char) :
    itemAt c rest = if c = '\n' then .lineBreak else .blank := by
  simp only [List.mem_cons, List.not_mem_nil, or_false] at h
  rcases h with rfl | rfl | rfl | rfl <;> rfl

theorem itemAt_of_comment {cs rest : List Char} (line : '\n' ∉ cs)
    (ends : ∀ c ∈ rest.head?, c = '\n') :
    itemAt '-' ('-' :: cs ++ rest) = .comment (cs.length + 1) := by
  have run : (cs ++ rest).takeWhile (· ≠ '\n') = cs := by
    refine takeWhile_append_of_stop (fun d hd => ?_) (fun d hd => ?_)
    · refine decide_eq_true fun eq => line (eq ▸ hd)
    · rw [ends d hd]
      rfl
  show Item.comment (commentRest.run ('-' :: (cs ++ rest))) = _
  rw [commentRest, Scanner.run, List.takeWhile_cons_of_pos (by decide), run, List.length_cons]

/-- What an item that is no lexeme says about the characters it was read from.  A fault covers one
character, but that of a section head its whole name. -/
def Item.Describes (c : Char) (rest : List Char) : Item → Prop
  | .blank => c ∈ [' ', '\t', '\r']
  | .lineBreak => c = '\n'
  | .comment _ => c = '-' ∧ ∃ cs, rest = '-' :: cs
  | .lexeme _ _ _ => True
  | .fault _ extra => extra = if c = '#' then (rest.takeWhile isSectionRest).length else 0

section Describes

variable {c : Char} {rest : List Char}

theorem describes_signed (other : c ≠ '#') (k : Kind) (sign : Char) (name : List Char) :
    (signed k sign name).Describes c rest := by
  unfold signed
  split
  · exact (if_neg other).symm
  · trivial

theorem describes_pair (other : c ≠ '#') (a b : Char) (k : Kind) (fault : LexFault)
    (cs : List Char) : (pair a b k fault cs).Describes c rest := by
  unfold pair
  split
  · split
    · trivial
    · exact (if_neg other).symm
  · exact (if_neg other).symm

theorem describes_orEqual (a : Char) (strict wide : Relation) (cs : List Char) :
    (orEqual a strict wide cs).Describes c rest := by
  unfold orEqual
  split
  · split <;> trivial
  · trivial

theorem describes_identifier (other : c ≠ '#') (d : Char) (cs : List Char) :
    (identifier d cs).Describes c rest := by
  unfold identifier
  split
  · trivial
  · split
    · exact describes_signed other _ _ _
    · trivial

theorem describes_itemAt (c : Char) (rest : List Char) : (itemAt c rest).Describes c rest := by
  unfold itemAt
  split
  case h_1 | h_2 | h_3 => simp [Item.Describes]
  case h_4 => rfl
  case h_5 =>
    rw [take_sectionRest]
    unfold sectionHead
    split
    · trivial
    · split
      · trivial
      · exact (if_pos rfl).symm
  case h_6 | h_7 => exact describes_signed (by decide) _ _ _
  case h_8 | h_9 => trivial
  case h_10 | h_11 | h_12 | h_13 => exact describes_pair (by decide) _ _ _ _ _
  case h_14 | h_15 => exact describes_orEqual _ _ _ _
  case h_16 =>
    unfold comment
    split
    · exact ⟨rfl, _, rfl⟩
    · rfl
  case h_17 =>
    have other : c ≠ '#' := by assumption
    split
    · exact describes_identifier other _ _
    · split
      · trivial
      · exact (if_neg other).symm

end Describes

/-- At every character trivia or a lexeme stands, or reading finds a fault. -/
theorem piece_cases (c : Char) (rest : List Char) :
    (∃ w after, c :: rest = w ++ after ∧ Trivia w after) ∨
    (∃ l w after, c :: rest = w ++ after ∧ Stands l w after) ∨
    ∃ fault extra, itemAt c rest = .fault fault extra := by
  have described := describes_itemAt c rest
  cases item : itemAt c rest with
  | blank =>
    rw [item] at described
    exact .inl ⟨[c], rest, rfl, .blank (List.mem_append_left ['\n'] described) rest⟩
  | lineBreak =>
    rw [item] at described
    exact .inl ⟨[c], rest, rfl, .blank (by simp [show c = '\n' from described]) rest⟩
  | comment extra =>
    rw [item] at described
    obtain ⟨rfl, cs, rfl⟩ := described
    refine .inl ⟨'-' :: '-' :: cs.takeWhile (· ≠ '\n'), cs.dropWhile (· ≠ '\n'), ?_, ?_⟩
    · simp only [List.cons_append, List.takeWhile_append_dropWhile]
    · refine .comment (fun mem => ?_) (fun d hd => ?_)
      · exact absurd (mem_takeWhile mem) (by decide)
      · have stop := List.head?_dropWhile_not (· ≠ '\n') cs
        rw [hd] at stop
        simpa using stop
  | lexeme kind text extra =>
    obtain ⟨cs, after, rfl, stands⟩ := stands_of_itemAt item
    exact .inr (.inl ⟨(kind, text), c :: cs, after, rfl, stands⟩)
  | fault fault extra => exact .inr (.inr ⟨fault, extra, rfl⟩)

/-- Where reading finds a fault, neither trivia nor a lexeme stands. -/
theorem stuck_of_itemAt {c : Char} {rest : List Char} {fault : LexFault} {extra : Nat}
    (h : itemAt c rest = .fault fault extra) : Stuck (c :: rest) := by
  intro w after split
  constructor
  · intro trivia
    cases trivia with
    | blank blank =>
      cases split
      rw [itemAt_of_blank blank] at h
      split at h <;> cases h
    | comment line ends =>
      rw [List.cons_append] at split
      obtain ⟨rfl, rfl⟩ := List.cons.inj split
      rw [itemAt_of_comment line ends] at h
      cases h
  · intro l stands
    obtain ⟨d, cs, rfl⟩ := List.exists_cons_of_ne_nil stands.spells.ne_nil
    rw [List.cons_append] at split
    obtain ⟨rfl, rfl⟩ := List.cons.inj split
    rw [itemAt_of_stands stands] at h
    cases h

/-! ### Reading a piece -/

/-- Trivia is passed over. -/
theorem tokensFrom_of_trivia {w rest : List Char} (h : Trivia w rest) (file : Text) (k : Cursor) :
    tokensFrom file k (w ++ rest) = tokensFrom file (k.past w) rest := by
  cases h with
  | @blank c blank =>
    rw [List.singleton_append, tokensFrom, itemAt_of_blank blank, Cursor.past_cons, Cursor.next]
    by_cases newline : c = '\n'
    · rw [if_pos newline, if_pos newline]
      rfl
    · rw [if_neg newline, if_neg newline]
      rfl
  | @comment cs _ line ends =>
    have single : '\n' ∉ '-' :: '-' :: cs := by simp [line]
    rw [List.cons_append, tokensFrom, itemAt_of_comment line ends, Cursor.past_of_not_mem single]
    simp only [List.cons_append, List.drop_succ_cons, List.drop_left, List.length_cons]

/-- A lexeme becomes a token. -/
theorem tokensFrom_of_stands {l : Kind × Text} {w rest : List Char} (h : Stands l w rest)
    (file : Text) (k : Cursor) :
    tokensFrom file k (w ++ rest) = (tokensFrom file (k.past w) rest).map
      (⟨l.1, l.2, k.position file, k.span w.length⟩ :: ·) := by
  rw [Cursor.past_of_not_mem h.spells.newline_not_mem]
  obtain ⟨c, cs, rfl⟩ := List.exists_cons_of_ne_nil h.spells.ne_nil
  rw [List.cons_append, tokensFrom, itemAt_of_stands h]
  simp only [List.drop_left, List.length_cons]

theorem tokensFrom_of_fault {c : Char} {rest : List Char} {fault : LexFault} {extra : Nat}
    (h : itemAt c rest = .fault fault extra) (file : Text) (k : Cursor) :
    tokensFrom file k (c :: rest) = .error ⟨k, extra + 1, fault⟩ := by
  rw [tokensFrom, h]

/-! ### Tilings -/

/-- The token of a lexeme that takes up some characters from an offset on. -/
def tokenAt (s : Source) (offset : Nat) (l : Kind × Text) (length : Nat) : Token :=
  ⟨l.1, l.2, s.positionOf offset, spanAt offset length⟩

/-- The characters at the head of a file are cut into trivia and the lexemes of the tokens. -/
inductive Tiles (s : Source) : List Char → List Token → Prop
  | start : Tiles s [] []
  | trivia {before w rest : List Char} {ts : List Token} (h : Tiles s before ts)
      (split : s.contents = before ++ (w ++ rest)) (hw : Trivia w rest) : Tiles s (before ++ w) ts
  | lexeme {before w rest : List Char} {ts : List Token} {l : Kind × Text} (h : Tiles s before ts)
      (split : s.contents = before ++ (w ++ rest)) (hw : Stands l w rest) :
      Tiles s (before ++ w) (ts ++ [tokenAt s before.length l w.length])

section Tiles

variable {s : Source} {before rest : List Char} {ts : List Token}

/-- Reading gets past the tiles with their tokens, and goes on with the rest of the file. -/
theorem Tiles.lex_eq (h : Tiles s before ts) (split : s.contents = before ++ rest) :
    s.lex = (tokensFrom s.file (Cursor.start.past before) rest).map (ts ++ ·) := by
  induction h generalizing rest with
  | start =>
    rw [Source.lex, split, List.nil_append, Cursor.past_nil]
    cases tokensFrom s.file .start rest <;> rfl
  | @trivia before w after ts _ split' hw ih =>
    rw [split', List.append_assoc] at split
    obtain rfl := List.append_cancel_left (List.append_cancel_left split)
    rw [ih split', tokensFrom_of_trivia hw, Cursor.past_append]
  | @lexeme before w after ts l _ split' hw ih =>
    rw [split', List.append_assoc] at split
    obtain rfl := List.append_cancel_left (List.append_cancel_left split)
    have more : w ++ after ≠ [] := by simp [hw.spells.ne_nil]
    rw [ih split', tokensFrom_of_stands hw, Cursor.past_append, Source.position_past split' more]
    -- the span is counted like the position
    simp only [Cursor.span, Cursor.offset_past_start]
    cases tokensFrom s.file ((Cursor.start.past before).past w) after with
    | error e => rfl
    | ok us => simp [Except.map, tokenAt, spanAt]

/-- Tiles are laid up to the end of the file, or up to a fault. -/
theorem Tiles.complete_or_fault (h : Tiles s before ts) (split : s.contents = before ++ rest) :
    (∃ us, Tiles s s.contents us) ∨
    ∃ front us c after fault extra, s.contents = front ++ c :: after ∧ Tiles s front us ∧
      itemAt c after = .fault fault extra := by
  -- every piece takes at least one character off the rest
  induction size : rest.length using Nat.strongRecOn generalizing before rest ts with
  | ind n ih =>
    cases rest with
    | nil =>
      rw [List.append_nil] at split
      exact .inl ⟨ts, split ▸ h⟩
    | cons c cs =>
      rcases piece_cases c cs with ⟨w, after, eq, hw⟩ | ⟨l, w, after, eq, hw⟩ |
        ⟨fault, extra, item⟩
      · have pos := List.length_pos_iff.mpr hw.ne_nil
        rw [eq] at split size
        rw [List.length_append] at size
        exact ih after.length (by omega) (h.trivia split hw) (by rw [split, List.append_assoc]) rfl
      · have pos := List.length_pos_iff.mpr hw.spells.ne_nil
        rw [eq] at split size
        rw [List.length_append] at size
        exact ih after.length (by omega) (h.lexeme split hw) (by rw [split, List.append_assoc]) rfl
      · exact .inr ⟨before, ts, c, cs, fault, extra, split, h, item⟩

/-- The tokens of a file are those of its tiling as a whole. -/
theorem lex_eq_ok_iff (s : Source) (ts : List Token) :
    s.lex = .ok ts ↔ Tiles s s.contents ts := by
  have read : ∀ us, Tiles s s.contents us → s.lex = .ok us := by
    intro us h
    rw [h.lex_eq (List.append_nil _).symm, tokensFrom]
    simp [Except.map]
  refine ⟨fun lexed => ?_, read ts⟩
  rcases Tiles.start.complete_or_fault (List.nil_append _).symm with ⟨us, h⟩ |
    ⟨front, us, c, after, fault, extra, split, h, item⟩
  · rw [read us h] at lexed
    cases lexed
    exact h
  · rw [h.lex_eq split, tokensFrom_of_fault item] at lexed
    cases lexed

/-- A fault of a file is found at the end of a tiling that cannot go on. -/
theorem exists_fault {e : Error} (h : s.lex = .error e) :
    ∃ before us c rest extra, s.contents = before ++ c :: rest ∧ Tiles s before us ∧
      itemAt c rest = .fault e.fault extra ∧ e.cursor = Cursor.start.past before ∧
      e.length = extra + 1 := by
  rcases Tiles.start.complete_or_fault (List.nil_append _).symm with ⟨us, tiles⟩ |
    ⟨before, us, c, rest, fault, extra, split, tiles, item⟩
  · rw [(lex_eq_ok_iff s us).mpr tiles] at h
    cases h
  · rw [tiles.lex_eq split, tokensFrom_of_fault item] at h
    cases h
    exact ⟨before, us, c, rest, extra, split, tiles, item, rfl, rfl⟩

/-- Reading does not go back. -/
theorem offset_le_of_tokensFrom {file : Text} {k : Cursor} {cs : List Char} {e : Error}
    (h : tokensFrom file k cs = .error e) : k.offset ≤ e.cursor.offset := by
  fun_induction tokensFrom file k cs with
  | case1 => cases h
  | case2 k c rest item ih => exact Nat.le_of_succ_le (ih h)
  | case3 k c rest item ih => exact Nat.le_of_succ_le (ih h)
  | case4 k c rest extra item ih => exact Nat.le_trans (Nat.le_add_right _ _) (ih h)
  | case5 k c rest kind text extra item token =>
    rename_i ih
    cases tail : tokensFrom file (k.advance (extra + 1)) (rest.drop extra) with
    | error e' =>
      rw [tail] at h
      cases h
      exact Nat.le_trans (Nat.le_add_right _ _) (ih tail)
    | ok us =>
      rw [tail] at h
      cases h
  | case6 k c rest fault extra item =>
    cases h
    exact Nat.le_refl _

/-- No tiling of a file goes past its fault. -/
theorem Tiles.length_le_of_error {e : Error} (h : Tiles s before ts)
    (split : s.contents = before ++ rest) (lexed : s.lex = .error e) :
    before.length ≤ e.cursor.offset := by
  rw [h.lex_eq split] at lexed
  cases tail : tokensFrom s.file (Cursor.start.past before) rest with
  | ok us =>
    rw [tail] at lexed
    cases lexed
  | error e' =>
    rw [tail] at lexed
    cases lexed
    have le := offset_le_of_tokensFrom tail
    rwa [Cursor.offset_past_start] at le

theorem Tiles.isPrefix (h : Tiles s before ts) : before <+: s.contents := by
  cases h with
  | start => exact List.nil_prefix
  | trivia _ split _ | lexeme _ split _ =>
    rw [split, ← List.append_assoc]
    exact List.prefix_append _ _

/-! ### The tokens of a tiling -/

/-- The characters that a span covers. -/
def covered (s : Source) (span : Span) : List Char :=
  (s.contents.drop span.start.toNat).take (span.stop - span.start).toNat

/-- The class of a lexeme that starts with a sign, which its text lacks. -/
def isSigned : Kind → Bool
  | .var | .reg | .label => true
  | _ => false

/-- The token stands where its span says: the span covers its lexeme and nothing else, and its text
is the lexeme up to the sign. -/
structure Placed (s : Source) (t : Token) : Prop where
  start_nonneg : 0 ≤ t.span.start
  start_lt_stop : t.span.start < t.span.stop
  stands : Stands t.lexeme (covered s t.span) (s.contents.drop t.span.stop.toNat)
  text_eq : t.text =
    Text.ofChars (if isSigned t.kind then (covered s t.span).tail else covered s t.span)

theorem Spells.text_eq {l : Kind × Text} {w : List Char} (h : Spells l w) :
    l.2 = Text.ofChars (if isSigned l.1 then w.tail else w) := by
  cases h <;> rfl

theorem covered_spanAt {w : List Char} (split : s.contents = before ++ (w ++ rest)) :
    covered s (spanAt before.length w.length) = w := by
  have length : ((before.length : Int) + w.length - before.length).toNat = w.length := by omega
  simp only [covered, spanAt, Int.toNat_natCast, length, split, List.drop_left, List.take_left]

theorem drop_stop_spanAt {w : List Char} (split : s.contents = before ++ (w ++ rest)) :
    s.contents.drop (spanAt before.length w.length).stop.toNat = rest := by
  have stop : ((before.length : Int) + w.length).toNat = (before ++ w).length := by
    rw [List.length_append]
    omega
  simp only [spanAt, stop, split, ← List.append_assoc, List.drop_left]

theorem placed_tokenAt {l : Kind × Text} {w : List Char} (hw : Stands l w rest)
    (split : s.contents = before ++ (w ++ rest)) :
    Placed s (tokenAt s before.length l w.length) := by
  have pos := List.length_pos_iff.mpr hw.spells.ne_nil
  have text := hw.spells.text_eq
  refine ⟨Int.natCast_nonneg _, ?_, ?_, ?_⟩
  · simp only [tokenAt, spanAt]
    omega
  · simp only [tokenAt, covered_spanAt split, drop_stop_spanAt split]
    exact hw
  · simp only [tokenAt, covered_spanAt split]
    exact text

/-- All tokens of a tiling are in place, and within the tiled part of the file. -/
theorem Tiles.placed (h : Tiles s before ts) :
    ∀ t ∈ ts, Placed s t ∧ t.span.stop ≤ before.length := by
  induction h with
  | start => simp
  | trivia _ split hw ih =>
    intro t ht
    obtain ⟨placed, stop⟩ := ih t ht
    refine ⟨placed, ?_⟩
    rw [List.length_append]
    omega
  | lexeme _ split hw ih =>
    intro t ht
    rw [List.length_append]
    rcases List.mem_append.mp ht with ht | ht
    · obtain ⟨placed, stop⟩ := ih t ht
      exact ⟨placed, by omega⟩
    · rw [List.mem_singleton.mp ht]
      exact ⟨placed_tokenAt hw split, Int.le_refl _⟩

/-- Every token of a tiling ends before the next one starts. -/
theorem Tiles.separated (h : Tiles s before ts) :
    ts.Pairwise fun t u => t.span.stop ≤ u.span.start := by
  induction h with
  | start => exact .nil
  | trivia _ _ _ ih => exact ih
  | lexeme h split hw ih =>
    refine List.pairwise_append.mpr ⟨ih, List.pairwise_singleton _ _, fun t ht u hu => ?_⟩
    rw [List.mem_singleton.mp hu]
    exact (h.placed t ht).2

/-- The position of every token of a tiling is that of its first character. -/
theorem Tiles.position_eq (h : Tiles s before ts) :
    ∀ t ∈ ts, t.position = s.positionOf t.span.start := by
  induction h with
  | start => simp
  | trivia _ _ _ ih => exact ih
  | lexeme _ _ _ ih =>
    intro t ht
    rcases List.mem_append.mp ht with ht | ht
    · exact ih t ht
    · rw [List.mem_singleton.mp ht]
      rfl

end Tiles

/-- Reading cuts a file into the longest lexemes and trivia, or stops at the first place at which
neither of them stands. -/
theorem lex_eq_ok_iff_tiles (s : Source) :
    (∀ ts, s.lex = .ok ts ↔ Tiles s s.contents ts) ∧
    (∀ ts, s.lex = .ok ts → (∀ t ∈ ts, Placed s t) ∧
      ts.Pairwise fun t u => t.span.stop ≤ u.span.start) ∧
    ∀ e, s.lex = .error e → ∃ before us c rest, s.contents = before ++ c :: rest ∧
      Tiles s before us ∧ Stuck (c :: rest) ∧
      (∀ other vs, Tiles s other vs → other <+: before) ∧
      (e.syntaxError s.file).position = s.positionOf before.length ∧
      (e.syntaxError s.file).length =
        if c = '#' then (rest.takeWhile isSectionRest).length + 1 else 1 := by
  refine ⟨lex_eq_ok_iff s, fun ts lexed => ?_, fun e lexed => ?_⟩
  · have tiles := (lex_eq_ok_iff s ts).mp lexed
    exact ⟨fun t ht => (tiles.placed t ht).1, tiles.separated⟩
  · obtain ⟨before, us, c, rest, extra, split, tiles, item, cursor, length⟩ := exists_fault lexed
    have described := describes_itemAt c rest
    rw [item] at described
    refine ⟨before, us, c, rest, split, tiles, stuck_of_itemAt item, fun other vs h => ?_, ?_, ?_⟩
    · obtain ⟨after, eq⟩ := h.isPrefix
      have le := h.length_le_of_error eq.symm lexed
      rw [cursor, Cursor.offset_past_start] at le
      exact List.prefix_of_prefix_length_le h.isPrefix tiles.isPrefix le
    · rw [Error.syntaxError, cursor]
      exact Source.position_past split (List.cons_ne_nil c rest)
    · simp only [Error.syntaxError, length]
      rw [show extra = _ from described]
      split <;> rfl

/-- A section head with a misspelt name, after three lexemes. -/
def misspelt : Source := ⟨"misspelt", ".x<=1\n #cod\n".toList⟩

theorem lex_eq_ok_iff_tiles_misspelt :
    ∃ e, misspelt.lex = .error e ∧ ∃ before us c rest, misspelt.contents = before ++ c :: rest ∧
      Tiles misspelt before us ∧ Stuck (c :: rest) := by
  cases lexed : misspelt.lex with
  | ok ts =>
    have unread : misspelt.lex.toOption = none := by decide +kernel
    rw [lexed] at unread
    cases unread
  | error e =>
    obtain ⟨before, us, c, rest, split, tiles, stuck, -⟩ :=
      (lex_eq_ok_iff_tiles misspelt).2.2 e lexed
    exact ⟨e, rfl, before, us, c, rest, split, tiles, stuck⟩

/-- Tokens and faults stand at the positions that the file gives for their first characters. -/
theorem position_eq_positionOf (s : Source) :
    (∀ ts, s.lex = .ok ts → ∀ t ∈ ts, t.position = s.positionOf t.span.start) ∧
    ∀ e, s.lex = .error e → ∃ before us c rest extra, s.contents = before ++ c :: rest ∧
      Tiles s before us ∧ itemAt c rest = .fault e.fault extra ∧
      (e.syntaxError s.file).position = s.positionOf before.length := by
  refine ⟨fun ts lexed => ((lex_eq_ok_iff s ts).mp lexed).position_eq, fun e lexed => ?_⟩
  obtain ⟨before, us, c, rest, extra, split, tiles, item, cursor, -⟩ := exists_fault lexed
  refine ⟨before, us, c, rest, extra, split, tiles, item, ?_⟩
  rw [Error.syntaxError, cursor]
  exact Source.position_past split (List.cons_ne_nil c rest)

/-- A file of two lines with one token. -/
def query : Source := ⟨"query", "-- ?\n\t?".toList⟩

theorem position_eq_positionOf_query :
    query.lex = .ok [⟨.query, "?", ⟨"query", 2, 2⟩, spanAt 6 1⟩] ∧
    (⟨"query", 2, 2⟩ : Position) = query.positionOf 6 := by
  have lexed : query.lex = .ok [⟨.query, "?", ⟨"query", 2, 2⟩, spanAt 6 1⟩] :=
    lex_of_toOption (by decide +kernel)
  exact ⟨lexed, (position_eq_positionOf query).1 _ lexed _ (List.mem_singleton_self _)⟩

end XtAsm.Lexer
