import XtAsm.Proofs.Text.Utf8
import XtAsm.Token.Lexer

/-!
# Lexemes

* `Scanner.Accepts`: a scanner that looks at one character only, with the class of characters it
  accepts; repeating it takes the longest run of the class (`take_run_many`);
* `Spells`: the spellings of lexemes, with their classes and texts;
* `Ends`: what follows a lexeme does not extend it;
* `itemAt_of_ends`: a spelling that nothing extends is read as its lexeme;
* `cut_of_itemAt`: nothing else is read as a lexeme.
-/

namespace XtAsm

/-! ### Scanners of one character -/

namespace Scanner

/-- The scanner accepts one character of the given class, and nothing else. -/
structure Accepts (s : Scanner) (p : Char → Bool) : Prop where
  nil : s.run [] = 0
  cons (c : Char) (rest : List Char) : s.run (c :: rest) = if p c then 1 else 0

theorem accepts_within (lowest highest : Char) :
    (within lowest highest).Accepts fun c => lowest ≤ c && c ≤ highest := by
  refine ⟨by simp [run], fun c rest => ?_⟩
  simp [run]

theorem accepts_noneOf (chars : List Char) : (noneOf chars).Accepts fun c => c ∉ chars := by
  refine ⟨by simp [run], fun c rest => ?_⟩
  by_cases h : c ∈ chars <;> simp [run, h]

theorem accepts_word (c : Char) : (word [c]).Accepts fun d => c == d := by
  refine ⟨by simp [run], fun d rest => ?_⟩
  simp [run, List.isPrefixOf]

theorem accepts_firstOf_nil : (firstOf []).Accepts fun _ => false :=
  ⟨by simp [run, runFirst], fun c rest => by simp [run, runFirst]⟩

theorem Accepts.firstOf_cons {s : Scanner} {rest : List Scanner} {p q : Char → Bool}
    (h : s.Accepts p) (h' : (firstOf rest).Accepts q) :
    (firstOf (s :: rest)).Accepts fun c => p c || q c := by
  constructor
  · have := h'.nil
    simpa [run, runFirst, h.nil] using this
  · intro c input
    have := h'.cons c input
    by_cases hp : p c
    · simp [run, runFirst, h.cons, hp]
    · simpa [run, runFirst, h.cons, hp] using this

/-- Repeating a scanner of one character takes the longest run of its class. -/
theorem Accepts.take_run_many {s : Scanner} {p : Char → Bool} (h : s.Accepts p)
    (input : List Char) : input.take ((many s).run input) = input.takeWhile p := by
  simp only [run]
  induction input with
  | nil => rfl
  | cons c rest ih =>
    by_cases hp : p c
    · simp only [repeated, h.cons, if_pos hp, List.takeWhile_cons, Nat.add_comm 1,
        List.take_succ_cons, ih]
    · simp [repeated, h.cons, hp]

end Scanner

/-- The class and the text of a token, whatever its place. -/
def Token.lexeme (t : Token) : Kind × Text := (t.kind, t.text)

/-- The characters of a comparison. -/
def Relation.chars : Relation → List Char
  | .eq => ['=', '=']
  | .ne => ['!', '=']
  | .gt => ['>']
  | .ge => ['>', '=']
  | .lt => ['<']
  | .le => ['<', '=']

/-- The characters of a connective. -/
def Junction.chars : Junction → List Char
  | .and_ => ['&', '&']
  | .or_ => ['|', '|']

namespace Lexer

/-! ### Character classes -/

/-- An ASCII letter. -/
def isLetter (c : Char) : Bool := ('a' ≤ c && c ≤ 'z') || ('A' ≤ c && c ≤ 'Z')

/-- A character that can follow the first one of an identifier. -/
def isIdentifierRest (c : Char) : Bool := isLetter c || c.isDigit || c == '_' || c == '.'

/-- A character that can follow the first digit of a number. -/
def isNumberRest (c : Char) : Bool := c.isDigit || c == '.'

/-- A character that can stand in the name of a section. -/
def isSectionRest (c : Char) : Bool := c ∉ [' ', '\t', '\r', '\n']

/-- A character that can stand in the name of a register or a label. -/
def isNameRest (c : Char) : Bool := c ∉ [' ', '\t', '\r', '\n', ';']

theorem accepts_letter : letter.Accepts isLetter := by
  have h := (Scanner.accepts_within 'a' 'z').firstOf_cons
    ((Scanner.accepts_within 'A' 'Z').firstOf_cons Scanner.accepts_firstOf_nil)
  have e : isLetter = fun c => ('a' ≤ c && c ≤ 'z') || (('A' ≤ c && c ≤ 'Z') || false) := by
    funext c
    simp [isLetter]
  exact e ▸ h

theorem accepts_digit : digit.Accepts Char.isDigit :=
  Scanner.accepts_within '0' '9'

/-- What follows the first character of an identifier. -/
theorem take_identifierRest (rest : List Char) :
    rest.take (identifierRest.run rest) = rest.takeWhile isIdentifierRest := by
  have h := accepts_letter.firstOf_cons (accepts_digit.firstOf_cons
    ((Scanner.accepts_word '_').firstOf_cons
      ((Scanner.accepts_word '.').firstOf_cons Scanner.accepts_firstOf_nil)))
  have e : isIdentifierRest =
      fun c => isLetter c || (c.isDigit || (('_' == c) || (('.' == c) || false))) := by
    funext c
    simp [isIdentifierRest, Bool.or_assoc, Bool.beq_comm]
  rw [e]
  exact h.take_run_many rest

/-- What follows the first digit of a number. -/
theorem take_numberRest (rest : List Char) :
    rest.take (numberRest.run rest) = rest.takeWhile isNumberRest := by
  have h := accepts_digit.firstOf_cons
    ((Scanner.accepts_word '.').firstOf_cons Scanner.accepts_firstOf_nil)
  have e : isNumberRest = fun c => c.isDigit || (('.' == c) || false) := by
    funext c
    simp [isNumberRest, Bool.beq_comm]
  rw [e]
  exact h.take_run_many rest

theorem take_sectionRest (rest : List Char) :
    rest.take (sectionRest.run rest) = rest.takeWhile isSectionRest :=
  (Scanner.accepts_noneOf _).take_run_many rest

theorem take_nameRest (rest : List Char) :
    rest.take (nameRest.run rest) = rest.takeWhile isNameRest :=
  (Scanner.accepts_noneOf _).take_run_many rest

/-! ### Spellings -/

/-- The spelling of a lexeme, given its class and its text. -/
inductive Spells : Kind × Text → List Char → Prop
  | code : Spells (.code, "#code") ['#', 'c', 'o', 'd', 'e']
  | data : Spells (.data, "#data") ['#', 'd', 'a', 't', 'a']
  | query : Spells (.query, "?") ['?']
  | semicolon : Spells (.semicolon, ";") [';']
  | int {c : Char} {cs : List Char} (hc : c.isDigit = true) (hs : ∀ d ∈ cs, isNumberRest d = true) :
      Spells (.int, Text.ofChars (c :: cs)) (c :: cs)
  | register {cs : List Char} (ne : cs ≠ []) (hs : ∀ d ∈ cs, isNameRest d = true) :
      Spells (.reg, Text.ofChars cs) ('$' :: cs)
  | label {cs : List Char} (ne : cs ≠ []) (hs : ∀ d ∈ cs, isNameRest d = true) :
      Spells (.label, Text.ofChars cs) (':' :: cs)
  | var {cs : List Char} (ne : cs ≠ []) (hs : ∀ d ∈ cs, isIdentifierRest d = true) :
      Spells (.var, Text.ofChars cs) ('.' :: cs)
  | name {c : Char} {cs : List Char} (hc : isLetter c = true)
      (hs : ∀ d ∈ cs, isIdentifierRest d = true) (unreserved : Keyword.ofChars? (c :: cs) = none) :
      Spells (.name, Text.ofChars (c :: cs)) (c :: cs)
  | word (w : Keyword) : Spells (.word w, w.spelling) w.spelling.toList
  | compare (r : Relation) : Spells (.compare r, Text.ofChars r.chars) r.chars
  | connect (j : Junction) : Spells (.connect j, Text.ofChars j.chars) j.chars

/-- The rest after a lexeme does not extend it: a space, a line break, or a semicolon after an
operand.  Nothing extends a semicolon. -/
def Bounded (k : Kind) (rest : List Char) : Prop :=
  k = .semicolon ∨ ∀ c ∈ rest.head?, c = ' ' ∨ c = '\n' ∨ (c = ';' ∧ k.isOperand = true)

/-- The character would extend a lexeme of the given class. -/
def extendsLexeme : Kind → Char → Bool
  | .code, c | .data, c => isSectionRest c
  | .reg, c | .label, c => isNameRest c
  | .var, c | .name, c | .word _, c => isIdentifierRest c
  | .int, c => isNumberRest c
  | .compare .lt, c | .compare .gt, c => c == '='
  | _, _ => false

/-- The rest after a lexeme of the given class does not extend it. -/
def Ends (k : Kind) (rest : List Char) : Prop := ∀ c ∈ rest.head?, extendsLexeme k c = false

/-- A run of a class that the rest does not extend. -/
theorem takeWhile_append_of_stop {p : Char → Bool} {cs rest : List Char}
    (hs : ∀ d ∈ cs, p d = true) (stop : ∀ d ∈ rest.head?, p d = false) :
    (cs ++ rest).takeWhile p = cs := by
  rw [List.takeWhile_append_of_pos hs]
  cases rest with
  | nil => simp
  | cons d rest => simp [stop d rfl]

theorem isLetter_of_isDigit {c : Char} (h : c.isDigit = true) : isLetter c = false := by
  simp only [Char.isDigit, isLetter, ge_iff_le, Bool.and_eq_true, decide_eq_true_eq,
    Bool.or_eq_false_iff, Bool.and_eq_false_iff, decide_eq_false_iff_not, Char.le_def,
    UInt32.le_iff_toNat_le] at h ⊢
  have upper : c.val.toNat ≤ 57 := h.2
  constructor
  · left
    show ¬ 97 ≤ c.val.toNat
    omega
  · left
    show ¬ 65 ≤ c.val.toNat
    omega

/-! ### Reading a lexeme -/

theorem letter_run_pos (c : Char) : 0 < letter.run [c] ↔ isLetter c = true := by
  rw [accepts_letter.cons]
  cases isLetter c <;> simp

theorem digit_run_pos (c : Char) : 0 < digit.run [c] ↔ c.isDigit = true := by
  rw [accepts_digit.cons]
  cases c.isDigit <;> simp

theorem itemAt_of_letter {c : Char} (hc : c = '.' ∨ isLetter c = true) (rest : List Char) :
    itemAt c rest = identifier c (rest.takeWhile isIdentifierRest) := by
  unfold itemAt
  split
  case h_17 => rw [if_pos (hc.imp_right (letter_run_pos c).2), take_identifierRest]
  all_goals exact absurd hc (by decide)

theorem itemAt_of_digit {c : Char} (hc : c.isDigit = true) (rest : List Char) :
    itemAt c rest = .lexeme .int (Text.ofChars (c :: rest.takeWhile isNumberRest))
      (rest.takeWhile isNumberRest).length := by
  unfold itemAt
  split
  case h_17 =>
    have notLetter : ¬ (c = '.' ∨ 0 < letter.run [c]) := by
      rw [letter_run_pos, isLetter_of_isDigit hc]
      rintro (rfl | h)
      · exact absurd hc (by decide)
      · cases h
    rw [if_neg notLetter, if_pos ((digit_run_pos c).2 hc), take_numberRest]
  all_goals exact absurd hc (by decide)

/-- Reserved words are written with letters. -/
theorem letters_spelling (w : Keyword) : ∃ c cs, w.spelling.toList = c :: cs ∧
    isLetter c = true ∧ ∀ d ∈ cs, isIdentifierRest d = true := by
  cases w <;> exact ⟨_, _, rfl, by decide, List.all_eq_true.1 (by decide)⟩

theorem Bounded.ends {k : Kind} {rest : List Char} (h : Bounded k rest) : Ends k rest := by
  intro c hc
  obtain rfl | h := h
  · rfl
  · obtain rfl | rfl | ⟨rfl, operand⟩ := h c hc
    · cases k with
      | compare r => cases r <;> rfl
      | _ => rfl
    · cases k with
      | compare r => cases r <;> rfl
      | _ => rfl
    · cases k with
      | var | reg | int => rfl
      | _ => cases operand

theorem signed_of_ne_nil {name : List Char} (ne : name ≠ []) (k : Kind) (sign : Char) :
    signed k sign name = .lexeme k (Text.ofChars name) name.length :=
  if_neg ne

/-- A spelling that nothing extends is read as its lexeme. -/
theorem itemAt_of_ends {l : Kind × Text} {c : Char} {cs rest : List Char}
    (h : Spells l (c :: cs)) (ends : Ends l.1 rest) :
    itemAt c (cs ++ rest) = .lexeme l.1 l.2 cs.length := by
  generalize hw : c :: cs = w at h
  cases h with
  | code =>
    cases hw
    have run : (['c', 'o', 'd', 'e'] ++ rest).takeWhile isSectionRest = ['c', 'o', 'd', 'e'] :=
      takeWhile_append_of_stop (List.all_eq_true.1 (by decide)) ends
    show sectionHead (List.take (sectionRest.run _) _) = _
    rw [take_sectionRest, run]
    rfl
  | data =>
    cases hw
    have run : (['d', 'a', 't', 'a'] ++ rest).takeWhile isSectionRest = ['d', 'a', 't', 'a'] :=
      takeWhile_append_of_stop (List.all_eq_true.1 (by decide)) ends
    show sectionHead (List.take (sectionRest.run _) _) = _
    rw [take_sectionRest, run]
    rfl
  | query =>
    cases hw
    rfl
  | semicolon =>
    cases hw
    rfl
  | int hc hs =>
    cases hw
    rw [itemAt_of_digit hc, takeWhile_append_of_stop hs ends]
  | register ne hs =>
    cases hw
    show signed .reg '$' (List.take (nameRest.run _) _) = _
    rw [take_nameRest, takeWhile_append_of_stop hs ends, signed_of_ne_nil ne]
  | label ne hs =>
    cases hw
    show signed .label ':' (List.take (nameRest.run _) _) = _
    rw [take_nameRest, takeWhile_append_of_stop hs ends, signed_of_ne_nil ne]
  | var ne hs =>
    cases hw
    -- no reserved word starts with a dot
    have unreserved : Keyword.ofChars? ('.' :: cs) = none := by
      simp [Keyword.ofChars?, Keyword.all, Keyword.spelling]
    rw [itemAt_of_letter (.inl rfl), takeWhile_append_of_stop hs ends]
    simp only [identifier, unreserved, if_true]
    exact signed_of_ne_nil ne .var '.'
  | name hc hs unreserved =>
    cases hw
    have ne : c ≠ '.' := by
      rintro rfl
      exact absurd hc (by decide)
    rw [itemAt_of_letter (.inr hc), takeWhile_append_of_stop hs ends]
    simp only [identifier, unreserved, if_neg ne]
  | word w =>
    obtain ⟨d, ds, spelling, hd, hs⟩ := letters_spelling w
    rw [spelling] at hw
    cases hw
    rw [itemAt_of_letter (.inr hd), takeWhile_append_of_stop hs ends]
    have reserved := Keyword.ofChars?_spelling w
    rw [spelling] at reserved
    simp only [identifier, reserved, Text.ofString, spelling]
  | compare r =>
    -- a strict comparison is not followed by `=`
    have strict (first : Char) (narrow wide : Relation)
        (stop : ∀ d ∈ rest.head?, (d == '=') = false) :
        orEqual first narrow wide rest = .lexeme (.compare narrow) (Text.ofChars [first]) 0 := by
      cases rest with
      | nil => rfl
      | cons d rest => simp [orEqual, beq_eq_false_iff_ne.1 (stop d rfl)]
    cases r with
    | gt =>
      cases hw
      exact strict '>' .gt .ge ends
    | lt =>
      cases hw
      exact strict '<' .lt .le ends
    | _ =>
      cases hw
      rfl
  | connect j =>
    cases j <;> cases hw <;> rfl

theorem itemAt_of_spells {l : Kind × Text} {c : Char} {cs rest : List Char}
    (h : Spells l (c :: cs)) (hb : Bounded l.1 rest) :
    itemAt c (cs ++ rest) = .lexeme l.1 l.2 cs.length :=
  itemAt_of_ends h hb.ends

theorem mem_takeWhile {p : Char → Bool} {c : Char} {cs : List Char} (h : c ∈ cs.takeWhile p) :
    p c = true :=
  (List.all_eq_true.1 List.all_takeWhile) c h

/-- The lexeme stands at the head of the characters: its first character, some more of them, and
then nothing that extends it. -/
def Cut (l : Kind × Text) (c : Char) (rest : List Char) (extra : Nat) : Prop :=
  ∃ cs after, rest = cs ++ after ∧ cs.length = extra ∧ Spells l (c :: cs) ∧ Ends l.1 after

/-- A lexeme that takes up a whole run of what extends it. -/
theorem cut_takeWhile {l : Kind × Text} {c : Char} {rest : List Char}
    (h : Spells l (c :: rest.takeWhile (extendsLexeme l.1))) :
    Cut l c rest (rest.takeWhile (extendsLexeme l.1)).length := by
  refine ⟨_, rest.dropWhile (extendsLexeme l.1), List.takeWhile_append_dropWhile.symm, rfl, h, ?_⟩
  intro d hd
  have := List.head?_dropWhile_not (extendsLexeme l.1) rest
  rw [hd] at this
  exact this

theorem cut_of_sectionHead {rest : List Char} {kind : Kind} {text : Text} {n : Nat}
    (h : sectionHead (rest.takeWhile isSectionRest) = .lexeme kind text n) :
    Cut (kind, text) '#' rest n := by
  unfold sectionHead at h
  split at h
  · next name =>
    cases h
    refine cut_takeWhile (l := (.code, "#code")) ?_
    show Spells _ ('#' :: rest.takeWhile isSectionRest)
    rw [name]
    exact .code
  · split at h
    · next name =>
      cases h
      refine cut_takeWhile (l := (.data, "#data")) ?_
      show Spells _ ('#' :: rest.takeWhile isSectionRest)
      rw [name]
      exact .data
    · cases h

theorem cut_of_signed {k : Kind} {sign : Char} {rest : List Char} {kind : Kind} {text : Text}
    {n : Nat} (spells : ∀ name, name ≠ [] → (∀ d ∈ name, extendsLexeme k d = true) →
      Spells (k, Text.ofChars name) (sign :: name))
    (h : signed k sign (rest.takeWhile (extendsLexeme k)) = .lexeme kind text n) :
    Cut (kind, text) sign rest n := by
  unfold signed at h
  split at h
  · cases h
  · next ne =>
    cases h
    exact cut_takeWhile (spells _ ne fun _ => mem_takeWhile)

theorem cut_of_pair {a b : Char} {k : Kind} {fault : LexFault} {rest : List Char}
    {kind : Kind} {text : Text} {n : Nat} (spells : Spells (k, Text.ofChars [a, b]) [a, b])
    (alone : ∀ d, extendsLexeme k d = false)
    (h : pair a b k fault rest = .lexeme kind text n) : Cut (kind, text) a rest n := by
  unfold pair at h
  split at h
  · next c rest =>
    split at h
    · next eq =>
      cases h
      exact ⟨[b], rest, by rw [eq]; rfl, rfl, spells, fun d _ => alone d⟩
    · cases h
  · cases h

theorem cut_of_orEqual {a : Char} {strict wide : Relation} {rest : List Char}
    {kind : Kind} {text : Text} {n : Nat} (hs : strict.chars = [a]) (hw : wide.chars = [a, '='])
    (extended : ∀ d, extendsLexeme (.compare strict) d = (d == '='))
    (alone : ∀ d, extendsLexeme (.compare wide) d = false)
    (h : orEqual a strict wide rest = .lexeme kind text n) : Cut (kind, text) a rest n := by
  have narrow := Spells.compare strict
  have equal := Spells.compare wide
  rw [hs] at narrow
  rw [hw] at equal
  unfold orEqual at h
  split at h
  · next c rest =>
    split at h
    · next eq =>
      cases h
      exact ⟨['='], rest, by rw [eq]; rfl, rfl, equal, fun d _ => alone d⟩
    · next ne =>
      cases h
      refine ⟨[], c :: rest, rfl, rfl, narrow, ?_⟩
      intro d hd
      cases hd
      rw [extended]
      exact beq_false_of_ne ne
  · cases h
    exact ⟨[], [], rfl, rfl, narrow, by simp [Ends]⟩

theorem cut_of_identifier {c : Char} {rest : List Char} {kind : Kind} {text : Text} {n : Nat}
    (hc : c = '.' ∨ isLetter c = true)
    (h : identifier c (rest.takeWhile isIdentifierRest) = .lexeme kind text n) :
    Cut (kind, text) c rest n := by
  unfold identifier at h
  split at h
  · next w found =>
    cases h
    have spelling : w.spelling.toList = c :: rest.takeWhile isIdentifierRest := by
      simpa using List.find?_some found
    have word := Spells.word w
    rw [Text.ofString, spelling] at word
    exact cut_takeWhile (l := (.word w, _)) word
  · next unreserved =>
    split at h
    · next hc =>
      -- a dot alone is a fault
      exact cut_of_signed (fun _ ne hs => hc ▸ .var ne hs) h
    · next ne =>
      cases h
      exact cut_takeWhile (l := (.name, _))
        (.name (hc.resolve_left ne) (fun _ => mem_takeWhile) unreserved)

/-- Every lexeme that is read stands there. -/
theorem cut_of_itemAt {c : Char} {rest : List Char} {kind : Kind} {text : Text} {n : Nat}
    (h : itemAt c rest = .lexeme kind text n) : Cut (kind, text) c rest n := by
  unfold itemAt at h
  split at h
  case h_1 | h_2 | h_3 | h_4 => cases h
  case h_5 =>
    rw [take_sectionRest] at h
    exact cut_of_sectionHead h
  case h_6 =>
    rw [take_nameRest] at h
    exact cut_of_signed (fun _ ne hs => .register ne hs) h
  case h_7 =>
    rw [take_nameRest] at h
    exact cut_of_signed (fun _ ne hs => .label ne hs) h
  case h_8 =>
    cases h
    exact ⟨[], rest, rfl, rfl, .query, fun _ _ => rfl⟩
  case h_9 =>
    cases h
    exact ⟨[], rest, rfl, rfl, .semicolon, fun _ _ => rfl⟩
  case h_10 => exact cut_of_pair (.compare .eq) (fun _ => rfl) h
  case h_11 => exact cut_of_pair (.compare .ne) (fun _ => rfl) h
  case h_12 => exact cut_of_pair (.connect .and_) (fun _ => rfl) h
  case h_13 => exact cut_of_pair (.connect .or_) (fun _ => rfl) h
  case h_14 => exact cut_of_orEqual rfl rfl (fun _ => rfl) (fun _ => rfl) h
  case h_15 => exact cut_of_orEqual rfl rfl (fun _ => rfl) (fun _ => rfl) h
  case h_16 =>
    unfold comment at h
    split at h <;> cases h
  case h_17 =>
    split at h
    · next hc =>
      rw [take_identifierRest] at h
      exact cut_of_identifier (hc.imp_right (letter_run_pos c).1) h
    · split at h
      · next hc =>
        rw [take_numberRest] at h
        cases h
        exact cut_takeWhile (l := (.int, _)) (.int ((digit_run_pos c).1 hc) fun _ => mem_takeWhile)
      · cases h

/-- Every lexeme that is read has a spelling. -/
theorem spells_of_itemAt {c : Char} {rest : List Char} {kind : Kind} {text : Text} {n : Nat}
    (h : itemAt c rest = .lexeme kind text n) : ∃ w, Spells (kind, text) w := by
  obtain ⟨cs, after, -, -, spells, -⟩ := cut_of_itemAt h
  exact ⟨_, spells⟩

end Lexer

end XtAsm
