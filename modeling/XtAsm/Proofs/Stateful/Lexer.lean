import XtAsm.Proofs.Stateful.Action
import XtAsm.Proofs.Token.Layout

/-!
# A lexer with registers

A lexer that is used for one file after another keeps its place in the characters of the file at
hand.  Every access to the characters has a precondition on that place.  Every turn reads a
character, so a bound above the number of characters is enough for all of them.

* `Registers`, `next`, `lex`: the lexer;
* `Finds`, `comes_tokensFrom`: the token, defect or end that comes next;
* `exists_runs_lex`: whatever is left in the registers from before, it comes to an end, meets all
  preconditions, and reads what `Source.lex` reads.
-/

namespace XtAsm.Lexer

/-- The file at hand, the place of the next character, and the place at which the lexeme at hand
starts, with its line and column. -/
structure Registers where
  file : Text
  chars : List Char
  cursor : Nat
  lexemeStart : Nat
  line : Int
  column : Int

/-- The registers before the first character of a file. -/
def Registers.initial (s : Source) : Registers := ⟨s.file, s.contents, 0, 0, 1, 1⟩

/-! ### Characters -/

/-- The next character, if there is one. -/
def peek : Action Registers (Option Char) := do
  let l ← get
  if l.cursor < l.chars.length then
    let c ← element l.chars l.cursor
    return some c
  else return none

/-- The next character, if there is one, which then belongs to the lexeme. -/
def advance : Action Registers (Option Char) := do
  let l ← get
  if l.chars.length ≤ l.cursor then return none
  else
    let c ← element l.chars l.cursor
    set { l with cursor := l.cursor + 1 }
    return some c

/-- As many characters as a scanner accepts, which then belong to the lexeme. -/
def scan (scanner : Scanner) : Action Registers Unit := do
  let l ← get
  let ahead ← slice l.chars l.cursor l.chars.length
  set { l with cursor := l.cursor + scanner.run ahead }

/-- The characters of the lexeme. -/
def lexemeChars : Action Registers (List Char) := do
  let l ← get
  slice l.chars l.lexemeStart l.cursor

/-- The text of the lexeme. -/
def lexemeText : Action Registers Text := do
  return Text.ofChars (← lexemeChars)

/-- The last character is dropped. -/
def skip : Action Registers Unit :=
  modify fun l => { l with lexemeStart := l.lexemeStart + 1, column := l.column + 1 }

/-- The whole lexeme is dropped. -/
def skipLexeme : Action Registers Unit :=
  modify fun l =>
    { l with lexemeStart := l.cursor, column := l.column + ((l.cursor : Int) - l.lexemeStart) }

/-- A new line starts. -/
def newLine : Action Registers Unit := modify fun l => { l with line := l.line + 1, column := 1 }

/-! ### Lexemes -/

/-- What a turn comes to: a token, or the defect of the lexeme. -/
abbrev Verdict := Except SyntaxError Token

/-- A defect of the lexeme. -/
def defect (message : Text) : Action Registers Verdict := do
  let l ← get
  return .error ⟨⟨l.file, l.line, l.column⟩, (l.cursor : Int) - l.lexemeStart, message⟩

/-- A token with the given text in the place of the lexeme. -/
def tokenWith (kind : Kind) (text : Text) : Action Registers Verdict := do
  let l ← get
  let span ← Span.ofBounds l.lexemeStart l.cursor
  skipLexeme
  return .ok ⟨kind, text, ⟨l.file, l.line, l.column⟩, span⟩

/-- A token with the text of the lexeme. -/
def token (kind : Kind) : Action Registers Verdict := do
  tokenWith kind (← lexemeText)

/-- A token without the first byte of the lexeme, after which there has to be a name. -/
def stripped (kind : Kind) : Action Registers Verdict := do
  let text ← lexemeText
  if text.length = 1 then defect ("missing name after " ++ Text.apostrophes text)
  else tokenWith kind (← slice text 1 text.length)

/-- The head of a section. -/
def sectionToken : Action Registers Verdict := do
  scan sectionRest
  let text ← lexemeText
  if text = "#code" then token .code
  else if text = "#data" then token .data
  else defect ("unknown section " ++ Text.apostrophes (← slice text 1 text.length))

/-- A reserved word, a variable or a name. -/
def identifierToken : Action Registers Verdict := do
  let chars ← lexemeChars
  match Keyword.ofChars? chars with
  | some w => token (.word w)
  | none =>
    let text ← lexemeText
    if (← element text 0) = 46 then stripped .var else token .name

/-- An operator whose second character is compulsory. -/
def pairToken (second : Char) (kind : Kind) (message : Text) : Action Registers Verdict := do
  if (← peek) = some second then
    let _ ← advance
    token kind
  else defect message

/-- An operator that an equals sign extends. -/
def orEqualToken (strict wide : Relation) : Action Registers Verdict := do
  if (← peek) = some '=' then
    let _ ← advance
    token (.compare wide)
  else token (.compare strict)

/-- An identifier or a number, given its first character. -/
def otherToken (c : Char) : Action Registers Verdict :=
  if c = '.' ∨ 0 < letter.run [c] then do
    scan identifierRest
    identifierToken
  else if 0 < digit.run [c] then do
    scan numberRest
    token .int
  else defect ("unknown character " ++ Text.apostrophes (Text.ofChars [c]))

/-- A comment, with the line break that ends it. -/
def skipComment : Action Registers Unit := do
  scan commentRest
  skipLexeme
  if (← advance).isSome then
    skip
    newLine

/-! ### Reading -/

/-- What the first character of a lexeme leads to: nothing if it is skipped. -/
def turn (c : Char) : Action Registers (Option Verdict) :=
  match c with
  | ' ' | '\t' | '\r' => do
    skip
    return none
  | '\n' => do
    skip
    newLine
    return none
  | '#' => some <$> sectionToken
  | '$' => some <$> do
    scan nameRest
    stripped .reg
  | ':' => some <$> do
    scan nameRest
    stripped .label
  | '?' => some <$> token .query
  | ';' => some <$> token .semicolon
  | '=' => some <$> pairToken '=' (.compare .eq) "unterminated boolean equals"
  | '!' => some <$> pairToken '=' (.compare .ne) "unterminated boolean not-equals"
  | '&' => some <$> pairToken '&' (.connect .and_) "unterminated boolean and"
  | '|' => some <$> pairToken '|' (.connect .or_) "unterminated boolean or"
  | '<' => some <$> orEqualToken .lt .le
  | '>' => some <$> orEqualToken .gt .ge
  | '-' => do
    if (← peek) = some '-' then
      skipComment
      return none
    else some <$> defect "unterminated comment prefix"
  | _ => some <$> otherToken c

/-- The next token or defect; nothing at the end of the characters. -/
def next : Nat → Action Registers (Option Verdict)
  | 0 => exhausted
  | n + 1 => do
    if (← peek).isNone then return none
    else
      let c ← present (← advance)
      let verdict? ← turn c
      if verdict?.isSome then return verdict? else next n

/-- All further tokens after the given ones, up to the first defect. -/
def collect : Nat → List Token → Action Registers (Except SyntaxError (List Token))
  | 0, _ => exhausted
  | n + 1, tokens => do
    let verdict? ← next (n + 1)
    if verdict?.isNone then return .ok tokens
    else
      match ← present verdict? with
      | .error e => return .error e
      | .ok token => collect n (tokens ++ [token])

/-- The tokens of a file.  Nothing of what the registers held before is used. -/
def lex (s : Source) : Action Registers (Except SyntaxError (List Token)) := do
  set (Registers.initial s)
  collect (s.contents.length + 1) []

/-! ### Places -/

/-- A place between the characters of a file: those before it, and its cursor. -/
structure Place where
  file : Text
  before : List Char
  cursor : Cursor
  offset_eq : cursor.offset = before.length

namespace Place

/-- The first place of a file. -/
def start (file : Text) : Place := ⟨file, [], .start, rfl⟩

/-- The place after some characters of the same line. -/
def advance (p : Place) (w : List Char) : Place :=
  ⟨p.file, p.before ++ w, p.cursor.advance w.length, by simp [Cursor.advance, p.offset_eq]⟩

/-- The place after a line break. -/
def nextLine (p : Place) : Place :=
  ⟨p.file, p.before ++ ['\n'], p.cursor.nextLine, by simp [Cursor.nextLine, p.offset_eq]⟩

/-- The registers of a lexer that has read the lexeme `w` from a place on, with `rest` to come. -/
def holding (p : Place) (w rest : List Char) : Registers :=
  ⟨p.file, p.before ++ (w ++ rest), p.cursor.offset + w.length, p.cursor.offset, p.cursor.line,
    p.cursor.column⟩

end Place

/-- The lexeme that a place holds, as a token. -/
def Place.token (p : Place) (kind : Kind) (text : Text) (length : Nat) : Token :=
  ⟨kind, text, p.cursor.position p.file, p.cursor.span length⟩

/-- A defect of the lexeme that a place holds. -/
def Place.defect (p : Place) (length : Nat) (message : Text) : SyntaxError :=
  ⟨p.cursor.position p.file, length, message⟩

section Characters

variable (p : Place) (w rest : List Char)

/-- The next character is the first of those to come. -/
theorem element_cursor (c : Char) :
    element (p.holding w (c :: rest)).chars (p.holding w (c :: rest)).cursor = .ok c := by
  have next := element_append (p.before ++ w) rest c rfl
  simpa [Place.holding, p.offset_eq] using next

theorem runs_peek : Runs peek (p.holding w rest) rest.head? (p.holding w rest) := by
  refine (runs_get _).bind ?_
  cases rest with
  | nil =>
    rw [if_neg (by simp [Place.holding, p.offset_eq])]
    exact runs_pure _ _
  | cons c rest =>
    rw [if_pos (by simp [Place.holding, p.offset_eq])]
    exact (runs_lift (element_cursor p w rest c) _).bind (runs_pure _ _)

theorem runs_advance_nil : Runs advance (p.holding w []) none (p.holding w []) := by
  refine (runs_get _).bind ?_
  rw [if_pos (by simp [Place.holding, p.offset_eq])]
  exact runs_pure _ _

theorem runs_advance_cons (c : Char) :
    Runs advance (p.holding w (c :: rest)) (some c) (p.holding (w ++ [c]) rest) := by
  refine (runs_get _).bind ?_
  rw [if_neg (by simp [Place.holding, p.offset_eq])]
  exact (runs_lift (element_cursor p w rest c) _).bind
    ((runs_set (by simp [Place.holding, Nat.add_assoc]) _).bind (runs_pure _ _))

theorem runs_scan (scanner : Scanner) :
    Runs (scan scanner) (p.holding w rest) ⟨⟩
      (p.holding (w ++ rest.take (scanner.run rest)) (rest.drop (scanner.run rest))) := by
  have ahead : slice (p.holding w rest).chars (p.holding w rest).cursor
      (p.holding w rest).chars.length = .ok rest := by
    have coming := slice_rest (p.before ++ w) rest rfl
    simpa [Place.holding, p.offset_eq, Int.add_assoc] using coming
  have within : (rest.take (scanner.run rest)).length = scanner.run rest :=
    List.length_take_of_le (scanner.run_le_length rest)
  exact (runs_get _).bind ((runs_lift ahead _).bind
    (runs_set (by simp [Place.holding, within, Nat.add_assoc]) _))

theorem runs_lexemeChars : Runs lexemeChars (p.holding w rest) w (p.holding w rest) := by
  have lexeme : slice (p.holding w rest).chars (p.holding w rest).lexemeStart
      (p.holding w rest).cursor = .ok w :=
    slice_append p.before w rest (congrArg _ p.offset_eq) (by simp [Place.holding, p.offset_eq])
  exact (runs_get _).bind (runs_lift lexeme _)

theorem runs_lexemeText :
    Runs lexemeText (p.holding w rest) (Text.ofChars w) (p.holding w rest) :=
  (runs_lexemeChars p w rest).bind (runs_pure _ _)

theorem length_lexeme :
    ((p.holding w rest).cursor : Int) - (p.holding w rest).lexemeStart = w.length := by
  simp only [Place.holding]
  omega

theorem runs_skipLexeme :
    Runs skipLexeme (p.holding w rest) ⟨⟩ ((p.advance w).holding [] rest) := by
  refine runs_modify ?_
  rw [length_lexeme]
  simp [Place.holding, Place.advance, Cursor.advance]

theorem runs_skip (c : Char) :
    Runs skip (p.holding [c] rest) ⟨⟩ ((p.advance [c]).holding [] rest) :=
  runs_modify (by simp [Place.holding, Place.advance, Cursor.advance])

/-- A line break that has been skipped starts a line. -/
theorem runs_newLine :
    Runs newLine ((p.advance ['\n']).holding [] rest) ⟨⟩ (p.nextLine.holding [] rest) :=
  runs_modify (by
    simp [Place.holding, Place.advance, Place.nextLine, Cursor.advance, Cursor.nextLine])

end Characters

section Lexemes

variable (p : Place) (w rest : List Char) (kind : Kind)

theorem runs_defect (message : Text) :
    Runs (defect message) (p.holding w rest) (.error (p.defect w.length message))
      (p.holding w rest) := by
  refine (runs_get _).bind ?_
  rw [length_lexeme]
  exact runs_pure _ _

theorem runs_tokenWith (text : Text) :
    Runs (tokenWith kind text) (p.holding w rest) (.ok (p.token kind text w.length))
      ((p.advance w).holding [] rest) := by
  have ordered : Span.ofBounds (p.holding w rest).lexemeStart (p.holding w rest).cursor =
      .ok (p.cursor.span w.length) :=
    dif_pos (Int.ofNat_le.2 (Nat.le_add_right p.cursor.offset w.length))
  exact (runs_get _).bind ((runs_lift ordered _).bind
    ((runs_skipLexeme p w rest).bind (runs_pure _ _)))

end Lexemes

/-! ### Items -/

/-- The action settles the lexeme that starts with a character as an item says: it yields the token
and moves past it, or it yields the defect. -/
def Settles (p : Place) (c : Char) (rest : List Char) (x : Action Registers Verdict)
    (s : Registers) : Item → Prop
  | .lexeme kind text extra =>
    Runs x s (.ok (p.token kind text (extra + 1)))
      ((p.advance (c :: rest.take extra)).holding [] (rest.drop extra))
  | .fault fault extra => ∃ s', Runs x s (.error (p.defect (extra + 1) fault.message)) s'
  | _ => False

section Settles

variable (p : Place) (c : Char) (rest name tail : List Char) (kind : Kind)

/-- What an action does after some others. -/
theorem Settles.after {α : Type} {a : α} {x : Action Registers α}
    {f : α → Action Registers Verdict} {s s' : Registers} {item : Item} {p : Place} {c : Char}
    {rest : List Char} (hx : Runs x s a s') (hf : Settles p c rest (f a) s' item) :
    Settles p c rest (x >>= f) s item := by
  cases item with
  | lexeme kind text extra => exact hx.bind hf
  | fault fault extra =>
    obtain ⟨s'', hf⟩ := hf
    exact ⟨s'', hx.bind hf⟩
  | _ => exact hf

theorem settles_tokenWith (text : Text) :
    Settles p c (name ++ tail) (tokenWith kind text) (p.holding (c :: name) tail)
      (.lexeme kind text name.length) := by
  simpa [Settles] using runs_tokenWith p (c :: name) tail kind text

theorem settles_token :
    Settles p c (name ++ tail) (token kind) (p.holding (c :: name) tail)
      (.lexeme kind (Text.ofChars (c :: name)) name.length) :=
  Settles.after (runs_lexemeText p (c :: name) tail) (settles_tokenWith p c name tail kind _)

theorem settles_defect {message : Text} {fault : LexFault} (h : message = fault.message) :
    Settles p c (name ++ tail) (defect message) (p.holding (c :: name) tail)
      (.fault fault name.length) := by
  subst h
  exact ⟨_, runs_defect p (c :: name) tail fault.message⟩

theorem settles_stripped {c : Char} (ascii : c.toNat < 0x80) :
    Settles p c (name ++ tail) (stripped kind) (p.holding (c :: name) tail)
      (signed kind c name) := by
  have first := Text.utf8EncodeChar_of_lt ascii
  refine Settles.after (runs_lexemeText p (c :: name) tail) ?_
  rw [Text.ofChars_cons, first, signed, List.singleton_append]
  by_cases empty : name = []
  · subst empty
    rw [if_pos rfl, if_pos (show (UInt8.ofNat c.toNat :: Text.ofChars []).length = 1 from rfl)]
    refine settles_defect p c [] tail ?_
    rw [LexFault.message, Text.ofChars_cons, first]
    rfl
  · have more : Text.ofChars name ≠ [] := fun h => empty (Text.ofChars_injective h)
    rw [if_neg (by simpa using more), if_neg empty]
    exact Settles.after (runs_lift (slice_cons _ _) _) (settles_tokenWith p c name tail kind _)

/-- A section head, with the scan for its name. -/
theorem settles_sectionToken :
    Settles p '#' rest sectionToken (p.holding ['#'] rest)
      (sectionHead (rest.take (sectionRest.run rest))) := by
  have cut := List.take_append_drop (sectionRest.run rest) rest
  have scanned := runs_scan p ['#'] rest sectionRest
  refine Settles.after scanned ?_
  generalize rest.take (sectionRest.run rest) = name at cut ⊢
  generalize rest.drop (sectionRest.run rest) = tail at cut ⊢
  subst cut
  refine Settles.after (runs_lexemeText p ('#' :: name) tail) ?_
  unfold sectionHead
  by_cases code : name = "code".toList
  · subst code
    exact settles_token p '#' "code".toList tail .code
  by_cases data : name = "data".toList
  · subst data
    exact settles_token p '#' "data".toList tail .data
  have notCode : Text.ofChars ('#' :: name) ≠ "#code" := fun h =>
    code (List.cons.inj (Text.ofChars_injective h)).2
  have notData : Text.ofChars ('#' :: name) ≠ "#data" := fun h =>
    data (List.cons.inj (Text.ofChars_injective h)).2
  rw [if_neg code, if_neg data, if_neg notCode, if_neg notData]
  exact Settles.after (runs_lift (slice_cons _ (Text.ofChars name)) _)
    (settles_defect p '#' name tail rfl)

theorem toNat_lt_of_isLetter {c : Char} (h : isLetter c = true) : c.toNat < 0x80 := by
  have toNat_val : c.val.toNat = c.toNat := rfl
  simp only [isLetter, Bool.or_eq_true, Bool.and_eq_true, decide_eq_true_eq, Char.le_def,
    UInt32.le_iff_toNat_le] at h
  have bounds : 'z'.val.toNat = 122 ∧ 'Z'.val.toNat = 90 := by decide
  omega

theorem ofNat_eq_dot_iff {c : Char} (ascii : c.toNat < 0x80) :
    UInt8.ofNat c.toNat = 46 ↔ c = '.' := by
  constructor
  · intro h
    have byte : (UInt8.ofNat c.toNat).toNat = 46 := congrArg UInt8.toNat h
    rw [UInt8.toNat_ofNat_of_lt' (Nat.lt_trans ascii (by decide))] at byte
    exact Char.toNat_inj.1 byte
  · rintro rfl
    rfl

theorem settles_identifierToken {c : Char} (ascii : c.toNat < 0x80) :
    Settles p c (name ++ tail) identifierToken (p.holding (c :: name) tail)
      (identifier c name) := by
  have head : element (Text.ofChars (c :: name)) 0 = .ok (UInt8.ofNat c.toNat) := by
    rw [Text.ofChars_cons, Text.utf8EncodeChar_of_lt ascii]
    rfl
  refine Settles.after (runs_lexemeChars p (c :: name) tail) ?_
  unfold identifier
  cases Keyword.ofChars? (c :: name) with
  | some w => exact settles_token p c name tail (.word w)
  | none =>
    refine Settles.after (runs_lexemeText p (c :: name) tail)
      (Settles.after (runs_lift head _) ?_)
    simp only [ofNat_eq_dot_iff ascii]
    split
    · exact settles_stripped p name tail .var ascii
    · exact settles_token p c name tail .name

theorem settles_pairToken {second : Char} {message : Text} {fault : LexFault}
    (h : message = fault.message) :
    Settles p c rest (pairToken second kind message) (p.holding [c] rest)
      (pair c second kind fault rest) := by
  refine Settles.after (runs_peek p [c] rest) ?_
  cases rest with
  | nil =>
    rw [if_neg (by simp)]
    exact settles_defect p c [] [] h
  | cons d rest =>
    rw [pair]
    by_cases hd : d = second
    · subst hd
      rw [if_pos rfl, if_pos List.head?_cons]
      exact Settles.after (runs_advance_cons p [c] rest d) (settles_token p c [d] rest kind)
    · rw [if_neg (by simpa using hd), if_neg hd]
      exact settles_defect p c [] (d :: rest) h

theorem settles_orEqualToken (strict wide : Relation) :
    Settles p c rest (orEqualToken strict wide) (p.holding [c] rest)
      (orEqual c strict wide rest) := by
  refine Settles.after (runs_peek p [c] rest) ?_
  cases rest with
  | nil =>
    rw [if_neg (by simp)]
    exact settles_token p c [] [] (.compare strict)
  | cons d rest =>
    rw [orEqual]
    by_cases hd : d = '='
    · subst hd
      rw [if_pos rfl, if_pos List.head?_cons]
      exact Settles.after (runs_advance_cons p [c] rest '=')
        (settles_token p c ['='] rest (.compare wide))
    · rw [if_neg (by simpa using hd), if_neg hd]
      exact settles_token p c [] (d :: rest) (.compare strict)

end Settles

/-! ### What comes next -/

/-- From a place on, the lexer comes to a token, a defect or the end, under any bound above the
number of characters to come. -/
def Finds (p : Place) (cs : List Char) (v? : Option Verdict) (s' : Registers) : Prop :=
  ∀ n, cs.length < n → Runs (next n) (p.holding [] cs) v? s'

/-- What an item means for a lexer that is about to read it: it finds what it would find after the
item, or it finds the token or the defect. -/
def Follows (p : Place) (c : Char) (rest : List Char) : Item → Prop
  | .blank => ∀ v? s', Finds (p.advance [c]) rest v? s' → Finds p (c :: rest) v? s'
  | .lineBreak => ∀ v? s', Finds p.nextLine rest v? s' → Finds p (c :: rest) v? s'
  | .comment extra =>
    extra ≤ rest.length ∧ ∀ v? s',
      Finds (p.advance (c :: rest.take extra)) (rest.drop extra) v? s' → Finds p (c :: rest) v? s'
  | .lexeme kind text extra =>
    Finds p (c :: rest) (some (.ok (p.token kind text (extra + 1))))
      ((p.advance (c :: rest.take extra)).holding [] (rest.drop extra))
  | .fault fault extra =>
    ∃ s', Finds p (c :: rest) (some (.error (p.defect (extra + 1) fault.message))) s'

section Reading

variable (p : Place) (c : Char) (rest : List Char)

theorem finds_nil : Finds p [] none (p.holding [] []) := by
  intro n short
  cases n with
  | zero => cases short
  | succ n =>
    rw [next]
    exact (runs_peek p [] []).bind (runs_pure _ _)

/-- Before a character, the lexer takes the turn that the character leads to. -/
theorem next_cons {v? : Option Verdict} {s' : Registers}
    (h : Runs (turn c) (p.holding [c] rest) v? s') (n : Nat) :
    next (n + 1) (p.holding [] (c :: rest)) = (if v?.isSome then pure v? else next n) s' := by
  have taken : Runs (liftM (present (some c)) : Action Registers Char) (p.holding [c] rest) c
      (p.holding [c] rest) := runs_lift rfl _
  rw [next]
  exact ((runs_peek p [] (c :: rest)).bind_eq _).trans
    (((runs_advance_cons p [] rest c).bind_eq _).trans ((taken.bind_eq _).trans (h.bind_eq _)))

/-- A turn that ends with a token or a defect. -/
theorem finds_of_turn {v : Verdict} {s' : Registers}
    (h : Runs (turn c) (p.holding [c] rest) (some v) s') : Finds p (c :: rest) (some v) s' := by
  intro n short
  cases n with
  | zero => cases short
  | succ n => exact next_cons p c rest h n

/-- After a turn that skips something, the lexer finds what it finds from there on. -/
theorem finds_of_skipped {q : Place} {tail : List Char} {v? : Option Verdict} {s' : Registers}
    (h : Runs (turn c) (p.holding [c] rest) none (q.holding [] tail))
    (shorter : tail.length ≤ rest.length) (found : Finds q tail v? s') :
    Finds p (c :: rest) v? s' := by
  intro n short
  cases n with
  | zero => cases short
  | succ n =>
    have enough : tail.length < n := Nat.lt_of_le_of_lt shorter (Nat.lt_of_succ_lt_succ short)
    exact (next_cons p c rest h n).trans (found n enough)

theorem runs_turn_lineBreak :
    Runs (turn '\n') (p.holding ['\n'] rest) none (p.nextLine.holding [] rest) :=
  (runs_skip p rest '\n').bind ((runs_newLine p rest).bind (runs_pure _ _))

/-- Nothing is found before a line break but what is found after it. -/
theorem finds_after_lineBreak {v? : Option Verdict} {s' : Registers}
    (found : Finds p ('\n' :: rest) v? s') : Finds p.nextLine rest v? s' := by
  intro n short
  have before := found (n + 1) (Nat.succ_lt_succ short)
  exact (next_cons p '\n' rest (runs_turn_lineBreak p rest) n).symm.trans before

/-- A lexeme that a turn settles. -/
theorem follows_of_settles {x : Action Registers Verdict} {item : Item} (hx : turn c = some <$> x)
    (h : Settles p c rest x (p.holding [c] rest) item) : Follows p c rest item := by
  cases item with
  | lexeme kind text extra => exact finds_of_turn p c rest (hx ▸ h.map some)
  | fault fault extra =>
    obtain ⟨s', h⟩ := h
    exact ⟨s', finds_of_turn p c rest (hx ▸ h.map some)⟩
  | _ => exact h.elim

/-- A lexeme that is settled after a scan. -/
theorem settles_scan {x : Action Registers Verdict} (scanner : Scanner) {make : List Char → Item}
    (h : ∀ name tail, Settles p c (name ++ tail) x (p.holding (c :: name) tail) (make name)) :
    Settles p c rest (scan scanner >>= fun _ => x) (p.holding [c] rest)
      (make (rest.take (scanner.run rest))) := by
  have scanned := h (rest.take (scanner.run rest)) (rest.drop (scanner.run rest))
  rw [List.take_append_drop] at scanned
  exact Settles.after (runs_scan p [c] rest scanner) scanned

/-- A comment ends at a line break, or with the file. -/
theorem drop_commentRest : rest.drop (commentRest.run rest) = [] ∨
    ∃ tail, rest.drop (commentRest.run rest) = '\n' :: tail := by
  have cut : rest.drop (commentRest.run rest) = rest.dropWhile (· ≠ '\n') := by
    have dropped : (rest.takeWhile (· ≠ '\n') ++ rest.dropWhile (· ≠ '\n')).drop
        (rest.takeWhile (· ≠ '\n')).length = rest.dropWhile (· ≠ '\n') := List.drop_left
    rwa [List.takeWhile_append_dropWhile] at dropped
  rw [cut]
  cases h : rest.dropWhile (· ≠ '\n') with
  | nil => exact .inl rfl
  | cons d tail =>
    have stop := List.head?_dropWhile_not (· ≠ '\n') rest
    rw [h] at stop
    exact .inr ⟨tail, congrArg (· :: tail) (by simpa using stop)⟩

/-- With a comment goes the line break that ends it, and the lexer finds from there on what it
would find before the line break. -/
theorem exists_runs_skipComment :
    ∃ q tail, Runs skipComment (p.holding ['-'] rest) ⟨⟩ (q.holding [] tail) ∧
      tail.length ≤ rest.length ∧ ∀ v? s',
        Finds (p.advance ('-' :: rest.take (commentRest.run rest)))
          (rest.drop (commentRest.run rest)) v? s' → Finds q tail v? s' := by
  have scanned := runs_scan p ['-'] rest commentRest
  have left : (rest.drop (commentRest.run rest)).length ≤ rest.length := by simp
  rw [List.singleton_append] at scanned
  generalize rest.take (commentRest.run rest) = text at scanned ⊢
  obtain ended | ⟨tail, ended⟩ := drop_commentRest rest
  · rw [ended] at scanned ⊢
    exact ⟨_, [], scanned.bind ((runs_skipLexeme p _ []).bind
      ((runs_advance_nil _ []).bind (runs_pure _ _))), Nat.zero_le _, fun _ _ found => found⟩
  · rw [ended] at scanned left ⊢
    exact ⟨_, tail, scanned.bind ((runs_skipLexeme p _ _).bind
      ((runs_advance_cons _ [] tail '\n').bind ((runs_skip _ tail '\n').bind
        (runs_newLine _ tail)))), Nat.le_of_succ_le left,
      fun _ _ found => finds_after_lineBreak _ tail found⟩

theorem follows_comment : Follows p '-' rest (comment rest) := by
  have peeked := runs_peek p ['-'] rest
  unfold comment
  split
  · next tail =>
    obtain ⟨q, after, skipped, shorter, same⟩ := exists_runs_skipComment p ('-' :: tail)
    refine ⟨commentRest.run_le_length _, fun v? s' found => ?_⟩
    exact finds_of_skipped p '-' _ (peeked.bind (skipped.bind (runs_pure none _))) shorter
      (same v? s' found)
  · next other =>
    refine ⟨p.holding ['-'] rest, finds_of_turn p '-' rest (peeked.bind ?_)⟩
    rw [if_neg (fun h => ?_)]
    · exact (runs_defect p ['-'] rest _).map some
    · cases rest with
      | nil => cases h
      | cons d rest => exact other rest (congrArg (· :: rest) (Option.some.inj h))

/-- The lexer reads every item as what it is. -/
theorem follows_itemAt : Follows p c rest (itemAt c rest) := by
  unfold itemAt
  split
  case h_1 | h_2 | h_3 =>
    exact fun v? s' found =>
      finds_of_skipped p _ rest ((runs_skip p rest _).bind (runs_pure none _)) (Nat.le_refl _) found
  case h_4 =>
    exact fun v? s' found =>
      finds_of_skipped p '\n' rest (runs_turn_lineBreak p rest) (Nat.le_refl _) found
  case h_5 => exact follows_of_settles p '#' rest rfl (settles_sectionToken p rest)
  case h_6 =>
    exact follows_of_settles p '$' rest rfl (settles_scan p '$' rest nameRest
      fun name tail => settles_stripped p name tail .reg (by decide))
  case h_7 =>
    exact follows_of_settles p ':' rest rfl (settles_scan p ':' rest nameRest
      fun name tail => settles_stripped p name tail .label (by decide))
  case h_8 => exact follows_of_settles p '?' rest rfl (settles_token p '?' [] rest .query)
  case h_9 => exact follows_of_settles p ';' rest rfl (settles_token p ';' [] rest .semicolon)
  case h_10 | h_11 | h_12 | h_13 =>
    exact follows_of_settles p _ rest rfl (settles_pairToken p _ rest _ rfl)
  case h_14 | h_15 => exact follows_of_settles p _ rest rfl (settles_orEqualToken p _ rest _ _)
  case h_16 => exact follows_comment p rest
  case h_17 =>
    have other : turn c = some <$> otherToken c := by
      unfold turn
      split
      case h_17 => rfl
      all_goals exact absurd rfl (by assumption)
    refine follows_of_settles p c rest other ?_
    unfold otherToken
    split
    · next first =>
      refine settles_scan p c rest identifierRest fun name tail =>
        settles_identifierToken p name tail ?_
      obtain rfl | letter := first
      · decide
      · exact toNat_lt_of_isLetter ((letter_run_pos c).1 letter)
    · split
      · exact settles_scan p c rest numberRest fun name tail => settles_token p c name tail .int
      · exact settles_defect p c [] rest rfl

theorem cursor_advance_take {rest : List Char} {extra : Nat} (h : extra ≤ rest.length) :
    (p.advance (c :: rest.take extra)).cursor = p.cursor.advance (extra + 1) := by
  show p.cursor.advance (c :: rest.take extra).length = _
  rw [List.length_cons, List.length_take_of_le h]

end Reading

/-! ### Collecting -/

/-- What comes next from a place on, given the tokens of all characters to come. -/
inductive Comes (p : Place) (cs : List Char) : Except Error (List Token) → Prop
  | nothing {s' : Registers} (found : Finds p cs none s') (file : s'.file = p.file) :
    Comes p cs (.ok [])
  | defect {e : Error} {s' : Registers}
    (found : Finds p cs (some (.error (e.syntaxError p.file))) s') : Comes p cs (.error e)
  | token {t : Token} {q : Place} {rest : List Char}
    (found : Finds p cs (some (.ok t)) (q.holding [] rest)) (file : q.file = p.file)
    (shorter : rest.length < cs.length) :
    Comes p cs ((tokensFrom p.file q.cursor rest).map (t :: ·))

/-- What comes next from a later place on comes next before it, if nothing is found in between. -/
theorem Comes.of_skipped {p q : Place} {cs tail : List Char} {r : Except Error (List Token)}
    (h : Comes q tail r) (skips : ∀ v? s', Finds q tail v? s' → Finds p cs v? s')
    (file : q.file = p.file) (shorter : tail.length ≤ cs.length) : Comes p cs r := by
  cases h with
  | nothing found same => exact .nothing (skips _ _ found) (same.trans file)
  | defect found =>
    rw [file] at found
    exact .defect (skips _ _ found)
  | token found same less =>
    rw [file]
    exact .token (skips _ _ found) (same.trans file) (Nat.lt_of_lt_of_le less shorter)

theorem comes_tokensFrom (p : Place) (cs : List Char) :
    Comes p cs (tokensFrom p.file p.cursor cs) := by
  generalize hf : p.file = file
  generalize hk : p.cursor = k
  fun_induction tokensFrom file k cs generalizing p with
  | case1 k => exact .nothing (finds_nil p) rfl
  | case2 k c rest item ih =>
    have follows := follows_itemAt p c rest
    rw [item] at follows
    exact (ih (p.advance [c]) hf (hk ▸ rfl)).of_skipped follows rfl (by simp)
  | case3 k c rest item ih =>
    have follows := follows_itemAt p c rest
    rw [item] at follows
    exact (ih p.nextLine hf (hk ▸ rfl)).of_skipped follows rfl (by simp)
  | case4 k c rest extra item ih =>
    have follows := follows_itemAt p c rest
    rw [item] at follows
    obtain ⟨within, follows⟩ := follows
    have later := ih (p.advance (c :: rest.take extra)) hf (hk ▸ cursor_advance_take p c within)
    refine later.of_skipped follows rfl ?_
    rw [List.length_drop, List.length_cons]
    omega
  | case5 k c rest kind text extra item token _ =>
    have follows := follows_itemAt p c rest
    rw [item] at follows
    obtain ⟨name, tail, rfl, rfl, -⟩ := cut_of_itemAt item
    have cursor := @cursor_advance_take p c (name ++ tail) name.length (by simp)
    subst hf hk
    rw [← cursor]
    refine .token follows rfl ?_
    rw [List.drop_left, List.length_cons, List.length_append]
    omega
  | case6 k c rest fault extra item =>
    have follows := follows_itemAt p c rest
    rw [item] at follows
    obtain ⟨s', found⟩ := follows
    subst hf hk
    exact .defect found

theorem runs_collect_of_ok {n : Nat} {t : Token} {s s' s'' : Registers} {ts : List Token}
    {result : Except SyntaxError (List Token)} (h : Runs (next (n + 1)) s (some (.ok t)) s')
    (more : Runs (collect n (ts ++ [t])) s' result s'') :
    Runs (collect (n + 1) ts) s result s'' := by
  rw [collect]
  exact h.bind ((runs_lift rfl _).bind more)

/-- Collecting reads the tokens that the characters hold, or their first defect.  After the last
token the file is still the same. -/
theorem exists_runs_collect {n : Nat} (p : Place) (cs : List Char) (short : cs.length < n)
    (ts : List Token) :
    ∃ s', Runs (collect n ts) (p.holding [] cs)
        (((tokensFrom p.file p.cursor cs).map (ts ++ ·)).mapError (·.syntaxError p.file)) s' ∧
      ∀ us, tokensFrom p.file p.cursor cs = .ok us → s'.file = p.file := by
  induction n generalizing p cs ts with
  | zero => exact absurd short (Nat.not_lt_zero _)
  | succ n ih =>
    have comes := comes_tokensFrom p cs
    generalize tokensFrom p.file p.cursor cs = result at comes ⊢
    cases comes with
    | @nothing s' found file =>
      refine ⟨s', ?_, fun _ _ => file⟩
      rw [collect, Except.map, List.append_nil]
      exact (found _ short).bind (runs_pure _ _)
    | @defect e s' found =>
      rw [collect]
      refine ⟨s', (found _ short).bind ((runs_lift rfl _).bind (runs_pure _ _)), fun us none => ?_⟩
      cases none
    | @token t q rest found file shorter =>
      obtain ⟨s', more, same⟩ := ih q rest (by omega) (ts ++ [t])
      have ran := runs_collect_of_ok (found _ short) more
      rw [file] at ran same
      cases lexed : tokensFrom p.file q.cursor rest with
      | error e =>
        rw [lexed] at ran
        refine ⟨s', ran, fun us none => ?_⟩
        cases none
      | ok us =>
        rw [lexed, Except.map, List.append_assoc] at ran
        exact ⟨s', ran, fun _ _ => same us lexed⟩

/-- Whatever the registers hold, the lexer comes to an end, meets all preconditions, and reads the
tokens of the file or its first defect. -/
theorem exists_runs_lex (l : Registers) (s : Source) :
    ∃ l', Runs (lex s) l (s.lex.mapError (·.syntaxError s.file)) l' ∧
      ∀ ts, s.lex = .ok ts → l'.file = s.file := by
  obtain ⟨l', h, file⟩ :=
    exists_runs_collect (.start s.file) s.contents (Nat.lt_succ_self _) []
  refine ⟨l', (runs_set rfl l).bind ?_, file⟩
  have same : (s.lex.map ([] ++ ·)) = s.lex := by cases s.lex <;> rfl
  rw [← same]
  exact h

end XtAsm.Lexer
