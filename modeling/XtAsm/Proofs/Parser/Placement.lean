import XtAsm.Proofs.Parser.Blame
import XtAsm.Proofs.Token.Lexeme

/-!
# The places of tokens do not matter

Parsing looks at the classes and the texts of tokens.  It keeps whole tokens only in order to point
at them, so that moving all tokens about moves the tokens of an error, and changes nothing else.

* `Relocation`: a change of the places of tokens;
* `acceptDeclaring_move`, `acceptReading_move`, `accept_moved`: what a moved token does to a state
  of moved tokens;
* `result_run_moved`: a whole run over moved tokens;
* `exists_same_outcome`: tokens that agree in classes and texts.
-/

namespace XtAsm

/-- A change of the places of tokens, which keeps their classes and texts. -/
structure Relocation where
  move : Token → Token
  kind_move : ∀ t, (move t).kind = t.kind
  text_move : ∀ t, (move t).text = t.text

attribute [simp] Relocation.kind_move Relocation.text_move

/-- The error at the moved tokens. -/
def ParseError.move (f : Relocation) (e : ParseError) : ParseError :=
  ⟨e.fault, f.move e.first, f.move e.last⟩

@[simp] theorem ParseError.move_atToken (f : Relocation) (t : Token) (fault : ParseFault) :
    (atToken t fault).move f = atToken (f.move t) fault := rfl

namespace Parser

/-! ### Moving the tokens of a state -/

section Move

variable (f : Relocation)

def Operand.move (o : Operand) : Operand := { o with token := f.move o.token }

def Header.move (h : Header) : Header := { h with keyword := f.move h.keyword }

def Opener.move : Opener → Opener
  | .whileLoop keyword chain => .whileLoop (f.move keyword) chain
  | .forLoop keyword counter limit increment => .forLoop (f.move keyword) counter limit increment
  | .loop keyword => .loop (f.move keyword)
  | .thenBranch keyword chain outer => .thenBranch (f.move keyword) chain outer
  | .elseBranch keyword chain outer thenBody => .elseBranch (f.move keyword) chain outer thenBody

def Frame.move (r : Frame) : Frame := { r with opener := r.opener.move f }

def Blocks.move (b : Blocks) : Blocks := { b with frames := b.frames.map (Frame.move f) }

def Reading.move : Reading → Reading
  | .statement => .statement
  | .exitValue k => .exitValue (f.move k)
  | .target op k => .target op (f.move k)
  | .source op k a => .source op (f.move k) (a.move f)
  | .jumpLabel k => .jumpLabel (f.move k)
  | .left h previous => .left (h.move f) (f.move previous)
  | .comparison h a => .comparison (h.move f) (a.move f)
  | .right h a op previous => .right (h.move f) (a.move f) op (f.move previous)
  | .connective h last => .connective (h.move f) (f.move last)
  | .counter k => .counter (f.move k)
  | .firstSemicolon k a => .firstSemicolon (f.move k) (a.move f)
  | .limit k a previous => .limit (f.move k) (a.move f) (f.move previous)
  | .secondSemicolon k a b => .secondSemicolon (f.move k) (a.move f) (b.move f)
  | .increment k a b previous => .increment (f.move k) (a.move f) (b.move f) (f.move previous)
  | .rangeIn k a b c => .rangeIn (f.move k) (a.move f) (b.move f) (c.move f)

def Declaring.move : Declaring → Declaring
  | .declaration => .declaration
  | .value name => .value (f.move name)
  | .enumName k => .enumName (f.move k)
  | .member k name members next => .member (f.move k) (f.move name) members next
  | .index k name members next m => .index (f.move k) (f.move name) members next (f.move m)

def Phase.move : Phase → Phase
  | .outside => .outside
  | .inData head ds d => .inData (f.move head) ds (d.move f)
  | .inCode head b r => .inCode (f.move head) (b.move f) (r.move f)

/-- The state with moved tokens.  Reports only hold positions, so they are given anew. -/
def State.moved (reports : List Report) (s : State) : State :=
  ⟨s.data?, s.code?, reports, s.phase.move f⟩

/-- The outcome of a step over moved tokens. -/
def carry {α β : Type} (g : α → β) (x : Except ParseError α) : Except ParseError β :=
  (x.map g).mapError (ParseError.move f)

@[simp] theorem carry_ok {α β : Type} (g : α → β) (a : α) : carry f g (.ok a) = .ok (g a) := rfl

@[simp] theorem carry_error {α β : Type} (g : α → β) (e : ParseError) :
    carry f g (.error e) = .error (e.move f) := rfl

/-! ### Steps over moved tokens -/

theorem operand?_move (t : Token) : operand? (f.move t) = (operand? t).map (Operand.move f) := by
  simp only [operand?, f.kind_move, f.text_move]
  split <;> rfl

theorem operandAt_move (slot : Slot) (t : Token) :
    operandAt slot (f.move t) = carry f (Operand.move f) (operandAt slot t) := by
  simp only [operandAt, operand?_move, f.kind_move, f.text_move]
  cases operand? t with
  | none => rfl
  | some o =>
    dsimp only [Option.map]
    split <;> rfl

theorem acceptMember_move (ds : List Node) (k name : Token) (members : List Variable) (next : Int)
    (t : Token) :
    acceptMember ds (f.move k) (f.move name) members next (f.move t) =
      carry f (Prod.map id (Declaring.move f)) (acceptMember ds k name members next t) := by
  simp only [acceptMember, f.kind_move, f.text_move]
  split <;> rfl

theorem memberVariable_move (name m : Token) (value : Int) :
    memberVariable (f.move name) (f.move m) value = memberVariable name m value := by
  simp only [memberVariable, f.text_move]

theorem acceptDeclaring_move (ds : List Node) (d : Declaring) (t : Token) :
    acceptDeclaring ds (d.move f) (f.move t) =
      carry f (Prod.map id (Declaring.move f)) (acceptDeclaring ds d t) := by
  cases d with
  | declaration | value | enumName =>
    simp only [Declaring.move, acceptDeclaring, f.kind_move, f.text_move]
    split <;> rfl
  | member k name members next => exact acceptMember_move f ds k name members next t
  | index k name members next m =>
    simp only [Declaring.move, acceptDeclaring, f.kind_move, f.text_move, memberVariable_move,
      acceptMember_move]
    split
    · split <;> rfl
    · rfl

theorem beginChoice_move (b : Blocks) (t : Token) :
    beginChoice (b.move f) (f.move t) =
      Prod.map (Blocks.move f) (Reading.move f) (beginChoice b t) := by
  obtain ⟨body, frames⟩ := b
  rcases body with _ | ⟨n, body⟩
  · rcases frames with _ | ⟨⟨opener, before⟩, frames⟩
    · rfl
    · cases opener <;> rfl
  · rfl

theorem close_move (body : List Node) (o : Opener) : (o.move f).close body = o.close body := by
  cases o <;> rfl

theorem acceptStatement_move (b : Blocks) (t : Token) :
    acceptStatement (b.move f) (f.move t) =
      carry f (Prod.map (Blocks.move f) (Reading.move f)) (acceptStatement b t) := by
  simp only [acceptStatement, f.kind_move, f.text_move, beginChoice_move]
  split
  case h_12 =>
    obtain ⟨body, frames⟩ := b
    rcases frames with _ | ⟨⟨opener, before⟩, frames⟩
    · rfl
    · cases opener <;> rfl
  case h_13 =>
    obtain ⟨body, frames⟩ := b
    rcases frames with _ | ⟨⟨opener, before⟩, frames⟩
    · rfl
    · simp only [Blocks.move, List.map_cons, Frame.move, close_move]
      rfl
  all_goals rfl

theorem opener_move (h : Header) : (h.move f).opener = h.opener.move f := by
  obtain ⟨form, keyword, chain⟩ := h
  cases form <;> rfl

theorem acceptRight_move (h : Header) (a : Operand) (op : Relation) (t : Token) :
    acceptRight (h.move f) (a.move f) op (f.move t) =
      carry f (Reading.move f) (acceptRight h a op t) := by
  simp only [acceptRight, operandAt_move, Operand.move, f.kind_move]
  cases operandAt .conditionRight t with
  | error e => rfl
  | ok o => by_cases literals : a.token.kind = .int ∧ t.kind = .int <;> simp [literals] <;> rfl

theorem acceptReading_move (b : Blocks) (r : Reading) (t : Token) :
    acceptReading (b.move f) (r.move f) (f.move t) =
      carry f (Prod.map (Blocks.move f) (Reading.move f)) (acceptReading b r t) := by
  cases r with
  | statement => exact acceptStatement_move f b t
  | exitValue | target | source | left | counter | limit | increment =>
    simp only [Reading.move, acceptReading, operandAt_move, f.text_move]
    cases operandAt _ t <;> rfl
  | jumpLabel | comparison | firstSemicolon | secondSemicolon | rangeIn =>
    simp only [Reading.move, acceptReading, f.kind_move, f.text_move]
    split <;> rfl
  | right h a op previous =>
    simp only [Reading.move, acceptReading, acceptRight_move]
    cases acceptRight h a op t <;> rfl
  | connective h last =>
    have word : (h.move f).keyword.text = h.keyword.text := f.text_move h.keyword
    simp only [Reading.move, acceptReading, f.kind_move, f.text_move, opener_move, word]
    split <;> rfl

theorem startsDeclaration_move (t : Token) :
    startsDeclaration (f.move t) = startsDeclaration t := by
  simp only [startsDeclaration, f.kind_move]

/-- A section ends in front of the same tokens. -/
theorem exists_settle_moved (s : State) (reports : List Report) (t : Token) :
    ∃ reports', (s.moved f reports).settle (f.move t) = (s.settle t).moved f reports' := by
  obtain ⟨data?, code?, old, phase⟩ := s
  cases phase with
  | outside => exact ⟨reports, rfl⟩
  | inData head ds d =>
    cases d with
    | declaration =>
      simp only [State.moved, Phase.move, Declaring.move, State.settle, startsDeclaration_move]
      split <;> exact ⟨_, rfl⟩
    | _ => exact ⟨reports, rfl⟩
  | inCode head b r =>
    obtain ⟨body, frames⟩ := b
    cases frames with
    | cons frame frames => exact ⟨reports, by cases r <;> rfl⟩
    | nil =>
      cases r with
      | statement =>
        simp only [State.moved, Phase.move, Reading.move, Blocks.move, List.map_nil, State.settle,
          f.kind_move]
        split <;> exact ⟨_, rfl⟩
      | _ => exact ⟨reports, rfl⟩

/-- A moved token has the same effect on a state of moved tokens. -/
theorem accept_moved (s : State) (reports : List Report) (t : Token) :
    (s.moved f reports).accept (f.move t) = carry f (State.moved f reports) (s.accept t) := by
  obtain ⟨data?, code?, old, phase⟩ := s
  cases phase with
  | outside =>
    simp only [State.moved, Phase.move, State.accept, f.kind_move, f.text_move]
    split
    · cases data? <;> rfl
    · cases code? <;> rfl
    · rfl
  | inData head ds d =>
    simp only [State.moved, Phase.move, State.accept, acceptDeclaring_move]
    cases acceptDeclaring ds d t <;> rfl
  | inCode head b r =>
    simp only [State.moved, Phase.move, State.accept, acceptReading_move]
    cases acceptReading b r t <;> rfl

theorem missing?_declaring_move (d : Declaring) :
    (d.move f).missing? = d.missing?.map (ParseError.move f) := by
  cases d <;> simp [Declaring.move, Declaring.missing?]

theorem missing?_reading_move (r : Reading) :
    (r.move f).missing? = r.missing?.map (ParseError.move f) := by
  cases r <;> simp [Reading.move, Reading.missing?, Operand.move, Header.move]

theorem missing?_blocks_move (b : Blocks) :
    (b.move f).missing? = b.missing?.map (ParseError.move f) := by
  obtain ⟨body, frames⟩ := b
  rcases frames with _ | ⟨⟨opener, before⟩, frames⟩
  · rfl
  · cases opener <;> simp [Blocks.move, Blocks.missing?, Frame.move, Opener.move, Opener.keyword]

theorem result_finish_moved (s : State) (reports : List Report) :
    (s.moved f reports).finish.result = carry f id s.finish.result := by
  obtain ⟨data?, code?, old, phase⟩ := s
  cases phase with
  | outside => rfl
  | inData head ds d =>
    simp only [State.moved, Phase.move, State.finish, missing?_declaring_move]
    cases d.missing? <;> rfl
  | inCode head b r =>
    simp only [State.moved, Phase.move, State.finish, missing?_reading_move, missing?_blocks_move]
    cases r.missing? with
    | some e => rfl
    | none => cases b.missing? <;> rfl

/-- A run over moved tokens has the same result, with the tokens of an error moved. -/
theorem result_run_moved (s : State) (reports : List Report) (ts : List Token) :
    (run (s.moved f reports) (ts.map f.move)).result = carry f id (run s ts).result := by
  induction ts generalizing s reports with
  | nil => exact result_finish_moved f s reports
  | cons t ts ih =>
    obtain ⟨reports', settled⟩ := exists_settle_moved f s reports t
    simp only [List.map_cons, run, settled, accept_moved]
    cases (s.settle t).accept t with
    | ok next => exact ih next reports'
    | error e => rfl

end Move

/-! ### Tokens that know their indices -/

/-- Tokens with their indices in place of their lines. -/
def numbered (ts : List Token) : List Token :=
  ts.mapIdx fun i t => { t with position := ⟨t.position.file, i, t.position.column⟩ }

/-- Numbered tokens are moved to the places of the tokens with their numbers. -/
def placesOf (ts : List Token) : Relocation where
  move t := match ts[t.position.line.toNat]? with
    | some u => { t with position := u.position, span := u.span }
    | none => t
  kind_move t := by split <;> rfl
  text_move t := by split <;> rfl

/-- Numbered tokens can be moved to the places of any tokens that agree with them. -/
theorem map_move_numbered {ts us : List Token}
    (same : ts.map Token.lexeme = us.map Token.lexeme) :
    (numbered ts).map (placesOf us).move = us := by
  have length : ts.length = us.length := by simpa using congrArg List.length same
  refine List.ext_getElem (by simpa [numbered] using length) fun i hi hi' => ?_
  have inside : i < ts.length := length ▸ hi'
  have lexeme : ts[i].lexeme = us[i].lexeme := by
    have := congrArg (·[i]?) same
    simpa [inside, hi'] using this
  obtain ⟨kind, text⟩ := Prod.mk.inj lexeme
  simp [numbered, placesOf, hi', kind, text]

/-- The token with a number is moved to the place of the token with that number. -/
theorem exists_index {ts us : List Token} (same : ts.map Token.lexeme = us.map Token.lexeme)
    {t : Token} (h : t ∈ numbered ts) :
    ∃ i : Nat, ts[i]? = some ((placesOf ts).move t) ∧ us[i]? = some ((placesOf us).move t) := by
  obtain ⟨i, hi, rfl⟩ := List.getElem_of_mem h
  have placed : ∀ vs, ts.map Token.lexeme = vs.map Token.lexeme →
      vs[i]? = some ((placesOf vs).move (numbered ts)[i]) := fun vs agree => by
    have at_i := congrArg (·[i]?) (map_move_numbered agree)
    simpa [hi] using at_i.symm
  exact ⟨i, placed ts rfl, placed us same⟩

/-- Tokens have the outcome of the numbered ones that they agree with, moved to their places. -/
theorem result_eq_carry_numbered {ts us : List Token}
    (same : ts.map Token.lexeme = us.map Token.lexeme) :
    (Program.ofTokens us).result =
      carry (placesOf us) id (Program.ofTokens (numbered ts)).result := by
  have run := result_run_moved (placesOf us) .initial [] (numbered ts)
  rwa [map_move_numbered same] at run

end Parser

/-- **Places do not matter.**  Tokens that agree in classes and texts denote the same program, or
have the same fault at the same indices. -/
theorem Program.exists_same_outcome {ts us : List Token}
    (same : ts.map Token.lexeme = us.map Token.lexeme) :
    (∃ p, (ofTokens ts).result = .ok p ∧ (ofTokens us).result = .ok p) ∨
    ∃ e e' : ParseError, (ofTokens ts).result = .error e ∧ (ofTokens us).result = .error e' ∧
      e.fault = e'.fault ∧
      (∃ i : Nat, ts[i]? = some e.first ∧ us[i]? = some e'.first) ∧
      ∃ j : Nat, ts[j]? = some e.last ∧ us[j]? = some e'.last := by
  -- both are the numbered tokens, moved
  rw [Parser.result_eq_carry_numbered rfl, Parser.result_eq_carry_numbered same]
  cases parsed : (ofTokens (Parser.numbered ts)).result with
  | ok p => exact .inl ⟨p, rfl, rfl⟩
  | error e =>
    obtain ⟨first, last⟩ := Parser.mem_of_ofTokens_error parsed
    exact .inr ⟨_, _, rfl, rfl, rfl, Parser.exists_index same first, Parser.exists_index same last⟩

/-- A jump to a literal, in one line. -/
def jumpInLine : List Token :=
  [⟨.code, "#code", ⟨"one", 1, 1⟩, ⟨0, 5, by decide⟩⟩,
   ⟨.word .jmp, "jmp", ⟨"one", 1, 7⟩, ⟨6, 9, by decide⟩⟩,
   ⟨.int, "1", ⟨"one", 1, 11⟩, ⟨10, 11, by decide⟩⟩]

/-- The same jump, one token a line. -/
def jumpInLines : List Token :=
  [⟨.code, "#code", ⟨"two", 1, 1⟩, ⟨0, 5, by decide⟩⟩,
   ⟨.word .jmp, "jmp", ⟨"two", 2, 1⟩, ⟨6, 9, by decide⟩⟩,
   ⟨.int, "1", ⟨"two", 3, 1⟩, ⟨10, 11, by decide⟩⟩]

theorem Program.exists_same_outcome_jump :
    jumpInLine.map Token.lexeme = jumpInLines.map Token.lexeme ∧
    ∃ e e' : ParseError, (ofTokens jumpInLine).result = .error e ∧
      (ofTokens jumpInLines).result = .error e' ∧ e.fault = e'.fault ∧
      ∃ i : Nat, jumpInLine[i]? = some e.first ∧ jumpInLines[i]? = some e'.first := by
  have same : jumpInLine.map Token.lexeme = jumpInLines.map Token.lexeme := by
    simp only [jumpInLine, jumpInLines, List.map_cons, List.map_nil, Token.lexeme]
  refine ⟨same, ?_⟩
  rcases exists_same_outcome same with ⟨p, accepted, -⟩ | ⟨e, e', first, second, fault, index, -⟩
  · cases accepted
  · exact ⟨e, e', first, second, fault, index⟩

end XtAsm
