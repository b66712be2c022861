import XtAsm.Proofs.Parser.Run

/-!
# Errors of the parser

The parser stops at the first token that no program goes on with, and complains about
something missing exactly if the tokens could still be completed.

* `State.step`, `Reaches`: the states that a sequence of accepted tokens leads through;
* `step_error`: a token that does not fit is itself what the error covers, except that a comparison
  of two literals is covered from its left operand on;
* `exists_completion`: every state can be completed to a program;
* `correct_prefix`: the two kinds of errors, told apart by what can follow.
-/

namespace XtAsm

/-! ### Messages -/

theorem Text.ofString_append (s t : String) :
    Text.ofString (s ++ t) = Text.ofString s ++ Text.ofString t := by
  simp [Text.ofString]

namespace ParseFault

/-- The tokens ended too early. -/
def isMissing : ParseFault → Bool
  | .missingValue _ | .missingEnumName | .missingEnumEnd _ | .missingEnd _ | .missingOperand _
  | .missingLabel | .missingSemicolon | .missingRangeIn | .missingComparison | .missingIn _ => true
  | _ => false

/-- A single token does not fit. -/
def isMisfit : ParseFault → Bool
  | .twoLiterals => false
  | f => !f.isMissing

theorem isMissing_of_isMisfit {f : ParseFault} (h : f.isMisfit = true) : f.isMissing = false := by
  cases f <;> first | rfl | cases h

/-- The first byte of the description of a fault. -/
def initial : ParseFault → UInt8
  | .duplicateData | .duplicateCode => 100
  | .notASection _ | .notAnInstruction _ | .invalidConnective _ _ => 117
  | .invalidSemicolon _ | .invalidRangeIn _ => 101
  | .twoLiterals => 98
  | f => if f.isMissing then 109 else 105

theorem head?_message (f : ParseFault) : f.message.head? = some f.initial := by
  cases f <;> rfl

theorem missing_isPrefix (s : String) :
    Text.ofString "missing " <+: Text.ofString ("missing " ++ s) := by
  rw [Text.ofString_append]
  exact List.prefix_append _ _

/-- The description tells whether something is missing. -/
theorem missing_isPrefix_message_iff {f : ParseFault} :
    Text.ofString "missing " <+: f.message ↔ f.isMissing = true := by
  constructor
  · rintro ⟨rest, eq⟩
    have first := head?_message f
    rw [← eq] at first
    have initial : f.initial = 109 := (Option.some.inj first).symm
    cases f <;> simp [ParseFault.initial, isMissing] at initial ⊢
  · intro h
    cases f with
    | missingValue name =>
      exact (missing_isPrefix "value for variable ").trans (List.prefix_append _ _)
    | missingEnumName => exact missing_isPrefix "name for ENUM declaration"
    | missingEnumEnd enumeration =>
      exact (missing_isPrefix "END for ENUM declaration ").trans (List.prefix_append _ _)
    | missingEnd word =>
      rw [message, List.append_assoc]
      exact (missing_isPrefix "END for ").trans (List.prefix_append _ _)
    | missingOperand slot => exact List.prefix_append _ _
    | missingLabel => exact missing_isPrefix "label for JMP instruction"
    | missingSemicolon => exact missing_isPrefix "';' in FOR statement"
    | missingRangeIn => exact missing_isPrefix "IN for FOR statement"
    | missingComparison => exact missing_isPrefix "comparison in condition"
    | missingIn word =>
      rw [message, List.append_assoc]
      exact (missing_isPrefix "IN for ").trans (List.prefix_append _ _)
    | _ => cases h

/-- Only the comparison of two literals is described in its words. -/
theorem message_eq_twoLiterals_iff {f : ParseFault} :
    f.message = twoLiterals.message ↔ f = .twoLiterals := by
  constructor
  · intro h
    have first := head?_message f
    rw [h, head?_message] at first
    have initial : f.initial = 98 := (Option.some.inj first).symm
    cases f <;> simp [ParseFault.initial, isMissing] at initial ⊢
  · rintro rfl
    rfl

end ParseFault

namespace Parser

/-! ### Steps -/

/-- What reading a token makes of a state. -/
def State.step (s : State) (t : Token) : Except ParseError State := (s.settle t).accept t

/-- The tokens are accepted one after the other and lead from one state to another. -/
inductive Reaches : State → List Token → State → Prop
  | refl (s : State) : Reaches s [] s
  | cons {s mid last : State} {t : Token} {ts : List Token} (h : s.step t = .ok mid)
      (hs : Reaches mid ts last) : Reaches s (t :: ts) last

/-- Accepted tokens can be read ahead of any others. -/
theorem Reaches.run_append {s last : State} {ts : List Token} (h : Reaches s ts last)
    (us : List Token) : run s (ts ++ us) = run last us := by
  induction h with
  | refl s => rfl
  | cons h _ ih => rw [List.cons_append, run_cons_of_ok _ h, ih]

/-- Either all tokens are accepted, or there is a first one that is not. -/
theorem reaches_or_stops (s : State) (ts : List Token) :
    (∃ last, Reaches s ts last) ∨
    ∃ before t after last e, ts = before ++ t :: after ∧ Reaches s before last ∧
      last.step t = .error e := by
  induction ts generalizing s with
  | nil => exact .inl ⟨s, .refl s⟩
  | cons t ts ih =>
    cases h : s.step t with
    | error e => exact .inr ⟨[], t, ts, s, e, rfl, .refl s, h⟩
    | ok mid =>
      rcases ih mid with ⟨last, hs⟩ | ⟨before, u, after, last, e, rfl, hs, stop⟩
      · exact .inl ⟨last, .cons h hs⟩
      · exact .inr ⟨t :: before, u, after, last, e, rfl, .cons h hs, stop⟩

/-- Settling a section leaves the state alone or ends the section. -/
theorem settle_cases (s : State) (t : Token) :
    s.settle t = s ∨ (s.settle t).phase = .outside := by
  unfold State.settle
  split
  · split
    · exact .inl rfl
    · exact .inr rfl
  · split
    · exact .inr rfl
    · exact .inl rfl
  · exact .inl rfl

/-! ### Tokens that do not fit -/

/-- The error covers the token and says that it does not fit. -/
def Objects (t : Token) (e : ParseError) : Prop :=
  ∃ fault, e = .atToken t fault ∧ fault.isMisfit = true

/-- The outcome of reading a token is a success or an objection to it. -/
def Judges {α : Type} (t : Token) (x : Except ParseError α) : Prop :=
  ∀ e, x = .error e → Objects t e

section Judges

variable {α β : Type} {t : Token}

theorem judges_ok (a : α) : Judges t (.ok a) := by
  intro e h
  cases h

theorem judges_error {fault : ParseFault} (misfit : fault.isMisfit = true) :
    Judges t (.error (.atToken t fault) : Except ParseError α) := by
  intro e h
  cases h
  exact ⟨fault, rfl, misfit⟩

theorem Judges.map {x : Except ParseError α} (h : Judges t x) (f : α → β) :
    Judges t (x.map f) := by
  intro e he
  cases x with
  | error e' =>
    cases he
    exact h _ rfl
  | ok a => cases he

theorem Judges.bind_pure {x : Except ParseError α} (h : Judges t x) (f : α → β) :
    Judges t (x >>= fun a => pure (f a)) := by
  have same : (x >>= fun a => pure (f a)) = x.map f := by
    cases x <;> rfl
  rw [same]
  exact h.map f

theorem judges_operandAt (slot : Slot) : Judges t (operandAt slot t) := by
  unfold operandAt
  split
  · split
    · exact judges_error rfl
    · exact judges_ok _
  · exact judges_error rfl

theorem judges_acceptMember (ds : List Node) (keyword name : Token) (members : List Variable)
    (next : Int) : Judges t (acceptMember ds keyword name members next t) := by
  unfold acceptMember
  split
  case h_4 => exact judges_error rfl
  all_goals exact judges_ok _

theorem judges_acceptDeclaring (ds : List Node) (d : Declaring) :
    Judges t (acceptDeclaring ds d t) := by
  cases d with
  | declaration =>
    simp only [acceptDeclaring]
    split
    case h_3 => exact judges_error rfl
    all_goals exact judges_ok _
  | value name =>
    simp only [acceptDeclaring]
    split
    case h_3 => exact judges_error rfl
    all_goals exact judges_ok _
  | enumName keyword =>
    simp only [acceptDeclaring]
    split
    case h_2 => exact judges_error rfl
    all_goals exact judges_ok _
  | member keyword name members next => exact judges_acceptMember _ _ _ _ _
  | index keyword name members next member =>
    simp only [acceptDeclaring]
    split
    · split
      · exact judges_ok _
      · exact judges_error rfl
    · exact judges_acceptMember _ _ _ _ _

theorem judges_acceptStatement (b : Blocks) : Judges t (acceptStatement b t) := by
  unfold acceptStatement
  split
  -- only `else` and `end` depend on what is open
  case h_12 | h_13 =>
    split
    · exact judges_ok _
    · exact judges_error rfl
  case h_14 => exact judges_error rfl
  all_goals exact judges_ok _

/-- The right operand of a condition may also clash with the left one. -/
theorem acceptRight_error {header : Header} {left : Operand} {op : Relation} {e : ParseError}
    (h : acceptRight header left op t = .error e) :
    Objects t e ∨ (left.token.kind = .int ∧ t.kind = .int ∧ e = ⟨.twoLiterals, left.token, t⟩) := by
  unfold acceptRight at h
  cases operand : operandAt .conditionRight t with
  | error e' =>
    rw [operand] at h
    cases h
    exact .inl (judges_operandAt _ _ operand)
  | ok right =>
    rw [operand] at h
    by_cases literals : left.token.kind = .int ∧ t.kind = .int
    · simp only [bind, Except.bind, if_pos literals] at h
      cases h
      exact .inr ⟨literals.1, literals.2, rfl⟩
    · simp only [bind, Except.bind, if_neg literals] at h
      cases h

/-- Where no comparison is completed, the code section objects to the token itself. -/
theorem judges_acceptReading (b : Blocks) {r : Reading}
    (other : ∀ header left op previous, r ≠ .right header left op previous) :
    Judges t (acceptReading b r t) := by
  cases r with
  | statement => exact judges_acceptStatement b
  | right header left op previous => exact absurd rfl (other header left op previous)
  | exitValue | target | source | left | counter | limit | increment =>
    exact (judges_operandAt _).bind_pure _
  | connective header last =>
    simp only [acceptReading]
    split
    case h_3 => exact judges_error rfl
    all_goals exact judges_ok _
  | jumpLabel | comparison | firstSemicolon | secondSemicolon | rangeIn =>
    simp only [acceptReading]
    split
    · exact judges_ok _
    · exact judges_error rfl

end Judges

/-- The token completes the comparison that the state is in the middle of, but both sides of it are
literals. -/
def Clashes (s : State) (t : Token) (e : ParseError) : Prop :=
  ∃ head b header left op previous, s.phase = .inCode head b (.right header left op previous) ∧
    left.token.kind = .int ∧ t.kind = .int ∧ e = ⟨.twoLiterals, left.token, t⟩

theorem accept_error {s : State} {t : Token} {e : ParseError} (h : s.accept t = .error e) :
    Objects t e ∨ Clashes s t e := by
  obtain ⟨data?, code?, reports, phase⟩ := s
  cases phase with
  | outside =>
    left
    revert e
    show Judges t _
    simp only [State.accept]
    split
    · split
      · exact judges_error rfl
      · exact judges_ok _
    · split
      · exact judges_error rfl
      · exact judges_ok _
    · exact judges_error rfl
  | inData head ds d =>
    have objects : Judges t _ := (judges_acceptDeclaring ds d).map fun next =>
      declaring ⟨data?, code?, reports, .outside⟩ head next.1 next.2
    rw [← accept_declaring] at objects
    exact .inl (objects e h)
  | inCode head b r =>
    change (coding ⟨data?, code?, reports, .outside⟩ head b r).accept t = .error e at h
    rw [accept_coding] at h
    by_cases right : ∃ header left op previous, r = .right header left op previous
    · obtain ⟨header, left, op, previous, rfl⟩ := right
      cases accepted : acceptRight header left op t with
      | ok r' =>
        simp only [acceptReading, accepted] at h
        cases h
      | error e' =>
        simp only [acceptReading, accepted] at h
        cases h
        rcases acceptRight_error accepted with objects | ⟨hl, ht, rfl⟩
        · exact .inl objects
        · exact .inr ⟨head, b, header, left, op, previous, rfl, hl, ht, rfl⟩
    · have other : ∀ header left op previous, r ≠ .right header left op previous :=
        fun header left op previous eq => right ⟨header, left, op, previous, eq⟩
      exact .inl ((judges_acceptReading b other).map _ e h)

/-- A token that is not accepted is what the error covers, unless it completes a comparison of two
literals. -/
theorem step_error {s : State} {t : Token} {e : ParseError} (h : s.step t = .error e) :
    Objects t e ∨ Clashes s t e := by
  rcases accept_error h with objects | clashes
  · exact .inl objects
  · rcases settle_cases s t with same | outside
    · rw [same] at clashes
      exact .inr clashes
    · obtain ⟨head, b, header, left, op, previous, inCode, -⟩ := clashes
      rw [outside] at inCode
      cases inCode

/-! ### The end of the tokens -/

theorem isMissing_of_missing?_declaring {d : Declaring} {e : ParseError}
    (h : d.missing? = some e) : e.fault.isMissing = true := by
  cases d <;> cases h <;> rfl

theorem isMissing_of_missing?_reading {r : Reading} {e : ParseError}
    (h : r.missing? = some e) : e.fault.isMissing = true := by
  cases r <;> cases h <;> rfl

theorem isMissing_of_missing?_blocks {b : Blocks} {e : ParseError}
    (h : b.missing? = some e) : e.fault.isMissing = true := by
  obtain ⟨body, frames⟩ := b
  cases frames <;> cases h
  rfl

/-- The input ends early only where something is missing from a declaration, from the statement at
hand, or from the blocks around it. -/
theorem exists_missing?_of_finish_error {s : State} {e : ParseError}
    (h : s.finish.result = .error e) :
    (∃ head ds d, s.phase = .inData head ds d ∧ d.missing? = some e) ∨
      ∃ head b r, s.phase = .inCode head b r ∧ (r.missing? = some e ∨ b.missing? = some e) := by
  unfold State.finish at h
  split at h
  · cases h
  · next head ds d phase =>
    split at h
    · next missing =>
      cases h
      exact .inl ⟨head, ds, d, phase, missing⟩
    · cases h
  · next head b r phase =>
    split at h
    · next missing =>
      cases h
      rw [Option.orElse_eq_orElse, Option.orElse_eq_or] at missing
      exact .inr ⟨head, b, r, phase, (Option.or_eq_some_iff.mp missing).imp_right And.right⟩
    · cases h

/-- At the end of the tokens, the only thing that can be wrong is that something is missing. -/
theorem finish_error {s : State} {e : ParseError} (h : s.finish.result = .error e) :
    e.fault.isMissing = true := by
  rcases exists_missing?_of_finish_error h with ⟨-, -, d, -, missing⟩ |
    ⟨-, b, r, -, reading | blocks⟩
  · exact isMissing_of_missing?_declaring missing
  · exact isMissing_of_missing?_reading reading
  · exact isMissing_of_missing?_blocks blocks

/-! ### Comparisons at hand -/

/-- In the middle of a comparison, the last tokens read are those of the comparison. -/
def Reading.Recalls (read : List Token) : Reading → Prop
  | .comparison _ first => ∃ front, read = front ++ [first.token]
  | .right _ first op previous =>
    ∃ front, read = front ++ [first.token, previous] ∧ previous.kind = .compare op
  | _ => True

/-- The tokens read so far are those that the state has in mind. -/
def State.Recalls (read : List Token) (s : State) : Prop :=
  ∀ head b r, s.phase = .inCode head b r → r.Recalls read

theorem token_of_operandAt {slot : Slot} {t : Token} {o : Operand}
    (h : operandAt slot t = .ok o) : o.token = t := by
  unfold operandAt operand? at h
  split at h
  · next found =>
    split at h
    · cases h
    · split at found <;> cases found <;> cases h <;> rfl
  · cases h

theorem recalls_acceptStatement {read : List Token} {b b' : Blocks} {r' : Reading} {t : Token}
    (h : acceptStatement b t = .ok (b', r')) : r'.Recalls read := by
  unfold acceptStatement at h
  split at h
  case h_11 =>
    unfold beginChoice at h
    split at h <;> cases h <;> trivial
  case h_12 | h_13 =>
    split at h
    · cases h
      trivial
    · cases h
  case h_14 => cases h
  all_goals
    cases h
    trivial

theorem Reading.Recalls.step {read : List Token} {b b' : Blocks} {r r' : Reading} {t : Token}
    (before : r.Recalls read) (h : acceptReading b r t = .ok (b', r')) :
    r'.Recalls (read ++ [t]) := by
  cases r with
  | statement => exact recalls_acceptStatement h
  | left header previous =>
    obtain ⟨operand, found, eq⟩ := exists_of_bind_eq_ok h
    cases eq
    exact ⟨read, by rw [token_of_operandAt found]⟩
  | comparison header left =>
    obtain ⟨front, rfl⟩ := before
    simp only [acceptReading] at h
    split at h
    · next kind =>
      cases h
      exact ⟨front, by simp, kind⟩
    · cases h
  | right header left op previous =>
    obtain ⟨next, found, eq⟩ := exists_of_bind_eq_ok h
    cases eq
    obtain ⟨operand, -, eq⟩ := exists_of_bind_eq_ok found
    split at eq
    · cases eq
    · cases eq
      trivial
  | connective header last =>
    simp only [acceptReading] at h
    split at h
    case h_3 => cases h
    all_goals
      cases h
      trivial
  | exitValue | target | source | counter | limit | increment =>
    obtain ⟨operand, -, eq⟩ := exists_of_bind_eq_ok h
    cases eq
    trivial
  | jumpLabel | firstSemicolon | secondSemicolon | rangeIn =>
    simp only [acceptReading] at h
    split at h
    · cases h
      trivial
    · cases h

theorem State.Recalls.accept {read : List Token} {s s' : State} {t : Token}
    (before : s.Recalls read) (h : s.accept t = .ok s') : s'.Recalls (read ++ [t]) := by
  obtain ⟨data?, code?, reports, phase⟩ := s
  cases phase with
  | outside =>
    simp only [State.accept] at h
    split at h
    · split at h <;> cases h
      intro head b r inCode
      cases inCode
    · split at h <;> cases h
      intro head b r inCode
      cases inCode
      trivial
    · cases h
  | inData head ds d =>
    obtain ⟨next, -, eq⟩ := exists_of_bind_eq_ok h
    cases eq
    intro head b r inCode
    cases inCode
  | inCode head b r =>
    obtain ⟨next, accepted, eq⟩ := exists_of_bind_eq_ok h
    cases eq
    intro head b' r' inCode
    cases inCode
    exact (before head b r rfl).step accepted

/-- An accepted token is the last one that the state has in mind. -/
theorem State.Recalls.step {read : List Token} {s s' : State} {t : Token}
    (before : s.Recalls read) (h : s.step t = .ok s') : s'.Recalls (read ++ [t]) := by
  refine State.Recalls.accept ?_ h
  rcases settle_cases s t with same | outside
  · rw [same]
    exact before
  · intro head b r inCode
    rw [outside] at inCode
    cases inCode

theorem Reaches.recalls {s last : State} {ts : List Token} (h : Reaches s ts last)
    {read : List Token} (before : s.Recalls read) : last.Recalls (read ++ ts) := by
  induction h generalizing read with
  | refl s =>
    rw [List.append_nil]
    exact before
  | cons h _ ih =>
    rw [List.append_cons]
    exact ih (before.step h)

/-! ### Completions -/

/-- Some token of the given kind. -/
def anyToken (k : Kind) : Token := ⟨k, [], .none, ⟨0, 0, Int.le_refl 0⟩⟩

/-- The kinds of tokens that end the statement at hand, or its head. -/
def Reading.due : Reading → List Kind
  | .statement => []
  | .exitValue _ => [.reg]
  | .target _ _ => [.reg, .reg]
  | .source _ _ _ => [.reg]
  | .jumpLabel _ => [.label]
  | .left _ _ => [.reg, .compare .eq, .reg, .word .in_]
  | .comparison _ _ => [.compare .eq, .reg, .word .in_]
  | .right _ _ _ _ => [.reg, .word .in_]
  | .connective _ _ => [.word .in_]
  | .counter _ => [.reg, .semicolon, .reg, .semicolon, .reg, .word .in_]
  | .firstSemicolon _ _ => [.semicolon, .reg, .semicolon, .reg, .word .in_]
  | .limit _ _ _ => [.reg, .semicolon, .reg, .word .in_]
  | .secondSemicolon _ _ _ => [.semicolon, .reg, .word .in_]
  | .increment _ _ _ _ => [.reg, .word .in_]
  | .rangeIn _ _ _ _ => [.word .in_]

/-- The kinds of tokens that end the declaration at hand. -/
def Declaring.due : Declaring → List Kind
  | .declaration => []
  | .value _ => [.query]
  | .enumName _ => [.name, .word .end_]
  | .member _ _ _ _ => [.word .end_]
  | .index _ _ _ _ _ => [.word .end_]

theorem operandAt_reg (slot : Slot) :
    operandAt slot (anyToken .reg) = .ok ⟨anyToken .reg, .register []⟩ := by
  simp [operandAt, operand?, anyToken]

/-- A token that is due is accepted, and leaves one token less to be due. -/
theorem acceptReading_due {r : Reading} {k : Kind} {ks : List Kind} (h : r.due = k :: ks)
    (b : Blocks) : ∃ b' r', acceptReading b r (anyToken k) = .ok (b', r') ∧ r'.due = ks := by
  cases r with
  | statement => cases h
  | right header left op previous =>
    cases h
    -- the register cannot clash with the left operand
    have apart : ¬ (left.token.kind = .int ∧ (anyToken .reg).kind = .int) := by simp [anyToken]
    simp only [acceptReading, acceptRight, operandAt_reg, bind, Except.bind, if_neg apart]
    exact ⟨_, _, rfl, rfl⟩
  | exitValue | target | source | left | counter | limit | increment =>
    cases h
    simp only [acceptReading, operandAt_reg]
    exact ⟨_, _, rfl, rfl⟩
  | jumpLabel | comparison | connective | firstSemicolon | secondSemicolon | rangeIn =>
    cases h
    exact ⟨_, _, rfl, rfl⟩

theorem acceptDeclaring_due {d : Declaring} {k : Kind} {ks : List Kind} (h : d.due = k :: ks)
    (ds : List Node) :
    ∃ ds' d', acceptDeclaring ds d (anyToken k) = .ok (ds', d') ∧ d'.due = ks := by
  cases d with
  | declaration => cases h
  | _ =>
    cases h
    exact ⟨_, _, rfl, rfl⟩

/-- What is due ends the declaration, and with it the section can end. -/
theorem exists_completion_data (s : State) (head : Token) (ds : List Node) (d : Declaring) :
    ∃ us p, Accepts (declaring s head ds d) us p := by
  generalize due : d.due = ks
  induction ks generalizing ds d with
  | nil =>
    cases d with
    | declaration => exact ⟨[], _, rfl⟩
    | _ => cases due
  | cons k ks ih =>
    obtain ⟨ds', d', accepted, due'⟩ := acceptDeclaring_due due ds
    obtain ⟨us, p, h⟩ := ih ds' d' due'
    refine ⟨anyToken k :: us, p, ?_⟩
    rw [Accepts, run_declaring accepted]
    exact h

/-- Every open block can be ended, and the section with the last one. -/
theorem exists_completion_blocks (s : State) (head : Token) (b : Blocks) :
    ∃ us p, Accepts (coding s head b .statement) us p := by
  obtain ⟨body, frames⟩ := b
  induction frames generalizing body with
  | nil => exact ⟨[], _, rfl⟩
  | cons frame frames ih =>
    obtain ⟨us, p, h⟩ := ih (frame.before ++ [frame.opener.close body])
    refine ⟨anyToken (.word .end_) :: us, p, ?_⟩
    have accepted : acceptReading ⟨body, frame :: frames⟩ .statement (anyToken (.word .end_)) =
        .ok (⟨frame.before ++ [frame.opener.close body], frames⟩, .statement) := rfl
    rw [Accepts, run_coding accepted]
    exact h

/-- What is due ends the statement or its head, and only blocks are left to be ended. -/
theorem exists_completion_code (s : State) (head : Token) (b : Blocks) (r : Reading) :
    ∃ us p, Accepts (coding s head b r) us p := by
  generalize due : r.due = ks
  induction ks generalizing b r with
  | nil =>
    cases r with
    | statement => exact exists_completion_blocks s head b
    | _ => cases due
  | cons k ks ih =>
    obtain ⟨b', r', accepted, due'⟩ := acceptReading_due due b
    obtain ⟨us, p, h⟩ := ih b' r' due'
    refine ⟨anyToken k :: us, p, ?_⟩
    rw [Accepts, run_coding accepted]
    exact h

/-- Every state can be completed to a program. -/
theorem exists_completion (s : State) : ∃ us p, Accepts s us p := by
  obtain ⟨data?, code?, reports, phase⟩ := s
  cases phase with
  | outside => exact ⟨[], _, rfl⟩
  | inData head ds d =>
    exact exists_completion_data ⟨data?, code?, reports, .outside⟩ head ds d
  | inCode head b r =>
    exact exists_completion_code ⟨data?, code?, reports, .outside⟩ head b r

/-! ### Correct prefixes -/

/-- Some further tokens complete the given ones to a program. -/
def Completable (ts : List Token) : Prop :=
  ∃ us p, (Program.ofTokens (ts ++ us)).result = .ok p

theorem Reaches.completable {ts : List Token} {last : State} (h : Reaches .initial ts last) :
    Completable ts := by
  obtain ⟨us, p, accepted⟩ := exists_completion last
  refine ⟨us, p, ?_⟩
  rw [Program.ofTokens, h.run_append]
  exact accepted

/-- Fewer tokens can be completed by the ones left out. -/
theorem Completable.of_isPrefix {ts us : List Token} (h : Completable us) (le : ts <+: us) :
    Completable ts := by
  obtain ⟨rest, rfl⟩ := le
  obtain ⟨more, p, accepted⟩ := h
  exact ⟨rest ++ more, p, by rwa [← List.append_assoc]⟩

/-- After a token that is not accepted, the outcome is settled. -/
theorem Reaches.result_of_error {before : List Token} {last : State} {t : Token} {e : ParseError}
    (h : Reaches .initial before last) (stop : last.step t = .error e) (us : List Token) :
    (Program.ofTokens (before ++ t :: us)).result = .error e := by
  rw [Program.ofTokens, h.run_append, run_cons_of_error us stop]

theorem Reaches.not_completable {before : List Token} {last : State} {t : Token} {e : ParseError}
    (h : Reaches .initial before last) (stop : last.step t = .error e) (after : List Token) :
    ¬ Completable (before ++ t :: after) := by
  rintro ⟨us, p, accepted⟩
  rw [List.append_assoc, List.cons_append, h.result_of_error stop] at accepted
  cases accepted

/-- The shortest prefix that cannot be completed ends with the given token. -/
def BreaksAt (ts before : List Token) (t : Token) : Prop :=
  before ++ [t] <+: ts ∧ ¬ Completable (before ++ [t]) ∧ ∀ us, us <+: before → Completable us

/-- The error covers a comparison of two literals at the end of the given tokens. -/
def CoversComparison (e : SyntaxError) (before : List Token) (t : Token) : Prop :=
  ∃ front left comparison op, before = front ++ [left, comparison] ∧ left.kind = .int ∧
    comparison.kind = .compare op ∧ t.kind = .int ∧ e.position = left.position ∧
    e.length = distance left.span.start t.span.stop

/-- What an error says about the token that was not accepted. -/
theorem located_of_step_error {before : List Token} {last : State} {t : Token} {e : ParseError}
    (reached : Reaches .initial before last) (stop : last.step t = .error e) :
    e.fault.isMissing = false ∧
    (e.fault ≠ .twoLiterals → e.syntaxError = t.syntaxError e.syntaxError.message) ∧
    (e.fault = .twoLiterals → CoversComparison e.syntaxError before t) := by
  rcases step_error stop with ⟨fault, rfl, misfit⟩ | clashes
  · refine ⟨ParseFault.isMissing_of_isMisfit misfit, fun _ => rfl, fun two => ?_⟩
    rw [show fault = .twoLiterals from two] at misfit
    cases misfit
  · obtain ⟨head, b, header, left, op, previous, inCode, hl, ht, rfl⟩ := clashes
    have empty : State.initial.Recalls [] := by
      intro head b r inCode
      cases inCode
    obtain ⟨front, read, comparison⟩ := reached.recalls empty head b _ inCode
    refine ⟨rfl, fun other => absurd rfl other, fun _ => ?_⟩
    exact ⟨front, left.token, previous, op, read, hl, comparison, ht, rfl, rfl⟩

/-- The parser rejects tokens either since something is missing, and then they can be completed, or
at the first token that no program continues with, and then whatever follows. -/
theorem correct_prefix {ts : List Token} {e : ParseError}
    (h : (Program.ofTokens ts).result = .error e) :
    (Text.ofString "missing " <+: e.syntaxError.message ↔ Completable ts) ∧
    (¬ Text.ofString "missing " <+: e.syntaxError.message →
      (∀ us, ∃ e', (Program.ofTokens (ts ++ us)).result = .error e' ∧
        e'.syntaxError = e.syntaxError) ∧
      ∃ before t, BreaksAt ts before t ∧
        (e.syntaxError.message ≠ Text.ofString "both sides can't be values" →
          e.syntaxError = t.syntaxError e.syntaxError.message) ∧
        (e.syntaxError.message = Text.ofString "both sides can't be values" →
          CoversComparison e.syntaxError before t)) := by
  rcases reaches_or_stops .initial ts with ⟨last, reached⟩ |
    ⟨before, t, after, last, e', rfl, reached, stop⟩
  · have missing : Text.ofString "missing " <+: e.syntaxError.message := by
      refine ParseFault.missing_isPrefix_message_iff.mpr (finish_error (s := last) ?_)
      rw [← run_nil, ← reached.run_append [], List.append_nil]
      exact h
    exact ⟨iff_of_true missing reached.completable, fun present => absurd missing present⟩
  · rw [reached.result_of_error stop] at h
    cases h
    obtain ⟨present, single, double⟩ := located_of_step_error reached stop
    have words : ¬ Text.ofString "missing " <+: e.syntaxError.message := by
      intro missing
      rw [ParseFault.missing_isPrefix_message_iff.mp missing] at present
      cases present
    refine ⟨iff_of_false words (reached.not_completable stop after), fun _ => ⟨fun us => ?_, ?_⟩⟩
    · refine ⟨e, ?_, rfl⟩
      rw [List.append_assoc, List.cons_append]
      exact reached.result_of_error stop _
    · refine ⟨before, t, ⟨⟨after, by simp⟩, reached.not_completable stop [], fun us le => ?_⟩,
        fun other => single ?_, fun two => double ?_⟩
      · exact reached.completable.of_isPrefix le
      · intro two
        exact other (ParseFault.message_eq_twoLiterals_iff.mpr two)
      · exact ParseFault.message_eq_twoLiterals_iff.mp two

/-- The head of a loop `while 1 == 2` in a code section. -/
def literalComparison : List Token :=
  [anyToken .code, anyToken (.word .while_), anyToken .int, anyToken (.compare .eq), anyToken .int]

/-- A comparison of two literals is an error that nothing can repair. -/
theorem correct_prefix_literals :
    (Program.ofTokens literalComparison).result =
      .error ⟨.twoLiterals, anyToken .int, anyToken .int⟩ ∧
    ¬ Completable literalComparison ∧ ∃ before t, BreaksAt literalComparison before t ∧
      CoversComparison ⟨.none, 0, ParseFault.twoLiterals.message⟩ before t := by
  have rejected : (Program.ofTokens literalComparison).result =
      .error ⟨.twoLiterals, anyToken .int, anyToken .int⟩ := rfl
  obtain ⟨missing, present⟩ := correct_prefix rejected
  have words : ¬ Text.ofString "missing " <+: ParseFault.twoLiterals.message := by
    rw [ParseFault.missing_isPrefix_message_iff]
    decide
  obtain ⟨-, before, t, breaks, -, covers⟩ := present words
  exact ⟨rejected, fun completable => words (missing.mpr completable), before, t, breaks,
    covers rfl⟩

end Parser

end XtAsm
