import XtAsm.Proofs.Grammar.Completeness
import XtAsm.Proofs.Parser.CorrectPrefix
import XtAsm.Proofs.Stateful.Parser

/-!
# Recursive descent and the states of the parser

The procedures of the recursive parser and the states of the parser that takes one token at a time
read the same phrases.

* `Agrees`: a procedure yields what the states lead to, phrase by phrase;
* `agrees_demand`, `Agrees.bind`: the rules by which procedures are put together;
* `blocksAgree_and_choicesAgree`: the nested phrases, by induction on the bound;
* `exists_runs_parse`: whatever is left in the registers from before, the recursive parser comes to
  an end, meets all preconditions, and reads what `Program.ofTokens` reads, with the same reports.
-/

namespace XtAsm.Parser

open Grammar

/-! ### Agreement with the states of the parser -/

/-- The attempt agrees with an outcome: it yields a value, and the outcome is that of the tokens
after those it has read, in the state that the value leads to; or it finds the defect that is the
outcome.  The reports of the outcome follow those in the sink. -/
def Agrees {α : Type} (sink : List Report) (x : Parse α) (reports : List Report) (ts : List Token)
    (o : Outcome) (next : α → State) : Prop :=
  ∀ before,
    (∃ a w rest, ts = w ++ rest ∧
      Yields x (between before ts (sink ++ reports)) (.ok a)
        (between (before ++ w) rest (sink ++ (next a).reports)) ∧
      o = run (next a) rest) ∨
    (∃ e p, Yields x (between before ts (sink ++ reports)) (.error e) p ∧
      p.reports = sink ++ o.reports ∧ o.result = .error e)

section Agrees

variable {α β : Type} {sink reports : List Report} {ts : List Token} {o : Outcome}

theorem agrees_pure {a : α} {next : α → State} (same : (next a).reports = reports)
    (outcome : o = run (next a) ts) : Agrees sink (pure a) reports ts o next := by
  intro before
  refine .inl ⟨a, [], ts, rfl, ?_, outcome⟩
  rw [same, List.append_nil]
  exact yields_pure _ _

theorem agrees_throw {e : ParseError} {next : α → State} (outcome : o = ⟨reports, .error e⟩) :
    Agrees sink (throw e) reports ts o next := by
  intro before
  subst outcome
  exact .inr ⟨e, _, yields_throw _ _, rfl, rfl⟩

/-- Attempts in a row.  The second one starts where the first one has ended. -/
theorem Agrees.bind_of_yields {x : Parse α} {f : α → Parse β} {next : α → State}
    {next' : β → State} (hx : Agrees sink x reports ts o next)
    (hf : ∀ a before w rest, ts = w ++ rest →
      Yields x (between before ts (sink ++ reports)) (.ok a)
        (between (before ++ w) rest (sink ++ (next a).reports)) →
      Agrees sink (f a) (next a).reports rest (run (next a) rest) next') :
    Agrees sink (x >>= f) reports ts o next' := by
  intro before
  rcases hx before with ⟨a, w, rest, split, first, rfl⟩ | ⟨e, p, first, same, failed⟩
  · rcases hf a before w rest split first (before ++ w) with
      ⟨b, v, rest, rfl, second, outcome⟩ | ⟨e, p, second, failed⟩
    · refine .inl ⟨b, w ++ v, rest, by rw [split, List.append_assoc], ?_, outcome⟩
      rw [← List.append_assoc before]
      exact first.bind second
    · exact .inr ⟨e, p, first.bind second, failed⟩
  · exact .inr ⟨e, p, first.bind_error f, same, failed⟩

theorem Agrees.bind {x : Parse α} {f : α → Parse β} {next : α → State} {next' : β → State}
    (hx : Agrees sink x reports ts o next)
    (hf : ∀ a rest, rest.length ≤ ts.length →
      Agrees sink (f a) (next a).reports rest (run (next a) rest) next') :
    Agrees sink (x >>= f) reports ts o next' := by
  refine hx.bind_of_yields fun a before w rest split _ => hf a rest ?_
  simp [split]

/-- What follows a demand has one token less to read. -/
theorem Agrees.bind_demand {missing : ParseError} {judge : Token → Except ParseError α}
    {f : α → Parse β} {next : α → State} {next' : β → State}
    (hx : Agrees sink (demand missing judge) reports ts o next)
    (hf : ∀ a rest, rest.length < ts.length →
      Agrees sink (f a) (next a).reports rest (run (next a) rest) next') :
    Agrees sink (demand missing judge >>= f) reports ts o next' := by
  refine hx.bind_of_yields fun a before w rest split met => hf a rest ?_
  have one := length_of_yields_demand met
  rw [split]
  simp only [List.length_append] at one ⊢
  omega

/-- An attempt that only reads the next token, and what follows it. -/
theorem Agrees.after_token {x : Parse α} {f : α → Parse β} {next : β → State} {t : Token} {a : α}
    (hx : ∀ before r, Yields x (between before (t :: ts) r) (.ok a) (between (before ++ [t]) ts r))
    (hf : Agrees sink (f a) reports ts o next) :
    Agrees sink (x >>= f) reports (t :: ts) o next := by
  intro before
  have first := hx before (sink ++ reports)
  rcases hf (before ++ [t]) with ⟨b, w, rest, rfl, second, outcome⟩ | ⟨e, p, second, failed⟩
  · refine .inl ⟨b, t :: w, rest, rfl, ?_, outcome⟩
    rw [List.append_cons]
    exact first.bind second
  · exact .inr ⟨e, p, first.bind second, failed⟩

/-- An attempt that looks ahead, and what follows it. -/
theorem Agrees.after_look {x : Parse α} {f : α → Parse β} {next : β → State} {a : α}
    (hx : ∀ before r, Yields x (between before ts r) (.ok a) (between before ts r))
    (hf : Agrees sink (f a) reports ts o next) : Agrees sink (x >>= f) reports ts o next := by
  intro before
  have first := hx before (sink ++ reports)
  rcases hf before with ⟨b, w, rest, split, second, outcome⟩ | ⟨e, p, second, failed⟩
  · exact .inl ⟨b, w, rest, split, first.bind second, outcome⟩
  · exact .inr ⟨e, p, first.bind second, failed⟩

/-- A demand for a token agrees with a state that waits for one. -/
theorem agrees_demand {s : State} {missing : ParseError} {judge : Token → Except ParseError α}
    {next : α → State} (waits : s.finish = ⟨s.reports, .error missing⟩)
    (settled : ∀ t, s.settle t = s) (accepts : ∀ t, s.accept t = (judge t).map next)
    (same : ∀ a, (next a).reports = s.reports) :
    Agrees sink (demand missing judge) s.reports ts (run s ts) next := by
  intro before
  cases ts with
  | nil =>
    rw [run_nil, waits]
    exact .inr ⟨missing, _, yields_demand_nil before _ missing judge, rfl, rfl⟩
  | cons t ts =>
    have demanded := yields_demand_cons before ts t (sink ++ s.reports) missing judge
    have accepted := accepts t
    cases judged : judge t with
    | ok a =>
      rw [judged] at demanded accepted
      rw [← settled t] at accepted
      refine .inl ⟨a, [t], ts, rfl, ?_, run_cons_of_ok ts accepted⟩
      rw [same a]
      exact demanded
    | error e =>
      rw [judged] at demanded accepted
      rw [← settled t] at accepted
      rw [run_cons_of_error ts accepted, settled t]
      exact .inr ⟨e, _, demanded, rfl, rfl⟩

end Agrees

/-! ### Conditions -/

section Code

variable {α : Type} {sink : List Report} {s : State} {head : Token} {b : Blocks} {ts : List Token}

/-- Within a statement. -/
theorem agrees_reading {r : Reading} {missing : ParseError} {judge : Token → Except ParseError α}
    {blocks : α → Blocks} {reading : α → Reading} (waits : r.missing? = some missing)
    (accepts : ∀ t, acceptReading b r t = (judge t).map fun a => (blocks a, reading a)) :
    Agrees sink (demand missing judge) s.reports ts (run (coding s head b r) ts)
      (fun a => coding s head (blocks a) (reading a)) := by
  refine agrees_demand (s := coding s head b r) ?_ ?_ ?_ fun _ => rfl
  · simp [State.finish, coding, waits]
  · exact fun t => settle_of_missing (by simp [waits])
  · intro t
    rw [accept_coding, accepts t]
    cases judge t <;> rfl

theorem agrees_operand {r : Reading} {previous : Token} {slot : Slot} {blocks : Operand → Blocks}
    {reading : Operand → Reading}
    (waits : r.missing? = some (.atToken previous (.missingOperand slot)))
    (accepts : ∀ t, acceptReading b r t =
      operandAt slot t >>= fun o => pure (blocks o, reading o)) :
    Agrees sink (parseOperand previous slot) s.reports ts (run (coding s head b r) ts)
      (fun o => coding s head (blocks o) (reading o)) := by
  refine agrees_reading waits fun t => ?_
  rw [accepts]
  cases operandAt slot t <;> rfl

theorem agrees_condition (header : Header) (previous : Token) :
    Agrees sink (parseCondition previous) s.reports ts
      (run (coding s head b (.left header previous)) ts)
      (fun c => coding s head b (.connective (header.addCondition c.1) c.2)) := by
  have comparison : ∀ left t, acceptReading b (.comparison header left) t =
      (comparisonAt t).map fun sign => (b, .right header left sign.1 sign.2) := by
    intro left t
    simp only [acceptReading, comparisonAt]
    cases t.kind <;> rfl
  have right : ∀ left op sign t, acceptReading b (.right header left op sign) t =
      (rightAt left t).map fun right => (b, .connective
        (header.addCondition (.mk (.ofRelation op) left.node right.node)) right.token) := by
    intro left op sign t
    simp only [acceptReading, acceptRight, rightAt]
    cases operand : operandAt .conditionRight t with
    | error e => rfl
    | ok right =>
      rw [← token_of_operandAt operand]
      by_cases literals : left.token.kind = .int ∧ right.token.kind = .int
      · simp only [bind, Except.bind, if_pos literals]
        rfl
      · simp only [bind, Except.bind, if_neg literals]
        rfl
  refine (agrees_operand rfl fun _ => rfl).bind fun left rest _ => ?_
  refine (agrees_reading rfl (comparison left)).bind fun (op, sign) rest _ => ?_
  refine (agrees_reading rfl (right left op sign)).bind fun right rest _ => ?_
  exact agrees_pure rfl rfl

/-- The state after a condition and what follows it. -/
def afterConnective (s : State) (head : Token) (b : Blocks) (header : Header) :
    Option Junction × Token → State
  | (some j, t) => coding s head b (.left (header.addConnective j) t)
  | (none, _) => coding s head (b.enter header.opener) .statement

theorem agrees_connective (header : Header) (last : Token) :
    Agrees sink
      (demand (.atToken last (.missingIn header.keyword.text)) (connectiveAt header.keyword))
      s.reports ts (run (coding s head b (.connective header last)) ts)
      (afterConnective s head b header) := by
  refine agrees_demand (s := coding s head b (.connective header last)) rfl
    (fun t => settle_of_missing (by simp [Reading.missing?])) (fun t => ?_) ?_
  · rw [accept_coding]
    simp only [acceptReading, connectiveAt]
    cases t.kind with
    | word w => cases w <;> rfl
    | _ => rfl
  · rintro ⟨_ | j, t⟩ <;> rfl

/-- The head with all its conditions. -/
def Header.withChain (h : Header) (chain : Chain) : Header := { h with chain }

theorem agrees_conditions {n : Nat} (short : ts.length < n) (header : Header)
    (previous : Token) :
    Agrees sink (parseConditions n header.keyword header.chain previous) s.reports ts
      (run (coding s head b (.left header previous)) ts)
      (fun chain => coding s head (b.enter (header.withChain chain).opener) .statement) := by
  induction n generalizing header previous ts with
  | zero => exact absurd short (Nat.not_lt_zero _)
  | succ n ih =>
    rw [parseConditions]
    refine (agrees_condition header previous).bind fun (c, last) rest le => ?_
    refine (agrees_connective (header.addCondition c) last).bind_demand
      fun (j?, t) rest' shorter => ?_
    cases j? with
    | none => exact agrees_pure rfl rfl
    | some j => exact ih (by omega) ((header.addCondition c).addConnective j) t

/-! ### Statements -/

theorem agrees_exit (keyword : Token) :
    Agrees sink (parseExit keyword) s.reports ts (run (coding s head b (.exitValue keyword)) ts)
      (fun n => coding s head (b.push n) .statement) :=
  (agrees_operand rfl fun _ => rfl).bind fun _ _ _ => agrees_pure rfl rfl

theorem agrees_assign (op : Mnemonic) (keyword : Token) :
    Agrees sink (parseAssign op keyword) s.reports ts
      (run (coding s head b (.target op keyword)) ts)
      (fun n => coding s head (b.push n) .statement) := by
  refine (agrees_operand rfl fun _ => rfl).bind fun first rest _ => ?_
  exact (agrees_operand rfl fun _ => rfl).bind fun _ _ _ => agrees_pure rfl rfl

/-- A token of one kind only. -/
theorem agrees_expect {r : Reading} {previous : Token} {kind : Kind} {missing : ParseFault}
    {misfit : Text → ParseFault} (blocks : Token → Blocks) (reading : Token → Reading)
    (waits : r.missing? = some (.atToken previous missing))
    (fits : ∀ t, t.kind = kind → acceptReading b r t = .ok (blocks t, reading t))
    (other : ∀ t, t.kind ≠ kind →
      acceptReading b r t = .error (.atToken t (misfit t.text))) :
    Agrees sink (expect previous kind missing misfit) s.reports ts (run (coding s head b r) ts)
      (fun t => coding s head (blocks t) (reading t)) := by
  refine agrees_reading waits fun t => ?_
  by_cases h : t.kind = kind
  · rw [fits t h, kindAt, if_pos h]
    rfl
  · rw [other t h, kindAt, if_neg h]
    rfl

theorem agrees_jump (keyword : Token) :
    Agrees sink (parseJump keyword) s.reports ts (run (coding s head b (.jumpLabel keyword)) ts)
      (fun n => coding s head (b.push n) .statement) := by
  refine (agrees_expect (fun t => b.push (.jump t.text)) (fun _ => .statement) rfl
    (fun t h => ?_) (fun t h => ?_)).bind fun _ _ _ => agrees_pure rfl rfl
  · simp only [acceptReading, h]
  · simp only [acceptReading]

/-- The tokens that end a block. -/
def Opener.ends : Opener → List Kind
  | .thenBranch _ _ _ => [.word .else_, .word .end_]
  | _ => [.word .end_]

/-- The state after a block and the token that ends it. -/
def afterBlock (s : State) (head : Token) (frame : Frame) (frames : List Frame) :
    List Node × Token → State
  | (body, t) =>
    match frame.opener with
    | .thenBranch _ chain outer =>
      if t.kind = .word .end_ then
        coding s head ⟨frame.before ++ [frame.opener.close body], frames⟩ .statement
      else
        coding s head ⟨[], ⟨.elseBranch t chain outer body, frame.before⟩ :: frames⟩ .statement
    | _ => coding s head ⟨frame.before ++ [frame.opener.close body], frames⟩ .statement

/-- The token ends the innermost block, or the section. -/
def Ends (b : Blocks) (t : Token) : Prop :=
  match b.frames with
  | [] => t.kind = .data
  | frame :: _ => t.kind ∈ frame.opener.ends

/-- Statements are read alike from fewer tokens than the bound. -/
def StatementsAgree (sink : List Report) (s : State) (head : Token) (n : Nat) : Prop :=
  ∀ ts : List Token, ts.length < n → ∀ b t, ¬ Ends b t → Fits b [t] →
    Agrees sink (parseStatement n t) s.reports ts (run (coding s head b .statement) (t :: ts))
      (fun m => coding s head (b.push m) .statement)

/-- Blocks are read alike from fewer tokens than the bound. -/
def BlocksAgree (sink : List Report) (s : State) (head : Token) (n : Nat) : Prop :=
  ∀ ts : List Token, ts.length < n → ∀ frame frames body, Fits ⟨body, frame :: frames⟩ ts →
    Agrees sink (parseBlock n frame.opener.keyword frame.opener.ends body) s.reports ts
      (run (coding s head ⟨body, frame :: frames⟩ .statement) ts) (afterBlock s head frame frames)

/-- Choices are read alike from fewer tokens than the bound. -/
def ChoicesAgree (sink : List Report) (s : State) (head : Token) (n : Nat) : Prop :=
  ∀ ts : List Token, ts.length < n → ∀ b keyword outer,
    Agrees sink (parseChoice n keyword) s.reports ts
      (run (coding s head b (.left ⟨.choice outer, keyword, ⟨[], []⟩⟩ keyword)) ts)
      (fun m => coding s head (b.push (Opener.enclose outer m)) .statement)

section Blocks

variable {n : Nat}

theorem agrees_loop (blocks : BlocksAgree sink s head n) (short : ts.length < n)
    (keyword : Token) :
    Agrees sink (parseLoop n keyword) s.reports ts
      (run (coding s head (b.enter (.loop keyword)) .statement) ts)
      (fun n => coding s head (b.push n) .statement) := by
  rw [parseLoop]
  refine (blocks ts short ⟨.loop keyword, b.body⟩ b.frames []
    (fits_of_not_afterElse (not_afterElse_enter (by simp)) ts)).bind fun _ _ _ => ?_
  exact agrees_pure rfl rfl

theorem agrees_while (blocks : BlocksAgree sink s head n) (short : ts.length < n)
    (keyword : Token) :
    Agrees sink (parseWhile n keyword) s.reports ts
      (run (coding s head b (.left ⟨.whileLoop, keyword, ⟨[], []⟩⟩ keyword)) ts)
      (fun n => coding s head (b.push n) .statement) := by
  rw [parseWhile]
  refine (agrees_conditions short ⟨.whileLoop, keyword, ⟨[], []⟩⟩ keyword).bind
    fun chain rest le => ?_
  refine (blocks rest (by omega) ⟨.whileLoop keyword chain, b.body⟩ b.frames []
    (fits_of_not_afterElse (not_afterElse_enter (by simp)) rest)).bind fun _ _ _ => ?_
  exact agrees_pure rfl rfl

theorem agrees_for (blocks : BlocksAgree sink s head n) (short : ts.length < n)
    (keyword : Token) :
    Agrees sink (parseFor n keyword) s.reports ts (run (coding s head b (.counter keyword)) ts)
      (fun n => coding s head (b.push n) .statement) := by
  rw [parseFor]
  refine (agrees_operand rfl fun _ => rfl).bind fun counter rest₁ le₁ => ?_
  refine (agrees_expect (fun _ => b) (fun t => .limit keyword counter t) rfl (fun t h => ?_)
    (fun t h => ?_)).bind fun semicolon rest₂ le₂ => ?_
  · simp only [acceptReading, h]
  · simp only [acceptReading]
  refine (agrees_operand rfl fun _ => rfl).bind fun limit rest₃ le₃ => ?_
  refine (agrees_expect (fun _ => b) (fun t => .increment keyword counter limit t) rfl
    (fun t h => ?_) (fun t h => ?_)).bind fun semicolon rest₄ le₄ => ?_
  · simp only [acceptReading, h]
  · simp only [acceptReading]
  refine (agrees_operand rfl fun _ => rfl).bind fun increment rest₅ le₅ => ?_
  refine (agrees_expect
    (fun _ => b.enter (.forLoop keyword counter.node limit.node increment.node))
    (fun _ => .statement) rfl (fun t h => ?_) (fun t h => ?_)).bind fun _ rest₆ le₆ => ?_
  · simp only [acceptReading, h]
  · simp only [acceptReading]
  refine (blocks rest₆ (by omega)
    ⟨.forLoop keyword counter.node limit.node increment.node, b.body⟩ b.frames []
    (fits_of_not_afterElse (not_afterElse_enter (by simp)) rest₆)).bind fun _ _ _ => ?_
  exact agrees_pure rfl rfl

theorem choicesAgree_succ (blocks : BlocksAgree sink s head (n + 1))
    (choices : ChoicesAgree sink s head n) : ChoicesAgree sink s head (n + 1) := by
  intro ts short b keyword outer
  rw [parseChoice]
  refine (agrees_conditions short ⟨.choice outer, keyword, ⟨[], []⟩⟩ keyword).bind
    fun chain rest le => ?_
  refine (blocks rest (by omega) ⟨.thenBranch keyword chain outer, b.body⟩ b.frames []
    (fits_of_not_afterElse (not_afterElse_enter (by simp)) rest)).bind fun block rest le => ?_
  obtain ⟨body, t⟩ := block
  by_cases ended : t.kind = .word .end_
  · simp only [afterBlock, if_pos ended]
    exact agrees_pure rfl rfl
  simp only [afterBlock, if_neg ended]
  refine Agrees.after_look (fun before r => yields_peek before rest r) ?_
  by_cases nested : rest.head?.any (fun t => t.kind = .word .if_) = true
  · -- the block of the `else` is given up for the choice that follows it
    rw [if_pos nested]
    cases rest with
    | nil => cases nested
    | cons u rest =>
      have kind : u.kind = .word .if_ := by simpa using nested
      have accepted : acceptReading
          ⟨[], ⟨.elseBranch t chain outer body, b.body⟩ :: b.frames⟩ .statement u =
          .ok (b, .left ⟨.choice (⟨chain, body⟩ :: outer), u, ⟨[], []⟩⟩ u) := by
        simp only [acceptReading, acceptStatement, kind]
        rfl
      rw [run_coding accepted]
      refine Agrees.after_token (fun before r => yields_advance_cons before rest u r) ?_
      refine Agrees.after_look (fun before r => yields_lift rfl _) ?_
      simp only [List.length_cons] at le
      exact (choices rest (by omega) b u _).bind fun _ _ _ => agrees_pure rfl rfl
  · rw [if_neg nested]
    have fits : Fits ⟨[], ⟨.elseBranch t chain outer body, b.body⟩ :: b.frames⟩ rest := by
      intro u hu kind
      exact absurd (by simp [Option.mem_def.1 hu, kind]) nested
    refine (blocks rest (by omega) ⟨.elseBranch t chain outer body, b.body⟩ b.frames []
      fits).bind fun _ _ _ => ?_
    exact agrees_pure rfl rfl

theorem statementsAgree (blocks : BlocksAgree sink s head n)
    (choices : ChoicesAgree sink s head n) : StatementsAgree sink s head n := by
  intro ts short b t inside fits
  have step : ∀ {b' r'}, acceptStatement b t = .ok (b', r') →
      run (coding s head b .statement) (t :: ts) = run (coding s head b' r') ts :=
    fun accepted => run_coding accepted
  have refuse : acceptStatement b t = .error (.atToken t (.notAnInstruction t.text)) →
      run (coding s head b .statement) (t :: ts) =
        ⟨s.reports, .error (.atToken t (.notAnInstruction t.text))⟩ := by
    intro refused
    have settled : (coding s head b .statement).settle t = coding s head b .statement := by
      rw [settle_statement, if_neg]
      rintro ⟨outside, data⟩
      exact inside (by rwa [Ends, outside])
    rw [run_cons_of_error ts (by rw [settled, accept_coding, acceptReading, refused]; rfl), settled]
    rfl
  rw [parseStatement]
  split
  · next kind =>
    rw [step (by simp only [acceptStatement, kind]; rfl)]
    exact agrees_pure rfl rfl
  · next kind =>
    rw [step (by simp only [acceptStatement, kind]; rfl)]
    exact agrees_while blocks short t
  · next kind =>
    rw [step (by simp only [acceptStatement, kind]; rfl)]
    exact agrees_for blocks short t
  · next kind =>
    rw [step (by simp only [acceptStatement, kind]; rfl)]
    exact agrees_loop blocks short t
  · next kind =>
    have own := beginChoice_of_not_afterElse (fits t rfl kind) t
    rw [step (by simp only [acceptStatement, kind, own]; rfl)]
    exact choices ts short b t []
  · next kind =>
    rw [step (by simp only [acceptStatement, kind]; rfl)]
    exact agrees_exit t
  · next kind =>
    rw [step (by simp only [acceptStatement, kind]; rfl)]
    exact agrees_assign .add t
  · next kind =>
    rw [step (by simp only [acceptStatement, kind]; rfl)]
    exact agrees_assign .sub t
  · next kind =>
    rw [step (by simp only [acceptStatement, kind]; rfl)]
    exact agrees_assign .mov t
  · next kind =>
    rw [step (by simp only [acceptStatement, kind]; rfl)]
    exact agrees_jump t
  · next kind =>
    rw [step (by simp only [acceptStatement, kind]; rfl)]
    exact agrees_pure rfl rfl
  · refine agrees_throw (refuse ?_)
    -- only an `else` or `end` that does not belong to the innermost block is left
    unfold acceptStatement
    split
    case h_12 kind =>
      split
      · next frames => exact absurd (by simp [Ends, frames, kind, Opener.ends]) inside
      · rfl
    case h_13 kind =>
      split
      · next opener _ _ frames =>
        refine absurd ?_ inside
        rw [Ends, frames, kind]
        cases opener <;> simp [Opener.ends]
      · rfl
    case h_14 => rfl
    all_goals contradiction

/-- A token that ends a block. -/
theorem run_ends {frame : Frame} {frames : List Frame} {body : List Node} {t : Token}
    (h : t.kind ∈ frame.opener.ends) (ts : List Token) :
    run (coding s head ⟨body, frame :: frames⟩ .statement) (t :: ts) =
      run (afterBlock s head frame frames (body, t)) ts := by
  have closes : t.kind = .word .end_ →
      run (coding s head ⟨body, frame :: frames⟩ .statement) (t :: ts) =
        run (coding s head ⟨frame.before ++ [frame.opener.close body], frames⟩ .statement) ts := by
    intro kind
    apply run_coding
    simp only [acceptReading, acceptStatement, kind]
  obtain ⟨opener, before⟩ := frame
  cases opener with
  | thenBranch keyword chain outer =>
    by_cases ended : t.kind = .word .end_
    · simp only [closes ended, afterBlock, if_pos ended]
    · have kind : t.kind = .word .else_ := by simpa [Opener.ends, ended] using h
      simp only [afterBlock, if_neg ended]
      exact run_coding (acceptReading_else kind)
  | _ => exact closes (by simpa [Opener.ends] using h)

theorem reports_afterBlock (frame : Frame) (frames : List Frame) (r : List Node × Token) :
    (afterBlock s head frame frames r).reports = s.reports := by
  obtain ⟨body, t⟩ := r
  simp only [afterBlock]
  split
  · split <;> rfl
  · rfl

theorem blocksAgree_succ (statements : StatementsAgree sink s head n)
    (blocks : BlocksAgree sink s head n) : BlocksAgree sink s head (n + 1) := by
  intro ts short frame frames body fits
  rw [parseBlock]
  cases ts with
  | nil =>
    intro before
    exact .inr ⟨_, _, (yields_demand_nil before _ _ _).bind_error _, rfl, rfl⟩
  | cons t ts =>
    refine Agrees.after_token (fun before r => yields_demand_cons before ts t r _ _) ?_
    simp only [List.length_cons] at short
    by_cases ends : t.kind ∈ frame.opener.ends
    · rw [if_pos ends, run_ends ends]
      exact agrees_pure (reports_afterBlock frame frames _) rfl
    · rw [if_neg ends]
      refine (statements ts (by omega) ⟨body, frame :: frames⟩ t ends fits).bind
        fun n rest le => ?_
      exact blocks rest (by omega) frame frames (body ++ [n])
        (fits_of_not_afterElse (not_afterElse_of_body (by simp)) rest)

/-- Blocks and choices are read alike under any bound, by induction on it: a block has a smaller
bound for its statements, and a statement the same one for its blocks. -/
theorem blocksAgree_and_choicesAgree (sink : List Report) (s : State) (head : Token) (n : Nat) :
    BlocksAgree sink s head n ∧ ChoicesAgree sink s head n := by
  induction n with
  | zero => exact ⟨fun _ short => absurd short (by simp), fun _ short => absurd short (by simp)⟩
  | succ n ih =>
    have blocks := blocksAgree_succ (statementsAgree ih.1 ih.2) ih.1
    exact ⟨blocks, choicesAgree_succ blocks ih.2⟩

/-- A statement is read alike. -/
theorem agrees_statement {t : Token} (short : ts.length < n) (inside : ¬ Ends b t)
    (fits : Fits b [t]) :
    Agrees sink (parseStatement n t) s.reports ts (run (coding s head b .statement) (t :: ts))
      (fun m => coding s head (b.push m) .statement) := by
  obtain ⟨blocks, choices⟩ := blocksAgree_and_choicesAgree sink s head n
  exact statementsAgree blocks choices ts short b t inside fits

end Blocks

end Code

/-! ### Declarations -/

section Data

variable {α : Type} {sink : List Report} {s : State} {head : Token} {ds : List Node}
  {ts : List Token}

/-- Within a declaration. -/
theorem agrees_declaring {d : Declaring} {missing : ParseError}
    {judge : Token → Except ParseError α} {declarations : α → List Node}
    {next : α → Declaring} (waits : d.missing? = some missing)
    (accepts : ∀ t, acceptDeclaring ds d t = (judge t).map fun a => (declarations a, next a)) :
    Agrees sink (demand missing judge) s.reports ts (run (declaring s head ds d) ts)
      (fun a => declaring s head (declarations a) (next a)) := by
  refine agrees_demand (s := declaring s head ds d) ?_ ?_ ?_ fun _ => rfl
  · simp [State.finish, declaring, waits]
  · exact fun t => settle_of_missing_declaring (by simp [waits])
  · intro t
    rw [accept_declaring, accepts t]
    cases judge t <;> rfl

theorem agrees_variable (name : Token) :
    Agrees sink (parseVariable name) s.reports ts (run (declaring s head ds (.value name)) ts)
      (fun n => declaring s head (ds ++ [n]) .declaration) := by
  refine agrees_declaring rfl fun t => ?_
  simp only [acceptDeclaring, valueAt]
  cases t.kind <;> rfl

/-- The value of a member is the one that stands there, or the next one in turn. -/
theorem agrees_index (keyword name member : Token) (members : List Variable) (next : Int) :
    Agrees sink (parseIndex member next) s.reports ts
      (run (declaring s head ds (.index keyword name members next member)) ts)
      (fun value => declaring s head ds (.member keyword name
        (members ++ [memberVariable name member value]) (Text.wrap64 (value + 1)))) := by
  refine Agrees.after_look (fun before r => yields_peek before ts r) ?_
  cases ts with
  | nil => exact agrees_pure rfl rfl
  | cons t ts =>
    by_cases int : t.kind = .int
    · rw [if_pos (by simpa using int)]
      refine Agrees.after_token (fun before r => yields_advance_cons before ts t r) ?_
      refine Agrees.after_look (fun before r => yields_lift rfl _) ?_
      cases value : Text.readInt t.text with
      | ok value =>
        rw [run_declaring (by simp only [acceptDeclaring, int, value]; rfl)]
        exact agrees_pure rfl rfl
      | error e =>
        refine agrees_throw (run_cons_of_error ts ?_)
        rw [settle_of_missing_declaring (by simp [Declaring.missing?]), accept_declaring]
        simp only [acceptDeclaring, int, value]
        rfl
    · rw [if_neg (by simpa using int), run_index int]
      exact agrees_pure rfl rfl

/-- The state after a member of an enumeration, or after its end. -/
def afterMember (s : State) (head : Token) (ds : List Node) (keyword name : Token)
    (members : List Variable) (next : Int) : Option Token → State
  | some member => declaring s head ds (.index keyword name members next member)
  | none => declaring s head (ds ++ [.enum name.text members]) .declaration

theorem agrees_members {n : Nat} (short : ts.length < n) (keyword name : Token)
    (members : List Variable) (next : Int) :
    Agrees sink (parseMembers n keyword name members next) s.reports ts
      (run (declaring s head ds (.member keyword name members next)) ts)
      (fun members => declaring s head (ds ++ [.enum name.text members]) .declaration) := by
  induction n generalizing members next ts with
  | zero => exact absurd short (Nat.not_lt_zero _)
  | succ n ih =>
    rw [parseMembers]
    have member : Agrees sink
        (demand (.atToken keyword (.missingEnumEnd name.text)) (memberAt name)) s.reports ts
        (run (declaring s head ds (.member keyword name members next)) ts)
        (afterMember s head ds keyword name members next) := by
      refine agrees_demand (s := declaring s head ds (.member keyword name members next)) rfl
        (fun t => rfl) (fun t => ?_) ?_
      · rw [accept_declaring]
        simp only [acceptDeclaring, acceptMember, memberAt]
        cases t.kind with
        | word w => cases w <;> rfl
        | _ => rfl
      · rintro (_ | m) <;> rfl
    refine member.bind_demand fun m? rest shorter => ?_
    cases m? with
    | none => exact agrees_pure rfl rfl
    | some m =>
      refine (agrees_index keyword name m members next).bind fun value rest' le => ?_
      exact ih (by omega) _ _

theorem agrees_enum {n : Nat} (short : ts.length < n) (keyword : Token) :
    Agrees sink (parseEnum n keyword) s.reports ts
      (run (declaring s head ds (.enumName keyword)) ts)
      (fun d => declaring s head (ds ++ [d]) .declaration) := by
  have name : ∀ t, acceptDeclaring ds (.enumName keyword) t =
      (kindAt .name .invalidEnumName t).map fun t => (ds, .member keyword t [] 0) := by
    intro t
    simp only [acceptDeclaring, kindAt]
    cases t.kind <;> rfl
  refine (agrees_declaring rfl name).bind fun name rest le => ?_
  exact (agrees_members (by omega) keyword name [] 0).bind fun _ _ _ => agrees_pure rfl rfl

/-- The report on a section, at its end. -/
theorem agrees_report {reports : List Report} {r : Report} {a : α} {o : Outcome}
    {next : α → State} (noted : (next a).reports = reports ++ [r])
    (outcome : o = run (next a) ts) :
    Agrees sink (report r >>= fun _ => pure a) reports ts o next := by
  intro before
  refine .inl ⟨a, [], ts, rfl, ?_, outcome⟩
  rw [noted, List.append_nil, ← List.append_assoc]
  exact (yields_report before ts _ r).bind (yields_pure _ _)

/-- The declarations of a data section are read alike, and what does not belong to it is left. -/
theorem agrees_data {n : Nat} (short : ts.length < n) :
    Agrees sink (parseData n head ds) s.reports ts (run (declaring s head ds .declaration) ts)
      (s.finishData head) := by
  induction n generalizing ds ts with
  | zero => exact absurd short (Nat.not_lt_zero _)
  | succ n ih =>
    rw [parseData]
    refine Agrees.after_look (fun before r => yields_peek before ts r) ?_
    cases ts with
    | nil => exact agrees_report rfl rfl
    | cons t ts =>
      refine Agrees.after_look (fun before r => yields_peek before (t :: ts) r) ?_
      refine Agrees.after_look (fun before r => yields_lift rfl _) ?_
      simp only [List.length_cons] at short
      split
      · next kind =>
        refine Agrees.after_token (fun before r => yields_advance_cons before ts t r) ?_
        rw [run_declaring (by simp only [acceptDeclaring, kind]; rfl)]
        exact (agrees_variable t).bind fun d rest le => ih (by omega)
      · next kind =>
        refine Agrees.after_token (fun before r => yields_advance_cons before ts t r) ?_
        rw [run_declaring (by simp only [acceptDeclaring, kind]; rfl)]
        exact (agrees_enum (by omega) t).bind fun d rest le => ih (by omega)
      · next notVar notEnum =>
        have other : ¬ startsDeclaration t = true := by
          unfold startsDeclaration
          split <;> simp_all
        refine agrees_report rfl ?_
        simp only [run, settle_declaration, if_neg other]
        rfl

theorem agrees_code {n : Nat} (short : ts.length < n) {ns : List Node} :
    Agrees sink (parseCode n head ns) s.reports ts (run (coding s head ⟨ns, []⟩ .statement) ts)
      (s.finishCode head) := by
  induction n generalizing ns ts with
  | zero => exact absurd short (Nat.not_lt_zero _)
  | succ n ih =>
    rw [parseCode]
    refine Agrees.after_look (fun before r => yields_peek before ts r) ?_
    cases ts with
    | nil => exact agrees_report rfl rfl
    | cons t ts =>
      simp only [List.length_cons] at short
      by_cases data : t.kind = .data
      · rw [if_neg (by simpa using data)]
        refine agrees_report rfl ?_
        simp only [run, settle_statement, data, and_self, if_true]
        rfl
      · rw [if_pos (by simpa using data)]
        refine Agrees.after_token (fun before r => yields_advance_cons before ts t r) ?_
        refine Agrees.after_look (fun before r => yields_lift rfl _) ?_
        have outermost : ¬ AfterElse ⟨ns, []⟩ := by
          rintro ⟨-, _, _, _, _, _, _, inside⟩
          cases inside
        exact (agrees_statement (b := ⟨ns, []⟩) (by omega) data
          (fits_of_not_afterElse outermost _)).bind fun m rest le => ih (by omega)

end Data

/-! ### Programs -/

/-- What follows a section starts in a state outside of all sections. -/
theorem Agrees.exists_yields {α : Type} {sink reports : List Report} {ts : List Token}
    {o : Outcome} {x : Parse α} {f : α → Parse Program} {next : α → State}
    (hx : Agrees sink x reports ts o next) (before : List Token)
    (hf : ∀ a before rest, rest.length ≤ ts.length →
      ∃ p, Yields (f a) (between before rest (sink ++ (next a).reports))
        (run (next a) rest).result p ∧ p.reports = sink ++ (run (next a) rest).reports) :
    ∃ p, Yields (x >>= f) (between before ts (sink ++ reports)) o.result p ∧
      p.reports = sink ++ o.reports := by
  rcases hx before with ⟨a, w, rest, rfl, first, rfl⟩ | ⟨e, p, first, same, failed⟩
  · obtain ⟨p, second, same⟩ := hf a (before ++ w) rest (by simp)
    exact ⟨p, first.bind second, same⟩
  · exact ⟨p, failed ▸ first.bind_error f, same⟩

/-- Outside of all sections, the rest of a program is read alike. -/
theorem exists_yields_parseSections {s : State} (outside : s.phase = .outside) (sink : List Report)
    {n : Nat} (before ts : List Token) (short : ts.length < n) :
    ∃ p, Yields (parseSections n s.data? s.code?) (between before ts (sink ++ s.reports))
      (run s ts).result p ∧ p.reports = sink ++ (run s ts).reports := by
  induction n generalizing s before ts with
  | zero => exact absurd short (Nat.not_lt_zero _)
  | succ n ih =>
    have settled : ∀ t, s.settle t = s := fun t => by rw [State.settle, outside]
    have peeked := yields_peek before ts (sink ++ s.reports)
    rw [parseSections]
    cases ts with
    | nil =>
      rw [run_nil, State.finish, outside]
      exact ⟨_, peeked.bind (yields_pure _ _), rfl⟩
    | cons t ts =>
      simp only [List.length_cons] at short
      have advanced := yields_advance_cons before ts t (sink ++ s.reports)
      have taken : Yields (liftM (present (some t)) : Parse Token)
          (between (before ++ [t]) ts (sink ++ s.reports)) (.ok t)
          (between (before ++ [t]) ts (sink ++ s.reports)) := yields_lift rfl _
      suffices rest : ∃ p, Yields _ (between (before ++ [t]) ts (sink ++ s.reports))
          (run s (t :: ts)).result p ∧ p.reports = sink ++ (run s (t :: ts)).reports by
        obtain ⟨p, yields, same⟩ := rest
        exact ⟨p, peeked.bind (advanced.bind (taken.bind yields)), same⟩
      have refuse : ∀ {e}, s.accept t = .error e → run s (t :: ts) = ⟨s.reports, .error e⟩ := by
        intro e refused
        rw [run_cons_of_error ts (by rw [settled, refused]), settled]
      have step : ∀ {next}, s.accept t = .ok next → run s (t :: ts) = run next ts :=
        fun accepted => run_cons_of_ok ts (by rw [settled, accepted])
      split
      · next kind =>
        by_cases again : s.data?.isSome = true
        · rw [if_pos again, refuse (by simp only [State.accept, outside, kind, if_pos again]; rfl)]
          exact ⟨_, (yields_throw _ _).bind_error _, rfl⟩
        · have data : Agrees sink (parseData n t []) s.reports ts
            (run (declaring s t [] .declaration) ts) (s.finishData t) := agrees_data (by omega)
          obtain ⟨p, yields, same⟩ := data.exists_yields (before ++ [t]) fun ds before rest le =>
            ih (s := s.finishData t ds) rfl before rest (by omega)
          rw [if_neg again, step (by simp only [State.accept, outside, kind, if_neg again]; rfl)]
          exact ⟨p, (yields_pure _ _).bind yields, same⟩
      · next kind =>
        by_cases again : s.code?.isSome = true
        · rw [if_pos again, refuse (by simp only [State.accept, outside, kind, if_pos again]; rfl)]
          exact ⟨_, (yields_throw _ _).bind_error _, rfl⟩
        · have code : Agrees sink (parseCode n t []) s.reports ts
            (run (coding s t ⟨[], []⟩ .statement) ts) (s.finishCode t) := agrees_code (by omega)
          obtain ⟨p, yields, same⟩ := code.exists_yields (before ++ [t]) fun ns before rest le =>
            ih (s := s.finishCode t ns) rfl before rest (by omega)
          rw [if_neg again, step (by simp only [State.accept, outside, kind, if_neg again]; rfl)]
          exact ⟨p, (yields_pure _ _).bind yields, same⟩
      · next notData notCode =>
        have refused : s.accept t = .error (.atToken t (.notASection t.text)) := by
          simp only [State.accept, outside]
        rw [refuse refused]
        exact ⟨_, yields_throw _ _, rfl⟩

/-- Whatever the registers hold, the parser comes to an end, meets all preconditions, and reads the
program of the tokens or its first defect.  It adds its reports to those that there are. -/
theorem exists_runs_parse (p : Registers) (tokens : List Token) :
    ∃ p', Runs (parse tokens) p (Program.ofTokens tokens).result p' ∧
      p'.reports = p.reports ++ (Program.ofTokens tokens).reports := by
  obtain ⟨q, yields, same⟩ :=
    exists_yields_parseSections (s := .initial) rfl p.reports [] tokens (Nat.lt_succ_self _)
  refine ⟨{ q with tokens := [] }, ?_, same⟩
  refine (runs_modify ?_).bind (Runs.bind yields ((runs_modify rfl).bind (runs_pure _ _)))
  simp [between, State.initial]

end XtAsm.Parser
