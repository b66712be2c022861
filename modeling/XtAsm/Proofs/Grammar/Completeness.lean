import XtAsm.Proofs.Grammar.Basic
import XtAsm.Proofs.Parser.Run

/-!
# The parser accepts what the grammar derives

A derivation of some tokens tells in which state the parser is after them, whatever follows.  A
statement ends up in the innermost block; the tail of a choice closes the block that was open and
all the choices that it is nested in.
-/

namespace XtAsm.Grammar

open XtAsm.Parser

/-! ### Operands and conditions -/

theorem operandAt_of_isOperand {slot : Slot} {t : Token} {n : Node} (h : IsOperand t n)
    (allowed : slot.allowsLiteral = true) : operandAt slot t = .ok ⟨t, n⟩ := by
  cases h with
  | var h => simp [operandAt, operand?, h]
  | register h => simp [operandAt, operand?, h]
  | literal h => simp [operandAt, operand?, h, allowed]

theorem operandAt_of_isDestination {slot : Slot} {t : Token} {n : Node} (h : IsDestination t n) :
    operandAt slot t = .ok ⟨t, n⟩ := by
  cases h with
  | var h => simp [operandAt, operand?, h]
  | register h => simp [operandAt, operand?, h]

section Statements

variable {s : State} {head : Token}

theorem run_condition {b : Blocks} {header : Header} {previous : Token} {ts : List Token}
    {c : Condition} (h : IsCondition ts c) (rest : List Token) :
    ∃ last, run (coding s head b (.left header previous)) (ts ++ rest) =
      run (coding s head b (.connective (header.addCondition c) last)) rest := by
  cases h with
  | @mk l c r lhs rhs op hl hc hr literals =>
    have first : acceptReading b (.left header previous) l =
        .ok (b, .comparison header ⟨l, lhs⟩) := by
      rw [acceptReading, operandAt_of_isOperand hl rfl]
      rfl
    have second : acceptReading b (.comparison header ⟨l, lhs⟩) c =
        .ok (b, .right header ⟨l, lhs⟩ op c) := by
      simp only [acceptReading, hc]
    have third : acceptReading b (.right header ⟨l, lhs⟩ op c) r =
        .ok (b, .connective (header.addCondition (.mk (.ofRelation op) lhs rhs)) r) := by
      rw [acceptReading, acceptRight, operandAt_of_isOperand hr rfl]
      simp only [literals, Except.bind, bind, if_false]
      rfl
    refine ⟨r, ?_⟩
    rw [List.cons_append, run_coding first, List.cons_append, run_coding second,
      List.cons_append, run_coding third, List.nil_append]

/-- Conditions and the `in` after them open the block of their head. -/
theorem run_conditions {b : Blocks} {header : Header} {previous i : Token} {ts : List Token}
    {cs : List Condition} {ops : List Connective} (h : IsConditions ts cs ops)
    (hi : i.kind = .word .in_) (rest : List Token) :
    run (coding s head b (.left header previous)) (ts ++ i :: rest) =
      run (coding s head
        (b.enter (Header.opener { header with
          chain := ⟨header.chain.conditions ++ cs, header.chain.connectives ++ ops⟩ })) .statement)
        rest := by
  induction h generalizing header previous with
  | single h =>
    obtain ⟨last, step⟩ := run_condition (s := s) (b := b) h (i :: rest)
    rw [step, run_coding]
    simp only [acceptReading, hi, List.append_nil]
    rfl
  | @connect ts us t c j cs ops h ht hs ih =>
    obtain ⟨last, step⟩ := run_condition (s := s) (b := b) h (t :: (us ++ i :: rest))
    have joined : acceptReading b (.connective (header.addCondition c) last) t =
        .ok (b, .left ((header.addCondition c).addConnective j) t) := by
      simp only [acceptReading, ht]
    rw [List.append_assoc, List.cons_append, step, run_coding joined, ih]
    simp [Header.addCondition, Header.addConnective]

/-! ### Statements -/

/-- Nothing has been read since an `else`, so that an `if` continues the choice before it. -/
def AfterElse (b : Blocks) : Prop :=
  b.body = [] ∧ ∃ keyword chain outer thenBody before frames,
    b.frames = ⟨.elseBranch keyword chain outer thenBody, before⟩ :: frames

theorem not_afterElse_of_body {b : Blocks} (h : b.body ≠ []) : ¬ AfterElse b :=
  fun after => h after.1

/-- Anywhere but right after `else`, an `if` starts a choice of its own. -/
theorem beginChoice_of_not_afterElse {b : Blocks} (h : ¬ AfterElse b) (t : Token) :
    beginChoice b t = (b, .left ⟨.choice [], t, ⟨[], []⟩⟩ t) := by
  unfold beginChoice
  split
  · next body frames keyword chain outer thenBody before frames hb hf =>
    exact absurd ⟨hb, _, _, _, _, _, _, hf⟩ h
  · rfl

/-- The blocks can take the tokens for statements: they do not start with an `if` that would belong
to an `else` before it. -/
def Fits (b : Blocks) (ts : List Token) : Prop :=
  ∀ t ∈ ts.head?, t.kind = .word .if_ → ¬ AfterElse b

theorem fits_of_not_afterElse {b : Blocks} (h : ¬ AfterElse b) (ts : List Token) : Fits b ts :=
  fun _ _ _ => h

theorem fits_nil (b : Blocks) : Fits b [] := fun _ ht => absurd ht (by simp)

theorem fits_append {b : Blocks} {ts us : List Token} (h : Fits b (ts ++ us)) : Fits b ts := by
  cases ts with
  | nil => exact fits_nil b
  | cons t ts => exact h

/-- The tokens of a statement add it to the innermost block. -/
def StatementRuns (s : State) (head : Token) (ts : List Token) (n : Node) : Prop :=
  ∀ b, Fits b ts → ∀ rest,
    run (coding s head b .statement) (ts ++ rest) = run (coding s head (b.push n) .statement) rest

/-- The tokens of several statements add them to the innermost block. -/
def BlockRuns (s : State) (head : Token) (ts : List Token) (ns : List Node) : Prop :=
  ∀ b, Fits b ts → ∀ rest,
    run (coding s head b .statement) (ts ++ rest) =
      run (coding s head ⟨b.body ++ ns, b.frames⟩ .statement) rest

/-- The tokens after the first body of a choice complete it, together with the choices around it. -/
def TailRuns (s : State) (head : Token) (ts : List Token) (elseBody : List Node) : Prop :=
  ∀ keyword chain outer thenBody before frames rest,
    run (coding s head ⟨thenBody, ⟨.thenBranch keyword chain outer, before⟩ :: frames⟩ .statement)
      (ts ++ rest) =
    run (coding s head ⟨before ++ [Opener.enclose outer
      (.choice chain.conditions chain.connectives thenBody elseBody)], frames⟩ .statement) rest

/-- A new block, its statements, and its end. -/
theorem run_block {b : Blocks} {opener : Opener} {ts : List Token} {ns : List Node} {e : Token}
    (h : BlockRuns s head ts ns) (fits : Fits (b.enter opener) ts) (he : e.kind = .word .end_)
    (rest : List Token) :
    run (coding s head (b.enter opener) .statement) (ts ++ e :: rest) =
      run (coding s head (b.push (opener.close ns)) .statement) rest := by
  rw [h _ fits, run_coding]
  simp only [acceptReading, acceptStatement, he]
  rfl

theorem not_afterElse_enter {b : Blocks} {o : Opener}
    (h : ∀ keyword chain outer thenBody, o ≠ .elseBranch keyword chain outer thenBody) :
    ¬ AfterElse (b.enter o) := by
  rintro ⟨-, keyword, chain, outer, thenBody, before, frames, hf⟩
  exact h keyword chain outer thenBody (Frame.mk.inj (List.cons.inj hf).1).1

theorem statementRuns_jump {k t : Token} (hk : k.kind = .word .jmp) (h : t.kind = .label) :
    StatementRuns s head [k, t] (.jump t.text) := by
  intro b _ rest
  have first : acceptReading b .statement k = .ok (b, .jumpLabel k) := by
    simp only [acceptReading, acceptStatement, hk]
  have second : acceptReading b (.jumpLabel k) t = .ok (b.push (.jump t.text), .statement) := by
    simp only [acceptReading, h]
  rw [List.cons_append, run_coding first, List.cons_append, run_coding second, List.nil_append]

theorem statementRuns_exit {k t : Token} {value : Node} (hk : k.kind = .word .exit)
    (h : IsOperand t value) : StatementRuns s head [k, t] (.exit value) := by
  intro b _ rest
  have first : acceptReading b .statement k = .ok (b, .exitValue k) := by
    simp only [acceptReading, acceptStatement, hk]
  have second : acceptReading b (.exitValue k) t = .ok (b.push (.exit value), .statement) := by
    rw [acceptReading, operandAt_of_isOperand h rfl]
    rfl
  rw [List.cons_append, run_coding first, List.cons_append, run_coding second, List.nil_append]

theorem statementRuns_assign {op : Mnemonic} {k d t : Token} {target source : Node}
    (hk : k.kind = .word (keywordOf op)) (hd : IsDestination d target) (ht : IsOperand t source) :
    StatementRuns s head [k, d, t] (.assign op target source) := by
  intro b _ rest
  have first : acceptReading b .statement k = .ok (b, .target op k) := by
    cases op <;> simp only [acceptReading, acceptStatement, hk, keywordOf]
  have second : acceptReading b (.target op k) d = .ok (b, .source op k ⟨d, target⟩) := by
    rw [acceptReading, operandAt_of_isDestination hd]
    rfl
  have third : acceptReading b (.source op k ⟨d, target⟩) t =
      .ok (b.push (.assign op target source), .statement) := by
    rw [acceptReading, operandAt_of_isOperand ht rfl]
    rfl
  rw [List.cons_append, run_coding first, List.cons_append, run_coding second, List.cons_append,
    run_coding third, List.nil_append]

theorem statementRuns_forLoop {k c t l u n i e : Token} {ts : List Token}
    {counter limit increment : Node} {body : List Node} (hk : k.kind = .word .for_)
    (hc : IsOperand c counter) (ht : t.kind = .semicolon) (hl : IsOperand l limit)
    (hu : u.kind = .semicolon) (hn : IsOperand n increment) (hi : i.kind = .word .in_)
    (hb : BlockRuns s head ts body) (he : e.kind = .word .end_) :
    StatementRuns s head (k :: c :: t :: l :: u :: n :: i :: (ts ++ [e]))
      (.forLoop counter limit increment body) := by
  intro b _ rest
  have first : acceptReading b .statement k = .ok (b, .counter k) := by
    simp only [acceptReading, acceptStatement, hk]
  have second : acceptReading b (.counter k) c = .ok (b, .firstSemicolon k ⟨c, counter⟩) := by
    rw [acceptReading, operandAt_of_isOperand hc rfl]
    rfl
  have third : acceptReading b (.firstSemicolon k ⟨c, counter⟩) t =
      .ok (b, .limit k ⟨c, counter⟩ t) := by
    simp only [acceptReading, ht]
  have fourth : acceptReading b (.limit k ⟨c, counter⟩ t) l =
      .ok (b, .secondSemicolon k ⟨c, counter⟩ ⟨l, limit⟩) := by
    rw [acceptReading, operandAt_of_isOperand hl rfl]
    rfl
  have fifth : acceptReading b (.secondSemicolon k ⟨c, counter⟩ ⟨l, limit⟩) u =
      .ok (b, .increment k ⟨c, counter⟩ ⟨l, limit⟩ u) := by
    simp only [acceptReading, hu]
  have sixth : acceptReading b (.increment k ⟨c, counter⟩ ⟨l, limit⟩ u) n =
      .ok (b, .rangeIn k ⟨c, counter⟩ ⟨l, limit⟩ ⟨n, increment⟩) := by
    rw [acceptReading, operandAt_of_isOperand hn rfl]
    rfl
  have seventh : acceptReading b (.rangeIn k ⟨c, counter⟩ ⟨l, limit⟩ ⟨n, increment⟩) i =
      .ok (b.enter (.forLoop k counter limit increment), .statement) := by
    simp only [acceptReading, hi]
  have fits := fits_of_not_afterElse (not_afterElse_enter (b := b)
    (o := .forLoop k counter limit increment) (by simp)) ts
  simp only [List.cons_append, List.append_assoc, List.nil_append]
  rw [run_coding first, run_coding second, run_coding third, run_coding fourth, run_coding fifth,
    run_coding sixth, run_coding seventh, run_block hb fits he]
  rfl

theorem statementRuns_loop {k e : Token} {ts : List Token} {body : List Node}
    (hk : k.kind = .word .loop) (hb : BlockRuns s head ts body) (he : e.kind = .word .end_) :
    StatementRuns s head (k :: (ts ++ [e])) (.loop body) := by
  intro b _ rest
  have first : acceptReading b .statement k = .ok (b.enter (.loop k), .statement) := by
    simp only [acceptReading, acceptStatement, hk]
  have fits := fits_of_not_afterElse (not_afterElse_enter (b := b) (o := .loop k) (by simp)) ts
  simp only [List.cons_append, List.append_assoc, List.nil_append]
  rw [run_coding first]
  exact run_block hb fits he rest

theorem statementRuns_whileLoop {k i e : Token} {us ts : List Token} {cs : List Condition}
    {ops : List Connective} {body : List Node} (hk : k.kind = .word .while_)
    (hc : IsConditions us cs ops) (hi : i.kind = .word .in_) (hb : BlockRuns s head ts body)
    (he : e.kind = .word .end_) :
    StatementRuns s head (k :: (us ++ i :: (ts ++ [e]))) (.whileLoop cs ops body) := by
  intro b _ rest
  have first : acceptReading b .statement k = .ok (b, .left ⟨.whileLoop, k, ⟨[], []⟩⟩ k) := by
    simp only [acceptReading, acceptStatement, hk]
  have fits := fits_of_not_afterElse (not_afterElse_enter (b := b)
    (o := .whileLoop k ⟨[] ++ cs, [] ++ ops⟩) (by simp)) ts
  simp only [List.cons_append, List.append_assoc, List.nil_append]
  rw [run_coding first, run_conditions hc hi]
  exact run_block hb fits he rest

/-- The head of a choice, its first body and its tail, read with the choices around it. -/
theorem run_choice {b : Blocks} {k i : Token} {outer : List Pending} {us ts vs : List Token}
    {cs : List Condition} {ops : List Connective} {thenBody elseBody : List Node}
    (hc : IsConditions us cs ops) (hi : i.kind = .word .in_) (hb : BlockRuns s head ts thenBody)
    (ht : TailRuns s head vs elseBody) (rest : List Token) :
    run (coding s head b (.left ⟨.choice outer, k, ⟨[], []⟩⟩ k)) (us ++ i :: (ts ++ vs) ++ rest) =
      run (coding s head (b.push (Opener.enclose outer (.choice cs ops thenBody elseBody)))
        .statement) rest := by
  have fits := fits_of_not_afterElse (not_afterElse_enter (b := b)
    (o := .thenBranch k ⟨[] ++ cs, [] ++ ops⟩ outer) (by simp)) ts
  simp only [List.cons_append, List.append_assoc]
  rw [run_conditions hc hi]
  exact (hb _ fits _).trans (ht k ⟨cs, ops⟩ outer thenBody b.body b.frames rest)

theorem statementRuns_choice {k i : Token} {us ts vs : List Token} {cs : List Condition}
    {ops : List Connective} {thenBody elseBody : List Node} (hk : k.kind = .word .if_)
    (hc : IsConditions us cs ops) (hi : i.kind = .word .in_) (hb : BlockRuns s head ts thenBody)
    (ht : TailRuns s head vs elseBody) :
    StatementRuns s head (k :: (us ++ i :: (ts ++ vs))) (.choice cs ops thenBody elseBody) := by
  intro b fits rest
  have first : acceptReading b .statement k = .ok (b, .left ⟨.choice [], k, ⟨[], []⟩⟩ k) := by
    simp only [acceptReading, acceptStatement, hk,
      beginChoice_of_not_afterElse (fits k rfl hk)]
  rw [List.cons_append, run_coding first]
  exact run_choice hc hi hb ht rest

theorem acceptReading_else {keyword e : Token} {chain : Chain} {outer : List Pending}
    {thenBody before : List Node} {frames : List Frame} (he : e.kind = .word .else_) :
    acceptReading ⟨thenBody, ⟨.thenBranch keyword chain outer, before⟩ :: frames⟩ .statement e =
      .ok (⟨[], ⟨.elseBranch e chain outer thenBody, before⟩ :: frames⟩, .statement) := by
  simp only [acceptReading, acceptStatement, he]

theorem tailRuns_elseIf {e k i : Token} {us ts vs : List Token} {cs : List Condition}
    {ops : List Connective} {body elseBody : List Node} (he : e.kind = .word .else_)
    (hk : k.kind = .word .if_) (hc : IsConditions us cs ops) (hi : i.kind = .word .in_)
    (hb : BlockRuns s head ts body) (ht : TailRuns s head vs elseBody) :
    TailRuns s head (e :: k :: (us ++ i :: (ts ++ vs))) [.choice cs ops body elseBody] := by
  intro keyword chain outer thenBody before frames rest
  have nested : acceptReading ⟨[], ⟨.elseBranch e chain outer thenBody, before⟩ :: frames⟩
      .statement k =
      .ok (⟨before, frames⟩, .left ⟨.choice (⟨chain, thenBody⟩ :: outer), k, ⟨[], []⟩⟩ k) := by
    simp only [acceptReading, acceptStatement, hk, beginChoice]
  rw [List.cons_append, run_coding (acceptReading_else he), List.cons_append, run_coding nested]
  exact run_choice hc hi hb ht rest

theorem tailRuns_otherwise {e f : Token} {ts : List Token} {body : List Node}
    (he : e.kind = .word .else_) (hb : BlockRuns s head ts body)
    (first : ∀ t ∈ ts.head?, t.kind ≠ .word .if_) (hf : f.kind = .word .end_) :
    TailRuns s head (e :: (ts ++ [f])) body := by
  intro keyword chain outer thenBody before frames rest
  have fits : Fits (Blocks.enter ⟨before, frames⟩ (.elseBranch e chain outer thenBody)) ts :=
    fun t ht hif => absurd hif (first t ht)
  simp only [List.cons_append, List.append_assoc, List.nil_append]
  rw [run_coding (acceptReading_else he)]
  exact run_block hb fits hf rest

mutual

/-- Derived statements run as such. -/
theorem statementRuns {ts : List Token} {n : Node} : IsStatement ts n → StatementRuns s head ts n
  | .label h => fun b _ rest => by
    rw [List.cons_append, run_coding, List.nil_append]
    simp only [acceptReading, acceptStatement, h]
  | .leave h => fun b _ rest => by
    rw [List.cons_append, run_coding, List.nil_append]
    simp only [acceptReading, acceptStatement, h]
  | .jump hk h => statementRuns_jump hk h
  | .exit hk h => statementRuns_exit hk h
  | .assign hk hd hs => statementRuns_assign hk hd hs
  | .loop hk hb he => statementRuns_loop hk (blockRuns hb) he
  | .whileLoop hk hc hi hb he => statementRuns_whileLoop hk hc hi (blockRuns hb) he
  | .forLoop hk hc hs hl hu hn hi hb he =>
    statementRuns_forLoop hk hc hs hl hu hn hi (blockRuns hb) he
  | .choice hk hc hi hb ht => statementRuns_choice hk hc hi (blockRuns hb) (tailRuns ht)

/-- Derived blocks run as such. -/
theorem blockRuns {ts : List Token} {ns : List Node} : IsBlock ts ns → BlockRuns s head ts ns
  | .nil => fun b _ rest => by rw [List.nil_append, List.append_nil]
  | .cons (n := n) h hs => fun b fits rest => by
    -- after a statement an `if` can no longer belong to an `else`
    have more := fits_of_not_afterElse
      (not_afterElse_of_body (b := b.push n) (by simp [Blocks.push]))
    rw [List.append_assoc, statementRuns h b (fits_append fits), blockRuns hs _ (more _)]
    simp [Blocks.push]

/-- Derived tails run as such. -/
theorem tailRuns {ts : List Token} {ns : List Node} : IsTail ts ns → TailRuns s head ts ns
  | .close he => fun keyword chain outer thenBody before frames rest => by
    rw [List.cons_append, run_coding, List.nil_append]
    simp only [acceptReading, acceptStatement, he]
    rfl
  | .elseIf he hk hc hi hb ht => tailRuns_elseIf he hk hc hi (blockRuns hb) (tailRuns ht)
  | .otherwise he hb first hf => tailRuns_otherwise he (blockRuns hb) first hf

end

end Statements

/-! ### Declarations -/

section Declarations

variable {s : State} {head : Token}

theorem acceptMember_of_kind {ds : List Node} {keyword name m : Token} {members : List Variable}
    {next : Int} (hm : m.kind = .var ∨ m.kind = .name) :
    acceptDeclaring ds (.member keyword name members next) m =
      .ok (ds, .index keyword name members next m) := by
  rcases hm with hm | hm <;> simp only [acceptDeclaring, acceptMember, hm]

/-- No member starts with an index. -/
theorem isMembers_head {name : Text} {next : Int} {ts : List Token} {members : List Variable}
    (h : IsMembers name next ts members) {e : Token} (he : e.kind = .word .end_)
    (rest : List Token) : ∃ t us, ts ++ e :: rest = t :: us ∧ t.kind ≠ .int := by
  cases h with
  | nil => exact ⟨e, rest, rfl, by simp [he]⟩
  | @counted _ m us _ hm _ =>
    exact ⟨m, us ++ e :: rest, rfl, by rcases hm with hm | hm <;> simp [hm]⟩
  | @indexed _ _ m i us _ hm _ _ _ =>
    exact ⟨m, i :: us ++ e :: rest, rfl, by rcases hm with hm | hm <;> simp [hm]⟩

/-- The members of an enumeration and its `end` complete it. -/
theorem run_members {ds : List Node} {keyword name e : Token} {before members : List Variable}
    {next : Int} {ts : List Token} (h : IsMembers name.text next ts members)
    (he : e.kind = .word .end_) (rest : List Token) :
    run (declaring s head ds (.member keyword name before next)) (ts ++ e :: rest) =
      run (declaring s head (ds ++ [.enum name.text (before ++ members)]) .declaration) rest := by
  induction h generalizing before with
  | nil =>
    rw [List.nil_append, List.append_nil, run_declaring]
    simp only [acceptDeclaring, acceptMember, he]
  | @counted next m ts members hm hs ih =>
    -- whether the member has an index is seen only at the token after it
    obtain ⟨t, us, head_eq, other⟩ := isMembers_head hs he rest
    rw [List.cons_append, run_declaring (acceptMember_of_kind hm), head_eq, run_index other,
      ← head_eq, ih, List.append_assoc]
    rfl
  | @indexed next value m i ts members hm hi hv hs ih =>
    have second : acceptDeclaring ds (.index keyword name before next m) i =
        .ok (ds, .member keyword name (before ++ [memberVariable name m value])
          (Text.wrap64 (value + 1))) := by
      simp only [acceptDeclaring, hi, hv]
    rw [List.cons_append, run_declaring (acceptMember_of_kind hm), List.cons_append,
      run_declaring second, ih, List.append_assoc]
    rfl

theorem run_declaration {ds : List Node} {ts : List Token} {n : Node} (h : IsDeclaration ts n)
    (rest : List Token) :
    run (declaring s head ds .declaration) (ts ++ rest) =
      run (declaring s head (ds ++ [n]) .declaration) rest := by
  cases h with
  | @initialised t v ht hv =>
    have first : acceptDeclaring ds .declaration t = .ok (ds, .value t) := by
      simp only [acceptDeclaring, ht]
    have second : acceptDeclaring ds (.value t) v =
        .ok (ds ++ [.declaration t.text v.text], .declaration) := by
      simp only [acceptDeclaring, hv]
    rw [List.cons_append, run_declaring first, List.cons_append, run_declaring second,
      List.nil_append]
  | @uninitialised t v ht hv =>
    have first : acceptDeclaring ds .declaration t = .ok (ds, .value t) := by
      simp only [acceptDeclaring, ht]
    have second : acceptDeclaring ds (.value t) v =
        .ok (ds ++ [.declaration t.text []], .declaration) := by
      simp only [acceptDeclaring, hv]
    rw [List.cons_append, run_declaring first, List.cons_append, run_declaring second,
      List.nil_append]
  | @enum k name e ts members hk hn hs he =>
    have first : acceptDeclaring ds .declaration k = .ok (ds, .enumName k) := by
      simp only [acceptDeclaring, hk]
    have second : acceptDeclaring ds (.enumName k) name = .ok (ds, .member k name [] 0) := by
      simp only [acceptDeclaring, hn]
    simp only [List.cons_append, List.append_assoc, List.nil_append]
    rw [run_declaring first, run_declaring second, run_members hs he, List.nil_append]

theorem run_declarations {ds : List Node} {ts : List Token} {ns : List Node}
    (h : IsDeclarations ts ns) (rest : List Token) :
    run (declaring s head ds .declaration) (ts ++ rest) =
      run (declaring s head (ds ++ ns) .declaration) rest := by
  induction h generalizing ds with
  | nil => rw [List.nil_append, List.append_nil]
  | cons h hs ih => rw [List.append_assoc, run_declaration h, ih, List.append_assoc,
      List.singleton_append]

end Declarations

/-! ### Programs -/

/-- After a data section the parser is where it was before, if no declaration follows. -/
theorem run_data {s : State} {ts : List Token} {ns : List Node} (h : IsData ts ns)
    (outside : s.phase = .outside) (absent : s.data? = none) {rest : List Token}
    (other : ∀ t ∈ rest.head?, startsDeclaration t = false) :
    ∃ head, run s (ts ++ rest) = run (s.finishData head ns) rest := by
  cases h with
  | @mk t ts ns ht hs =>
    have first : (s.settle t).accept t = .ok (declaring s t [] .declaration) := by
      simp [State.settle, State.accept, outside, ht, absent, declaring]
    refine ⟨t, ?_⟩
    rw [List.cons_append, run_cons_of_ok _ first, run_declarations hs, List.nil_append]
    cases rest with
    | nil => rfl
    | cons u us =>
      have settled := settle_declaration s t u ns
      rw [other u rfl, if_neg (by simp)] at settled
      simp only [run, settled]
      rfl

/-- After a code section the parser is where it was before, if a data section or nothing follows. -/
theorem run_code {s : State} {ts : List Token} {ns : List Node} (h : IsCode ts ns)
    (outside : s.phase = .outside) (absent : s.code? = none) {rest : List Token}
    (data : ∀ t ∈ rest.head?, t.kind = .data) :
    ∃ head, run s (ts ++ rest) = run (s.finishCode head ns) rest := by
  cases h with
  | @mk t ts ns ht hs =>
    have first : (s.settle t).accept t = .ok (coding s t .empty .statement) := by
      simp [State.settle, State.accept, outside, ht, absent, coding]
    have fits : Fits .empty ts := fits_of_not_afterElse (by simp [AfterElse, Blocks.empty]) ts
    refine ⟨t, ?_⟩
    rw [List.cons_append, run_cons_of_ok _ first, blockRuns hs _ fits]
    cases rest with
    | nil => rfl
    | cons u us =>
      have settled := settle_statement s t u ⟨ns, []⟩
      rw [if_pos ⟨rfl, data u rfl⟩] at settled
      show run (coding s t ⟨ns, []⟩ .statement) (u :: us) = _
      simp only [run, settled]
      rfl

theorem isCode_head {ts : List Token} {ns : List Node} (h : IsCode ts ns) :
    ∀ t ∈ ts.head?, startsDeclaration t = false := by
  cases h with
  | mk ht _ => simp [startsDeclaration, ht]

theorem isData_head {ts : List Token} {ns : List Node} (h : IsData ts ns) :
    ∀ t ∈ ts.head?, t.kind = .data := by
  cases h with
  | mk ht _ => simpa using ht

/-- **Every derived program is accepted**, with the tree of its derivation. -/
theorem accepts_of_isProgram {ts : List Token} {p : Program} (h : IsProgram ts p) :
    Accepts .initial ts p := by
  cases h with
  | empty => rfl
  | data hd =>
    obtain ⟨head, ran⟩ := run_data (s := .initial) hd rfl rfl (by simp : ∀ t ∈ [].head?, _)
    rw [List.append_nil] at ran
    rw [Accepts, ran]
    rfl
  | code hc =>
    obtain ⟨head, ran⟩ := run_code (s := .initial) hc rfl rfl (by simp : ∀ t ∈ [].head?, _)
    rw [List.append_nil] at ran
    rw [Accepts, ran]
    rfl
  | dataCode hd hc =>
    have other := isCode_head hc
    obtain ⟨head, ran⟩ := run_data (s := .initial) hd rfl rfl other
    obtain ⟨head', ran'⟩ := run_code (s := State.finishData .initial head _) hc rfl rfl
      (by simp : ∀ t ∈ [].head?, _)
    rw [List.append_nil] at ran'
    rw [Accepts, ran, ran']
    rfl
  | codeData hc hd =>
    have data := isData_head hd
    obtain ⟨head, ran⟩ := run_code (s := .initial) hc rfl rfl data
    obtain ⟨head', ran'⟩ := run_data (s := State.finishCode .initial head _) hd rfl rfl
      (by simp : ∀ t ∈ [].head?, _)
    rw [List.append_nil] at ran'
    rw [Accepts, ran, ran']
    rfl

end XtAsm.Grammar
