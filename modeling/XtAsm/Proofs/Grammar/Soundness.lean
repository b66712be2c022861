import XtAsm.Proofs.Grammar.Completeness

/-!
# The grammar derives what the parser accepts

Tokens that complete a state to a program start with what the state waits for: the rest of a
condition, the statements of the innermost block, the tail of a choice.  Each lemma splits that
part off, derives it, and goes on with the tokens after it.  Blocks and tails are split by one
induction on the number of tokens.

Main statement: `result_ofTokens_eq_ok_iff`.
-/

namespace XtAsm.Grammar

open XtAsm.Parser

/-! ### Operands and conditions -/

theorem isOperand_of_operandAt {slot : Slot} {t : Token} {o : Operand}
    (h : operandAt slot t = .ok o) : o.token = t ∧ IsOperand t o.node := by
  unfold operandAt at h
  cases found : operand? t with
  | none =>
    rw [found] at h
    exact absurd h (by simp)
  | some operand =>
    have same : operand = o := by
      simp only [found] at h
      split at h
      · exact absurd h (by simp)
      · exact Except.ok.inj h
    subst same
    unfold operand? at found
    split at found
    · next kind =>
      cases found
      exact ⟨rfl, .var kind⟩
    · next kind =>
      cases found
      exact ⟨rfl, .register kind⟩
    · next kind =>
      cases found
      exact ⟨rfl, .literal kind⟩
    · cases found

/-- Where no literal may stand, there is a destination. -/
theorem isDestination_of_operandAt {slot : Slot} {t : Token} {o : Operand}
    (h : operandAt slot t = .ok o) (strict : slot.allowsLiteral = false) :
    o.token = t ∧ IsDestination t o.node := by
  obtain ⟨token, operand⟩ := isOperand_of_operandAt h
  refine ⟨token, ?_⟩
  cases o with
  | mk token node =>
    cases operand with
    | var ht => exact .var ht
    | register ht => exact .register ht
    | literal ht => simp [operandAt, operand?, ht, strict] at h

section Statements

variable {s : State} {head : Token} {b : Blocks} {ts : List Token} {p : Program}

/-- A condition at the head of the tokens. -/
theorem split_condition {header : Header} {previous : Token}
    (h : Accepts (coding s head b (.left header previous)) ts p) :
    ∃ us vs c last, ts = us ++ vs ∧ IsCondition us c ∧ vs.length < ts.length ∧
      Accepts (coding s head b (.connective (header.addCondition c) last)) vs p := by
  obtain ⟨l, ts, _, _, rfl, accepted, h⟩ := h.uncons (by simp [Reading.missing?])
  obtain ⟨left, hl, ⟨⟩⟩ := exists_of_bind_eq_ok accepted
  obtain ⟨c, ts, _, _, rfl, accepted, h⟩ := h.uncons (by simp [Reading.missing?])
  simp only [acceptReading] at accepted
  split at accepted
  · next op hc =>
    obtain ⟨⟩ := accepted
    obtain ⟨r, ts, _, _, rfl, accepted, h⟩ := h.uncons (by simp [Reading.missing?])
    obtain ⟨_, accepted, ⟨⟩⟩ := exists_of_bind_eq_ok accepted
    -- two literals are refused only after the second one was read
    obtain ⟨right, hr, accepted⟩ := exists_of_bind_eq_ok accepted
    obtain ⟨rfl, isLeft⟩ := isOperand_of_operandAt hl
    obtain ⟨rfl, isRight⟩ := isOperand_of_operandAt hr
    by_cases literals : left.token.kind = .int ∧ right.token.kind = .int
    · simp only [literals, and_self, if_true] at accepted
      obtain ⟨_, failed, -⟩ := exists_of_bind_eq_ok accepted
      exact absurd failed (by simp [throw, throwThe, MonadExceptOf.throw])
    · rw [if_neg literals] at accepted
      obtain ⟨⟩ := accepted
      refine ⟨_, ts, _, _, rfl, .mk isLeft hc isRight literals, ?_, h⟩
      simp only [List.length_cons]
      omega
  · exact absurd accepted (by simp)

/-- The header with all the conditions that were still to come. -/
def complete (header : Header) (cs : List Condition) (ops : List Connective) : Header :=
  { header with chain := ⟨header.chain.conditions ++ cs, header.chain.connectives ++ ops⟩ }

/-- The remaining conditions of a head, and the `in` after them. -/
theorem split_conditions (n : Nat) {header : Header} {previous : Token} {ts : List Token}
    (short : ts.length ≤ n) (h : Accepts (coding s head b (.left header previous)) ts p) :
    ∃ us i vs cs ops, ts = us ++ i :: vs ∧ IsConditions us cs ops ∧ i.kind = .word .in_ ∧
      Accepts (coding s head (b.enter (complete header cs ops).opener) .statement) vs p := by
  induction n generalizing header previous ts with
  | zero =>
    obtain ⟨us, vs, c, last, -, -, shorter, -⟩ := split_condition h
    omega
  | succ n ih =>
    obtain ⟨us, vs, c, last, rfl, hc, shorter, h⟩ := split_condition h
    obtain ⟨t, vs, _, _, rfl, accepted, h⟩ := h.uncons (by simp [Reading.missing?])
    simp only [acceptReading] at accepted
    split at accepted
    · next j ht =>
      obtain ⟨⟩ := accepted
      obtain ⟨ws, i, vs, cs, ops, rfl, hs, hi, h⟩ := ih (by simp at short shorter; omega) h
      refine ⟨us ++ t :: ws, i, vs, c :: cs, .ofJunction j :: ops, by simp, .connect hc ht hs, hi,
        ?_⟩
      simpa [complete, Header.addCondition, Header.addConnective] using h
    · next hi =>
      obtain ⟨⟩ := accepted
      refine ⟨us, t, vs, [c], [], rfl, .single hc, hi, ?_⟩
      simpa [complete, Header.addCondition] using h
    · exact absurd accepted (by simp)

/-! ### Blocks -/

/-- The tokens end a block or a section, or are at an end themselves. -/
def Stops (ts : List Token) : Prop :=
  ∀ t ∈ ts.head?, t.kind = .word .end_ ∨ t.kind = .word .else_ ∨ t.kind = .data

/-- Accepted tokens split into the statements of the innermost block and the rest. -/
def BlockSplits (s : State) (head : Token) (p : Program) (n : Nat) : Prop :=
  ∀ ts b, ts.length ≤ n → Fits b ts → Accepts (coding s head b .statement) ts p →
    ∃ us vs ns, ts = us ++ vs ∧ IsBlock us ns ∧ Stops vs ∧
      Accepts (coding s head ⟨b.body ++ ns, b.frames⟩ .statement) vs p

/-- Accepted tokens after the first body of a choice split into its tail and the rest. -/
def TailSplits (s : State) (head : Token) (p : Program) (n : Nat) : Prop :=
  ∀ ts keyword chain outer thenBody before frames, ts.length ≤ n → Stops ts →
    Accepts (coding s head ⟨thenBody, ⟨.thenBranch keyword chain outer, before⟩ :: frames⟩
      .statement) ts p →
    ∃ us vs elseBody, ts = us ++ vs ∧ IsTail us elseBody ∧
      Accepts (coding s head ⟨before ++ [Opener.enclose outer
        (.choice chain.conditions chain.connectives thenBody elseBody)], frames⟩ .statement) vs p

/-- A block without an else branch runs up to its `end`. -/
theorem split_block {n : Nat} (split : BlockSplits s head p n) {b : Blocks} {o : Opener}
    {ts : List Token} (short : ts.length ≤ n) (fits : Fits (b.enter o) ts)
    (plain : ∀ keyword chain outer, o ≠ .thenBranch keyword chain outer)
    (h : Accepts (coding s head (b.enter o) .statement) ts p) :
    ∃ us e vs ns, ts = us ++ e :: vs ∧ IsBlock us ns ∧ e.kind = .word .end_ ∧
      Accepts (coding s head (b.push (o.close ns)) .statement) vs p := by
  obtain ⟨us, vs, ns, rfl, hb, stops, h⟩ := split ts _ short fits h
  -- of the tokens that stop a block, only `end` fits here
  obtain ⟨e, vs, _, _, rfl, accepted, h⟩ := h.inBlock rfl
  rcases stops e rfl with he | he | he
  · simp only [acceptStatement, he, Blocks.enter] at accepted
    obtain ⟨⟩ := accepted
    exact ⟨us, e, vs, ns, rfl, hb, he, h⟩
  · simp only [acceptStatement, he, Blocks.enter] at accepted
    split at accepted
    · next shape =>
      exact absurd (Frame.mk.inj (List.cons.inj shape).1).1 (plain _ _ _)
    · exact absurd accepted (by simp)
  · rw [acceptStatement_data he] at accepted
    exact absurd accepted (by simp)

/-- The conditions of a choice, its first body and its tail. -/
theorem split_choice {n : Nat} (split : BlockSplits s head p n) (tails : TailSplits s head p n)
    {b : Blocks} {k : Token} {outer : List Pending} {ts : List Token} (short : ts.length ≤ n)
    (h : Accepts (coding s head b (.left ⟨.choice outer, k, ⟨[], []⟩⟩ k)) ts p) :
    ∃ cs i us vs ws conditions connectives thenBody elseBody,
      ts = cs ++ i :: (us ++ vs) ++ ws ∧ IsConditions cs conditions connectives ∧
      i.kind = .word .in_ ∧ IsBlock us thenBody ∧ IsTail vs elseBody ∧
      Accepts (coding s head (b.push (Opener.enclose outer
        (.choice conditions connectives thenBody elseBody))) .statement) ws p := by
  obtain ⟨cs, i, ts, conditions, connectives, rfl, hc, hi, h⟩ := split_conditions n short h
  rw [List.length_append, List.length_cons] at short
  have fits := fits_of_not_afterElse (not_afterElse_enter (b := b)
    (o := .thenBranch k ⟨[] ++ conditions, [] ++ connectives⟩ outer) (by simp)) ts
  obtain ⟨us, ts, thenBody, rfl, hb, stops, h⟩ := split ts _ (by omega) fits h
  rw [List.length_append] at short
  obtain ⟨vs, ws, elseBody, rfl, ht, h⟩ := tails ts _ _ _ _ _ _ (by omega) stops h
  exact ⟨cs, i, us, vs, ws, conditions, connectives, thenBody, elseBody, by simp, hc, hi, hb, ht, h⟩

theorem tailSplits_succ {n : Nat} (split : BlockSplits s head p n)
    (tails : TailSplits s head p n) : TailSplits s head p (n + 1) := by
  intro ts keyword chain outer thenBody before frames short stops h
  obtain ⟨e, ts, _, _, rfl, accepted, h⟩ := h.inBlock rfl
  rw [List.length_cons] at short
  rcases stops e rfl with he | he | he
  · simp only [acceptStatement, he] at accepted
    obtain ⟨⟩ := accepted
    exact ⟨[e], ts, [], rfl, .close he, h⟩
  · simp only [acceptStatement, he] at accepted
    obtain ⟨⟩ := accepted
    -- an `if` right after `else` shares its end with the choice around it
    by_cases nested : ∀ t ∈ ts.head?, t.kind ≠ .word .if_
    · have fits : Fits (Blocks.enter ⟨before, frames⟩ (.elseBranch e chain outer thenBody)) ts :=
        fun t ht hif => absurd hif (nested t ht)
      obtain ⟨us, f, vs, ns, rfl, hb, hf, h⟩ := split_block split (by omega) fits (by simp) h
      have first : ∀ t ∈ us.head?, t.kind ≠ .word .if_ := by
        cases us with
        | nil => simp
        | cons u us => exact nested
      exact ⟨e :: (us ++ [f]), vs, ns, by simp, .otherwise he hb first hf, h⟩
    · obtain ⟨k, ts, _, _, rfl, accepted, h⟩ := h.inBlock rfl
      have hk : k.kind = .word .if_ := by simpa using nested
      rw [List.length_cons] at short
      simp only [acceptStatement, hk, beginChoice] at accepted
      obtain ⟨⟩ := accepted
      obtain ⟨cs, i, us, vs, ws, conditions, connectives, body, elseBody, rfl, hc, hi, hb, ht, h⟩ :=
        split_choice split tails (by omega) h
      exact ⟨e :: k :: (cs ++ i :: (us ++ vs)), ws, _, by simp,
        .elseIf he hk hc hi hb ht, h⟩
  · rw [acceptStatement_data he] at accepted
    exact absurd accepted (by simp)

theorem acceptSemicolon_first {k t : Token} {counter : Operand} {b' : Blocks} {r' : Reading}
    (h : acceptReading b (.firstSemicolon k counter) t = .ok (b', r')) :
    t.kind = .semicolon ∧ b' = b ∧ r' = .limit k counter t := by
  simp only [acceptReading] at h
  split at h
  · next ht =>
    obtain ⟨⟩ := h
    exact ⟨ht, rfl, rfl⟩
  · exact absurd h (by simp)

theorem acceptSemicolon_second {k t : Token} {counter limit : Operand} {b' : Blocks} {r' : Reading}
    (h : acceptReading b (.secondSemicolon k counter limit) t = .ok (b', r')) :
    t.kind = .semicolon ∧ b' = b ∧ r' = .increment k counter limit t := by
  simp only [acceptReading] at h
  split at h
  · next ht =>
    obtain ⟨⟩ := h
    exact ⟨ht, rfl, rfl⟩
  · exact absurd h (by simp)

theorem split_exit {k : Token} (h : Accepts (coding s head b (.exitValue k)) ts p) :
    ∃ t vs value, ts = t :: vs ∧ IsOperand t value ∧
      Accepts (coding s head (b.push (.exit value)) .statement) vs p := by
  obtain ⟨t, vs, _, _, rfl, accepted, h⟩ := h.uncons (by simp [Reading.missing?])
  obtain ⟨o, ho, ⟨⟩⟩ := exists_of_bind_eq_ok accepted
  exact ⟨t, vs, o.node, rfl, (isOperand_of_operandAt ho).2, h⟩

theorem split_jump {k : Token} (h : Accepts (coding s head b (.jumpLabel k)) ts p) :
    ∃ t vs, ts = t :: vs ∧ t.kind = .label ∧
      Accepts (coding s head (b.push (.jump t.text)) .statement) vs p := by
  obtain ⟨t, vs, _, _, rfl, accepted, h⟩ := h.uncons (by simp [Reading.missing?])
  simp only [acceptReading] at accepted
  split at accepted
  · next ht =>
    obtain ⟨⟩ := accepted
    exact ⟨t, vs, rfl, ht, h⟩
  · exact absurd accepted (by simp)

theorem split_assign (op : Mnemonic) {k : Token} (hk : k.kind = .word (keywordOf op)) {n : Nat}
    (short : ts.length ≤ n) (h : Accepts (coding s head b (.target op k)) ts p) :
    ∃ us vs m, k :: ts = us ++ vs ∧ IsStatement us m ∧ vs.length ≤ n ∧
      Accepts (coding s head (b.push m) .statement) vs p := by
  obtain ⟨d, ts, _, _, rfl, accepted, h⟩ := h.uncons (by simp [Reading.missing?])
  obtain ⟨target, hd, ⟨⟩⟩ := exists_of_bind_eq_ok accepted
  obtain ⟨t, vs, _, _, rfl, accepted, h⟩ := h.uncons (by simp [Reading.missing?])
  obtain ⟨source, ht, ⟨⟩⟩ := exists_of_bind_eq_ok accepted
  simp only [List.length_cons] at short
  exact ⟨[k, d, t], vs, .assign op target.node source.node, rfl,
    .assign hk (isDestination_of_operandAt hd rfl).2 (isOperand_of_operandAt ht).2, by omega, h⟩

/-- The head of a counting loop. -/
theorem split_range {k : Token} (h : Accepts (coding s head b (.counter k)) ts p) :
    ∃ c t l u m i vs counter limit increment, ts = c :: t :: l :: u :: m :: i :: vs ∧
      IsOperand c counter ∧ t.kind = .semicolon ∧ IsOperand l limit ∧ u.kind = .semicolon ∧
      IsOperand m increment ∧ i.kind = .word .in_ ∧
      Accepts (coding s head (b.enter (.forLoop k counter limit increment)) .statement) vs p := by
  obtain ⟨c, ts, _, _, rfl, accepted, h⟩ := h.uncons (by simp [Reading.missing?])
  obtain ⟨counter, hc, ⟨⟩⟩ := exists_of_bind_eq_ok accepted
  obtain ⟨t, ts, _, _, rfl, accepted, h⟩ := h.uncons (by simp [Reading.missing?])
  obtain ⟨ht, rfl, rfl⟩ := acceptSemicolon_first accepted
  obtain ⟨l, ts, _, _, rfl, accepted, h⟩ := h.uncons (by simp [Reading.missing?])
  obtain ⟨limit, hl, ⟨⟩⟩ := exists_of_bind_eq_ok accepted
  obtain ⟨u, ts, _, _, rfl, accepted, h⟩ := h.uncons (by simp [Reading.missing?])
  obtain ⟨hu, rfl, rfl⟩ := acceptSemicolon_second accepted
  obtain ⟨m, ts, _, _, rfl, accepted, h⟩ := h.uncons (by simp [Reading.missing?])
  obtain ⟨increment, hm, ⟨⟩⟩ := exists_of_bind_eq_ok accepted
  obtain ⟨i, vs, _, _, rfl, accepted, h⟩ := h.uncons (by simp [Reading.missing?])
  simp only [acceptReading] at accepted
  split at accepted
  · next hi =>
    obtain ⟨⟩ := accepted
    exact ⟨c, t, l, u, m, i, vs, counter.node, limit.node, increment.node, rfl,
      (isOperand_of_operandAt hc).2, ht, (isOperand_of_operandAt hl).2, hu,
      (isOperand_of_operandAt hm).2, hi, h⟩
  · exact absurd accepted (by simp)

/-- A token that ends nothing starts a statement. -/
theorem split_statement {n : Nat} (split : BlockSplits s head p n) (tails : TailSplits s head p n)
    {b : Blocks} {t : Token} {ts : List Token} (short : ts.length ≤ n) (fits : Fits b (t :: ts))
    (continues : ¬ Stops (t :: ts)) (h : Accepts (coding s head b .statement) (t :: ts) p) :
    ∃ us vs m, t :: ts = us ++ vs ∧ IsStatement us m ∧ vs.length ≤ n ∧
      Accepts (coding s head (b.push m) .statement) vs p := by
  have kinds : t.kind ≠ .word .end_ ∧ t.kind ≠ .word .else_ ∧ t.kind ≠ .data := by
    simpa [Stops] using continues
  rcases h.statement with ⟨-, data, -⟩ | ⟨_, _, b', r', ⟨⟩, accepted, h⟩
  · exact absurd (data t rfl) kinds.2.2
  simp only [acceptStatement] at accepted
  split at accepted
  · next ht =>
    obtain ⟨⟩ := accepted
    exact ⟨[t], ts, _, rfl, .label ht, short, h⟩
  · next ht =>
    obtain ⟨⟩ := accepted
    exact ⟨[t], ts, _, rfl, .leave ht, short, h⟩
  · next ht =>
    obtain ⟨⟩ := accepted
    obtain ⟨u, vs, value, rfl, hu, h⟩ := split_exit h
    exact ⟨[t, u], vs, _, rfl, .exit ht hu, by simp at short; omega, h⟩
  · next ht =>
    obtain ⟨⟩ := accepted
    exact split_assign .add ht short h
  · next ht =>
    obtain ⟨⟩ := accepted
    exact split_assign .sub ht short h
  · next ht =>
    obtain ⟨⟩ := accepted
    exact split_assign .mov ht short h
  · next ht =>
    obtain ⟨⟩ := accepted
    obtain ⟨u, vs, rfl, hu, h⟩ := split_jump h
    exact ⟨[t, u], vs, _, rfl, .jump ht hu, by simp at short; omega, h⟩
  · next ht =>
    obtain ⟨⟩ := accepted
    obtain ⟨cs, i, us, conditions, connectives, rfl, hc, hi, h⟩ := split_conditions n short h
    have fits := fits_of_not_afterElse (not_afterElse_enter (b := b)
      (o := .whileLoop t ⟨[] ++ conditions, [] ++ connectives⟩) (by simp)) us
    simp only [List.length_append, List.length_cons] at short
    obtain ⟨us, e, vs, body, rfl, hb, he, h⟩ := split_block split (by omega) fits (by simp) h
    simp only [List.length_append, List.length_cons] at short
    exact ⟨_, vs, _, by simp, .whileLoop ht hc hi hb he, by omega, h⟩
  · next ht =>
    obtain ⟨⟩ := accepted
    obtain ⟨c, u, l, w, m, i, us, counter, limit, increment, rfl, hc, hu, hl, hw, hm, hi, h⟩ :=
      split_range h
    have fits := fits_of_not_afterElse (not_afterElse_enter (b := b)
      (o := .forLoop t counter limit increment) (by simp)) us
    simp only [List.length_cons] at short
    obtain ⟨us, e, vs, body, rfl, hb, he, h⟩ := split_block split (by omega) fits (by simp) h
    simp only [List.length_append, List.length_cons] at short
    exact ⟨_, vs, _, by simp, .forLoop ht hc hu hl hw hm hi hb he, by omega, h⟩
  · next ht =>
    obtain ⟨⟩ := accepted
    have fits := fits_of_not_afterElse (not_afterElse_enter (b := b) (o := .loop t) (by simp)) ts
    obtain ⟨us, e, vs, body, rfl, hb, he, h⟩ := split_block split short fits (by simp) h
    simp only [List.length_append, List.length_cons] at short
    exact ⟨_, vs, _, by simp, .loop ht hb he, by omega, h⟩
  · next ht =>
    rw [beginChoice_of_not_afterElse (fits t rfl ht)] at accepted
    obtain ⟨⟩ := accepted
    obtain ⟨cs, i, us, vs, ws, conditions, connectives, body, elseBody, rfl, hc, hi, hb, hw, h⟩ :=
      split_choice split tails short h
    simp only [List.length_append, List.length_cons] at short
    exact ⟨_, ws, _, by simp, .choice ht hc hi hb hw, by omega, h⟩
  · next ht => exact absurd ht kinds.2.1
  · next ht => exact absurd ht kinds.1
  · exact absurd accepted (by simp)

theorem blockSplits_succ {n : Nat} (split : BlockSplits s head p n)
    (tails : TailSplits s head p n) : BlockSplits s head p (n + 1) := by
  intro ts b short fits h
  by_cases stops : Stops ts
  · refine ⟨[], ts, [], rfl, .nil, stops, ?_⟩
    rw [List.append_nil]
    exact h
  · cases ts with
    | nil => exact absurd (fun t ht => absurd ht (by simp)) stops
    | cons t ts =>
      rw [List.length_cons] at short
      obtain ⟨us, vs, m, eq, hm, shorter, h⟩ := split_statement split tails (by omega) fits stops h
      have more := fits_of_not_afterElse (not_afterElse_of_body (b := b.push m)
        (by simp [Blocks.push])) vs
      obtain ⟨ws, xs, ns, rfl, hb, stops, h⟩ := split vs _ shorter more h
      refine ⟨us ++ ws, xs, m :: ns, by simp [eq], .cons hm hb, stops, ?_⟩
      simpa [Blocks.push] using h

/-- Blocks and tails are split off accepted tokens, however many there are. -/
theorem splits (n : Nat) : BlockSplits s head p n ∧ TailSplits s head p n := by
  induction n with
  | zero =>
    constructor
    · intro ts b short _ h
      obtain rfl := List.length_eq_zero_iff.mp (Nat.le_zero.mp short)
      refine ⟨[], [], [], rfl, .nil, by simp [Stops], ?_⟩
      rw [List.append_nil]
      exact h
    · intro ts keyword chain outer thenBody before frames short _ h
      obtain ⟨t, us, -, -, rfl, -⟩ := h.inBlock rfl
      exact absurd short (by simp)
  | succ n ih => exact ⟨blockSplits_succ ih.1 ih.2, tailSplits_succ ih.1 ih.2⟩

/-- Accepted tokens of the code section split into statements and the rest. -/
theorem split_code (h : Accepts (coding s head .empty .statement) ts p) :
    ∃ us vs ns, ts = us ++ vs ∧ IsBlock us ns ∧ Accepts (s.finishCode head ns) vs p := by
  have fits : Fits .empty ts := fits_of_not_afterElse (by simp [AfterElse, Blocks.empty]) ts
  obtain ⟨us, vs, ns, rfl, hb, stops, h⟩ := (splits ts.length).1 ts _ (Nat.le_refl _) fits h
  refine ⟨us, vs, ns, rfl, hb, ?_⟩
  rcases h.statement with ⟨-, -, h⟩ | ⟨t, vs, _, _, rfl, accepted, -⟩
  · exact h
  -- outside of all blocks there is nothing to end
  · rcases stops t rfl with ht | ht | ht <;>
      simp [acceptStatement, ht, Blocks.empty] at accepted

end Statements

/-! ### Declarations -/

section Declarations

variable {s : State} {head : Token} {ds : List Node} {p : Program}

/-- The end of an enumeration, or a further member. -/
theorem acceptMember_cases {keyword name m : Token} {before : List Variable} {next : Int}
    {ds' : List Node} {d' : Declaring}
    (h : acceptDeclaring ds (.member keyword name before next) m = .ok (ds', d')) :
    (m.kind = .word .end_ ∧ ds' = ds ++ [.enum name.text before] ∧ d' = .declaration) ∨
    ((m.kind = .var ∨ m.kind = .name) ∧ ds' = ds ∧ d' = .index keyword name before next m) := by
  simp only [acceptDeclaring, acceptMember] at h
  split at h
  · next he =>
    obtain ⟨⟩ := h
    exact .inl ⟨he, rfl, rfl⟩
  · next hm =>
    obtain ⟨⟩ := h
    exact .inr ⟨.inl hm, rfl, rfl⟩
  · next hm =>
    obtain ⟨⟩ := h
    exact .inr ⟨.inr hm, rfl, rfl⟩
  · exact absurd h (by simp)

/-- The index of a member has to be a 64-bit integer. -/
theorem acceptIndex_int {keyword name m i : Token} {before : List Variable} {next : Int}
    {ds' : List Node} {d' : Declaring} (hi : i.kind = .int)
    (h : acceptDeclaring ds (.index keyword name before next m) i = .ok (ds', d')) :
    ∃ value, Text.readInt i.text = .ok value ∧ ds' = ds ∧
      d' = .member keyword name (before ++ [memberVariable name m value])
        (Text.wrap64 (value + 1)) := by
  simp only [acceptDeclaring, hi] at h
  cases read : Text.readInt i.text with
  | error e =>
    rw [read] at h
    exact absurd h (by simp)
  | ok value =>
    rw [read] at h
    obtain ⟨⟩ := h
    exact ⟨value, rfl, rfl, rfl⟩

/-- The remaining members of an enumeration, and its `end`. -/
theorem split_members (n : Nat) {keyword name : Token} {before : List Variable} {next : Int}
    {ts : List Token} (short : ts.length ≤ n)
    (h : Accepts (declaring s head ds (.member keyword name before next)) ts p) :
    ∃ us e vs members, ts = us ++ e :: vs ∧ IsMembers name.text next us members ∧
      e.kind = .word .end_ ∧
      Accepts (declaring s head (ds ++ [.enum name.text (before ++ members)]) .declaration) vs
        p := by
  induction n generalizing before next ts with
  | zero =>
    obtain ⟨t, us, _, _, rfl, -⟩ := h.unconsData (by simp [Declaring.missing?])
    exact absurd short (by simp)
  | succ n ih =>
    obtain ⟨m, ts, _, _, rfl, accepted, h⟩ := h.unconsData (by simp [Declaring.missing?])
    rw [List.length_cons] at short
    rcases acceptMember_cases accepted with ⟨he, rfl, rfl⟩ | ⟨hm, rfl, rfl⟩
    · refine ⟨[], m, ts, [], rfl, .nil, he, ?_⟩
      rw [List.append_nil]
      exact h
    · obtain ⟨t, us, _, _, rfl, accepted, rest⟩ := h.unconsData (by simp [Declaring.missing?])
      by_cases ht : t.kind = .int
      · obtain ⟨value, hv, rfl, rfl⟩ := acceptIndex_int ht accepted
        rw [List.length_cons] at short
        obtain ⟨us, e, vs, members, rfl, hs, he, h⟩ := ih (by omega) rest
        rw [List.append_assoc] at h
        exact ⟨m :: t :: us, e, vs, _, rfl, .indexed hm ht hv hs, he, h⟩
      -- without an index the token after the member is read once more
      · rw [Accepts, run_index ht] at h
        obtain ⟨us, e, vs, members, eq, hs, he, h⟩ := ih (by omega) h
        rw [List.append_assoc] at h
        exact ⟨m :: us, e, vs, _, by rw [eq]; rfl, .counted hm hs, he, h⟩

theorem split_value {t : Token} {ts : List Token} (ht : t.kind = .var)
    (h : Accepts (declaring s head ds (.value t)) ts p) :
    ∃ v vs n, ts = v :: vs ∧ IsDeclaration [t, v] n ∧
      Accepts (declaring s head (ds ++ [n]) .declaration) vs p := by
  obtain ⟨v, vs, _, _, rfl, accepted, h⟩ := h.unconsData (by simp [Declaring.missing?])
  simp only [acceptDeclaring] at accepted
  split at accepted
  · next hv =>
    obtain ⟨⟩ := accepted
    exact ⟨v, vs, _, rfl, .initialised ht hv, h⟩
  · next hv =>
    obtain ⟨⟩ := accepted
    exact ⟨v, vs, _, rfl, .uninitialised ht hv, h⟩
  · exact absurd accepted (by simp)

theorem split_enum {k : Token} {ts : List Token} (hk : k.kind = .word .enum)
    (h : Accepts (declaring s head ds (.enumName k)) ts p) :
    ∃ us vs n, ts = us ++ vs ∧ IsDeclaration (k :: us) n ∧
      Accepts (declaring s head (ds ++ [n]) .declaration) vs p := by
  obtain ⟨name, ts, _, _, rfl, accepted, h⟩ := h.unconsData (by simp [Declaring.missing?])
  simp only [acceptDeclaring] at accepted
  split at accepted
  · next hn =>
    obtain ⟨⟩ := accepted
    obtain ⟨us, e, vs, members, rfl, hm, he, h⟩ := split_members ts.length (Nat.le_refl _) h
    exact ⟨name :: (us ++ [e]), vs, _, by simp, .enum hk hn hm he, h⟩
  · exact absurd accepted (by simp)

/-- Between two declarations the section ends, or a declaration follows. -/
theorem split_declaration {ts : List Token} (h : Accepts (declaring s head ds .declaration) ts p) :
    Accepts (s.finishData head ds) ts p ∨
    ∃ us vs n, ts = us ++ vs ∧ IsDeclaration us n ∧ vs.length < ts.length ∧
      Accepts (declaring s head (ds ++ [n]) .declaration) vs p := by
  rcases h.declaration with h | ⟨t, us, _, _, rfl, accepted, h⟩
  · exact .inl h
  right
  simp only [acceptDeclaring] at accepted
  split at accepted
  · next ht =>
    obtain ⟨⟩ := accepted
    obtain ⟨v, vs, n, rfl, hn, h⟩ := split_value ht h
    refine ⟨[t, v], vs, n, rfl, hn, ?_, h⟩
    simp only [List.length_cons]
    omega
  · next hk =>
    obtain ⟨⟩ := accepted
    obtain ⟨us, vs, n, rfl, hn, h⟩ := split_enum hk h
    refine ⟨t :: us, vs, n, rfl, hn, ?_, h⟩
    simp only [List.length_append, List.length_cons]
    omega
  · exact absurd accepted (by simp)

/-- Accepted tokens of the data section split into declarations and the rest. -/
theorem split_declarations (n : Nat) {ts : List Token} (short : ts.length ≤ n)
    (h : Accepts (declaring s head ds .declaration) ts p) :
    ∃ us vs ns, ts = us ++ vs ∧ IsDeclarations us ns ∧
      Accepts (s.finishData head (ds ++ ns)) vs p := by
  induction n generalizing ds ts with
  | zero =>
    obtain rfl := List.length_eq_zero_iff.mp (Nat.le_zero.mp short)
    refine ⟨[], [], [], rfl, .nil, ?_⟩
    rw [List.append_nil]
    exact h
  | succ n ih =>
    rcases split_declaration h with h | ⟨us, vs, d, rfl, hd, shorter, h⟩
    · refine ⟨[], ts, [], rfl, .nil, ?_⟩
      rw [List.append_nil]
      exact h
    · obtain ⟨ws, xs, ns, rfl, hs, h⟩ := ih (by omega) h
      rw [List.append_assoc] at h
      exact ⟨us ++ ws, xs, d :: ns, by simp, .cons hd hs, h⟩

end Declarations

/-! ### Programs -/

/-- Outside of all sections the tokens end, or a section follows that was absent so far. -/
theorem accepts_outside {s : State} {ts : List Token} {p : Program} (outside : s.phase = .outside)
    (h : Accepts s ts p) :
    (ts = [] ∧ p = s.program) ∨
    (∃ head us vs ns, ts = us ++ vs ∧ IsData us ns ∧ s.data? = none ∧
      Accepts (s.finishData head ns) vs p) ∨
    ∃ head us vs ns, ts = us ++ vs ∧ IsCode us ns ∧ s.code? = none ∧
      Accepts (s.finishCode head ns) vs p := by
  cases ts with
  | nil =>
    rw [Accepts, run_nil, State.finish, outside] at h
    exact .inl ⟨rfl, (Except.ok.inj h).symm⟩
  | cons t ts =>
    right
    have settled : s.settle t = s := by simp [State.settle, outside]
    cases accepted : s.accept t with
    | error e =>
      rw [Accepts, run_cons_of_error ts (by rw [settled]; exact accepted)] at h
      exact absurd h (by simp)
    | ok next =>
      rw [Accepts, run_cons_of_ok ts (by rw [settled]; exact accepted)] at h
      simp only [State.accept, outside] at accepted
      split at accepted
      · next ht =>
        left
        split at accepted
        · exact absurd accepted (by simp)
        · next absent =>
          obtain ⟨⟩ := accepted
          obtain ⟨us, vs, ns, rfl, hs, h⟩ := split_declarations ts.length (Nat.le_refl _) h
          exact ⟨t, t :: us, vs, ns, rfl, .mk ht hs, by simpa using absent, h⟩
      · next ht =>
        right
        split at accepted
        · exact absurd accepted (by simp)
        · next absent =>
          obtain ⟨⟩ := accepted
          obtain ⟨us, vs, ns, rfl, hs, h⟩ := split_code h
          exact ⟨t, t :: us, vs, ns, rfl, .mk ht hs, by simpa using absent, h⟩
      · exact absurd accepted (by simp)

/-- With both sections present nothing may follow. -/
theorem accepts_complete {s : State} {ts : List Token} {p : Program} {ds cs : List Node}
    (outside : s.phase = .outside) (data : s.data? = some ds) (code : s.code? = some cs)
    (h : Accepts s ts p) : ts = [] ∧ p = .ofSections ds cs := by
  rcases accepts_outside outside h with ⟨rfl, rfl⟩ | ⟨_, _, _, _, -, -, absent, -⟩ |
    ⟨_, _, _, _, -, -, absent, -⟩
  · simp [State.program, data, code]
  · rw [data] at absent
    exact absurd absent (by simp)
  · rw [code] at absent
    exact absurd absent (by simp)

/-- **Every accepted sequence of tokens is derived**, with the program that it yields as its
tree. -/
theorem isProgram_of_accepts {ts : List Token} {p : Program} (h : Accepts .initial ts p) :
    IsProgram ts p := by
  rcases accepts_outside rfl h with ⟨rfl, rfl⟩ | ⟨_, us, vs, ds, rfl, hd, -, h⟩ |
    ⟨_, us, vs, cs, rfl, hc, -, h⟩
  · exact .empty
  · rcases accepts_outside rfl h with ⟨rfl, rfl⟩ | ⟨_, _, _, _, -, -, again, -⟩ |
      ⟨_, us, vs, cs, rfl, hc, -, h⟩
    · rw [List.append_nil]
      exact .data hd
    · exact absurd again (by simp [State.finishData])
    · obtain ⟨rfl, rfl⟩ := accepts_complete rfl rfl rfl h
      rw [List.append_nil]
      exact .dataCode hd hc
  · rcases accepts_outside rfl h with ⟨rfl, rfl⟩ | ⟨_, us, vs, ds, rfl, hd, -, h⟩ |
      ⟨_, _, _, _, -, -, again, -⟩
    · rw [List.append_nil]
      exact .code hc
    · obtain ⟨rfl, rfl⟩ := accepts_complete rfl rfl rfl h
      rw [List.append_nil]
      exact .codeData hc hd
    · exact absurd again (by simp [State.finishCode])

/-- **The parser accepts exactly its grammar.**  Whatever the tokens, reading them yields a program
if and only if the grammar derives them with that program as the tree; so no sequence of tokens has
two trees. -/
theorem result_ofTokens_eq_ok_iff (ts : List Token) :
    (∀ p, (Program.ofTokens ts).result = .ok p ↔ IsProgram ts p) ∧
    ∀ p q, IsProgram ts p → IsProgram ts q → p = q := by
  refine ⟨fun p => ⟨isProgram_of_accepts, accepts_of_isProgram⟩, fun p q hp hq => ?_⟩
  have first : (Program.ofTokens ts).result = .ok p := accepts_of_isProgram hp
  have second : (Program.ofTokens ts).result = .ok q := accepts_of_isProgram hq
  exact Except.ok.inj (first.symm.trans second)

end XtAsm.Grammar
