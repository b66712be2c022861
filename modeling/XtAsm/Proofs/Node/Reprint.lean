import XtAsm.Proofs.Node.Expressible
import XtAsm.Proofs.Text.Numeral

/-!
# Source forms of trees

The source form of an expressible tree is a layout of lexemes from which the grammar derives the
same tree.

* `Reprints`, `ReprintsAll`: what this says of a statement, and of several;
* `reprints_of_isExpressible`: it holds of every expressible statement;
* `reprints_variable`, `reprints_enum`: it holds of every declaration whose members have readable
  names and values.
-/

namespace XtAsm.Node

open Lexer Grammar

/-- The lexemes are read by the relation, wherever they stand. -/
def Reads (R : List Token → Prop) (ls : List (Kind × Text)) : Prop :=
  ∀ ts : List Token, ts.map Token.lexeme = ls → R ts

/-- The source form of a tree is read as the tree. -/
def Reprints (R : List Token → Node → Prop) (n : Node) : Prop :=
  ∃ t ls, n.render = .ok t ∧ Prints t ls ∧ Reads (R · n) ls

/-- The source forms of several trees are read as the trees. -/
def ReprintsAll (R : List Token → List Node → Prop) (ns : List Node) : Prop :=
  ∃ ts ls, renderAll ns = .ok ts ∧ PrintsAll ts ls ∧ Reads (R · ns) ls

theorem kind_of_lexeme {t : Token} {k : Kind} {s : Text} (h : t.lexeme = (k, s)) : t.kind = k :=
  congrArg Prod.fst h

theorem text_of_lexeme {t : Token} {k : Kind} {s : Text} (h : t.lexeme = (k, s)) : t.text = s :=
  congrArg Prod.snd h

/-- Tokens with two lists of lexemes one after the other. -/
theorem exists_append {ts : List Token} {ls ms : List (Kind × Text)}
    (h : ts.map Token.lexeme = ls ++ ms) :
    ∃ us vs, ts = us ++ vs ∧ us.map Token.lexeme = ls ∧ vs.map Token.lexeme = ms :=
  List.map_eq_append_iff.1 h

/-- Tokens that start with a given lexeme. -/
theorem exists_cons {ts : List Token} {l : Kind × Text} {ms : List (Kind × Text)}
    (h : ts.map Token.lexeme = l :: ms) :
    ∃ t us, ts = t :: us ∧ t.lexeme = l ∧ us.map Token.lexeme = ms :=
  List.map_eq_cons_iff.1 h

/-- A token with a given lexeme. -/
theorem exists_singleton {ts : List Token} {l : Kind × Text} (h : ts.map Token.lexeme = [l]) :
    ∃ t, ts = [t] ∧ t.lexeme = l := by
  obtain ⟨t, us, rfl, ht, hu⟩ := exists_cons h
  rw [List.map_eq_nil_iff.1 hu]
  exact ⟨t, rfl, ht⟩

/-- Tokens that end with a given lexeme. -/
theorem exists_snoc {ts : List Token} {l : Kind × Text} {ls : List (Kind × Text)}
    (h : ts.map Token.lexeme = ls ++ [l]) :
    ∃ us t, ts = us ++ [t] ∧ us.map Token.lexeme = ls ∧ t.lexeme = l := by
  obtain ⟨us, vs, rfl, hu, hv⟩ := exists_append h
  obtain ⟨t, rfl, ht⟩ := exists_singleton hv
  exact ⟨us, t, rfl, hu, ht⟩

/-- What is read one by one is read as a list. -/
theorem reprintsAll_of_forall {R : List Token → Node → Prop} {S : List Token → List Node → Prop}
    (nil : S [] []) (cons : ∀ {ts us n ns}, R ts n → S us ns → S (ts ++ us) (n :: ns))
    {ns : List Node} (h : ∀ n ∈ ns, Reprints R n) : ReprintsAll S ns := by
  induction ns with
  | nil =>
    refine ⟨[], [], rfl, .nil, fun ts hts => ?_⟩
    rw [List.map_eq_nil_iff.1 hts]
    exact nil
  | cons n ns ih =>
    rw [List.forall_mem_cons] at h
    obtain ⟨t, ls, rendered, prints, reads⟩ := h.1
    obtain ⟨ts, ms, renderedAll, printsAll, readsAll⟩ := ih h.2
    refine ⟨t :: ts, _, ?_, .cons prints printsAll, fun us hus => ?_⟩
    · rw [renderAll, rendered, renderedAll]
      rfl
    · obtain ⟨vs, ws, rfl, hvs, hws⟩ := exists_append hus
      exact cons (reads vs hvs) (readsAll ws hws)

/-! ### Operands and conditions -/

/-- The source form of an operand is a lexeme that denotes it. -/
theorem exists_operand {n : Node} (h : n.IsOperand) :
    ∃ l w, n.render = .ok (Text.ofChars w) ∧ Spells l w ∧ l.1.isOperand = true ∧
      (n.isLiteral = false → l.1 ≠ .int) ∧ ∀ t : Token, t.lexeme = l → Grammar.IsOperand t n := by
  cases h with
  | var h =>
    obtain ⟨w, hw⟩ := h
    refine ⟨_, w, ?_, hw, rfl, by simp, fun t ht => ?_⟩
    · cases hw
      rfl
    · exact text_of_lexeme ht ▸ .var (kind_of_lexeme ht)
  | register h =>
    obtain ⟨w, hw⟩ := h
    refine ⟨_, w, ?_, hw, rfl, by simp, fun t ht => ?_⟩
    · cases hw
      rfl
    · exact text_of_lexeme ht ▸ .register (kind_of_lexeme ht)
  | literal h =>
    obtain ⟨w, hw⟩ := h
    refine ⟨_, w, ?_, hw, rfl, by simp [isLiteral], fun t ht => ?_⟩
    · cases hw
      rfl
    · exact text_of_lexeme ht ▸ .literal (kind_of_lexeme ht)

/-- The source form of a destination is a lexeme that denotes it. -/
theorem exists_destination {n : Node} (h : n.IsDestination) :
    ∃ l w, n.render = .ok (Text.ofChars w) ∧ Spells l w ∧
      ∀ t : Token, t.lexeme = l → Grammar.IsDestination t n := by
  cases h with
  | var h =>
    obtain ⟨w, hw⟩ := h
    refine ⟨_, w, ?_, hw, fun t ht => text_of_lexeme ht ▸ .var (kind_of_lexeme ht)⟩
    cases hw
    rfl
  | register h =>
    obtain ⟨w, hw⟩ := h
    refine ⟨_, w, ?_, hw, fun t ht => text_of_lexeme ht ▸ .register (kind_of_lexeme ht)⟩
    cases hw
    rfl

theorem render_ofRelation (r : Relation) :
    (Comparator.ofRelation r).render = Text.ofChars r.chars := by
  cases r <;> rfl

theorem render_ofJunction (j : Junction) :
    (Connective.ofJunction j).render = Text.ofChars j.chars := by
  cases j <;> rfl

/-- The source form of a comparison is read as the comparison. -/
theorem exists_comparison {c : Condition} (h : IsComparison c) :
    ∃ t ls, renderCondition c = .ok t ∧ Prints t ls ∧ Reads (IsCondition · c) ls := by
  cases h with
  | @mk r lhs rhs hl hr literals =>
    obtain ⟨l, w, renderLeft, spellsLeft, -, kindLeft, isLeft⟩ := exists_operand hl
    obtain ⟨m, v, renderRight, spellsRight, -, kindRight, isRight⟩ := exists_operand hr
    refine ⟨_, _, ?_, ((Prints.ofSpells spellsLeft).spaced (Prints.ofSpells (.compare r))).spaced
      (Prints.ofSpells spellsRight), ?_⟩
    · rw [renderCondition, renderLeft, renderRight, render_ofRelation]
      rfl
    · intro ts hts
      obtain ⟨a, us, rfl, ha, hus⟩ := exists_cons hts
      obtain ⟨o, vs, rfl, ho, hvs⟩ := exists_cons hus
      obtain ⟨b, rfl, hb⟩ := exists_singleton hvs
      refine .mk (isLeft a ha) (kind_of_lexeme ho) (isRight b hb) ?_
      rintro ⟨ka, kb⟩
      refine literals ⟨?_, ?_⟩
      · refine Bool.not_eq_false _ |>.mp fun hf => kindLeft hf ?_
        rw [← ka, ← ha]
        rfl
      · refine Bool.not_eq_false _ |>.mp fun hf => kindRight hf ?_
        rw [← kb, ← hb]
        rfl

/-- The source form of a chain of conditions is read as the chain. -/
theorem exists_chain {cs : List Condition} {ops : List Connective} (h : IsChain cs ops) :
    ∃ t ts u ls, renderConditions cs = .ok (t :: ts) ∧ joinConditions (t :: ts) ops = .ok u ∧
      Prints u ls ∧ Reads (IsConditions · cs ops) ls := by
  induction h with
  | single h =>
    obtain ⟨t, ls, rendered, prints, reads⟩ := exists_comparison h
    refine ⟨t, [], t, ls, ?_, rfl, prints, fun ts hts => .single (reads ts hts)⟩
    rw [renderConditions, rendered]
    rfl
  | @connect c j cs ops h _ ih =>
    obtain ⟨t, ls, rendered, prints, reads⟩ := exists_comparison h
    obtain ⟨t', ts, u, ms, renderedRest, joined, printsRest, readsRest⟩ := ih
    refine ⟨t, t' :: ts, _, _, ?_, ?_,
      (prints.spaced (Prints.ofSpells (.connect j))).spaced printsRest, ?_⟩
    · rw [renderConditions, rendered, renderedRest]
      rfl
    · rw [joinConditions, joined, render_ofJunction]
      · rfl
      · simp
    · intro us hus
      obtain ⟨vs, ws, rfl, hvs, hws⟩ := exists_append hus
      obtain ⟨xs, o, rfl, hxs, ho⟩ := exists_snoc hvs
      rw [List.append_assoc]
      exact .connect (reads xs hxs) (kind_of_lexeme ho) (readsRest ws hws)

/-! ### Statements -/

/-- The lexeme of a reserved word. -/
abbrev wordLexeme (w : Keyword) : Kind × Text := (.word w, Text.ofString w.spelling)

theorem reprintsAll_block {ns : List Node} (h : ∀ n ∈ ns, Reprints IsStatement n) :
    ReprintsAll IsBlock ns :=
  reprintsAll_of_forall .nil .cons h

theorem reprints_label {name : Text} (h : Written .label name) :
    Reprints IsStatement (.label name) := by
  obtain ⟨w, hw⟩ := h
  refine ⟨Text.ofChars w, _, ?_, Prints.ofSpells hw, fun ts hts => ?_⟩
  · cases hw
    rfl
  · obtain ⟨t, rfl, ht⟩ := exists_singleton hts
    exact text_of_lexeme ht ▸ .label (kind_of_lexeme ht)

theorem reprints_leave : Reprints IsStatement .leave := by
  refine ⟨_, _, rfl, Prints.ofSpells (.word .break_), fun ts hts => ?_⟩
  obtain ⟨t, rfl, ht⟩ := exists_singleton hts
  exact .leave (kind_of_lexeme ht)

theorem reprints_jump {target : Text} (h : Written .label target) :
    Reprints IsStatement (.jump target) := by
  obtain ⟨w, hw⟩ := h
  refine ⟨_, _, ?_, (Prints.ofSpells hw).afterWord .jmp (s := "jmp ") rfl, fun ts hts => ?_⟩
  · cases hw
    rfl
  · obtain ⟨k, us, rfl, hk, hus⟩ := exists_cons hts
    obtain ⟨t, rfl, ht⟩ := exists_singleton hus
    exact text_of_lexeme ht ▸ .jump (kind_of_lexeme hk) (kind_of_lexeme ht)

theorem reprints_exit {value : Node} (h : value.IsOperand) :
    Reprints IsStatement (.exit value) := by
  obtain ⟨l, w, rendered, spells, -, -, isOperand⟩ := exists_operand h
  refine ⟨_, _, ?_, (Prints.ofSpells spells).afterWord .exit (s := "exit ") rfl, fun ts hts => ?_⟩
  · rw [render, rendered]
    rfl
  · obtain ⟨k, us, rfl, hk, hus⟩ := exists_cons hts
    obtain ⟨t, rfl, ht⟩ := exists_singleton hus
    exact .exit (kind_of_lexeme hk) (isOperand t ht)

theorem reprints_assign {op : Mnemonic} {target source : Node} (ht : target.IsDestination)
    (hs : source.IsOperand) : Reprints IsStatement (.assign op target source) := by
  obtain ⟨l, w, renderedTarget, spellsTarget, isTarget⟩ := exists_destination ht
  obtain ⟨m, v, renderedSource, spellsSource, -, -, isSource⟩ := exists_operand hs
  refine ⟨_, _, ?_, ((Prints.ofSpells (.word (keywordOf op))).spaced
    (Prints.ofSpells spellsTarget)).spaced (Prints.ofSpells spellsSource), fun ts hts => ?_⟩
  · rw [render, renderedTarget, renderedSource]
    cases op <;> rfl
  · obtain ⟨k, us, rfl, hk, hus⟩ := exists_cons hts
    obtain ⟨d, vs, rfl, hd, hvs⟩ := exists_cons hus
    obtain ⟨s, rfl, hs⟩ := exists_singleton hvs
    exact .assign (kind_of_lexeme hk) (isTarget d hd) (isSource s hs)

theorem reprints_loop {body : List Node} (h : ReprintsAll IsBlock body) :
    Reprints IsStatement (.loop body) := by
  obtain ⟨ts, ls, rendered, prints, reads⟩ := h
  refine ⟨_, _, ?_, (prints.indented (Prints.ofSpells (.word .loop))).breakWord .end_
    (s := "\nend") rfl, fun us hus => ?_⟩
  · rw [render, rendered]
    rfl
  · obtain ⟨vs, e, rfl, hvs, he⟩ := exists_snoc hus
    obtain ⟨k, ws, rfl, hk, hws⟩ := exists_cons hvs
    exact .loop (kind_of_lexeme hk) (reads ws hws) (kind_of_lexeme he)

theorem reprints_whileLoop {cs : List Condition} {ops : List Connective} {body : List Node}
    (hc : IsChain cs ops) (hb : ReprintsAll IsBlock body) :
    Reprints IsStatement (.whileLoop cs ops body) := by
  obtain ⟨t, ts, header, ls, conditions, joined, printsHeader, readsHeader⟩ := exists_chain hc
  obtain ⟨us, ms, rendered, prints, reads⟩ := hb
  refine ⟨_, _, ?_, (prints.indented ((printsHeader.afterWord .while_ (s := "while ") rfl).spaceWord
    .in_ (s := " in") rfl)).breakWord .end_ (s := "\nend") rfl, fun vs hvs => ?_⟩
  · simp only [render, conditions, rendered, joined, bind, Except.bind]
    rfl
  · obtain ⟨ws, e, rfl, hws, he⟩ := exists_snoc hvs
    obtain ⟨hs, bs, rfl, hhs, hbs⟩ := exists_append hws
    obtain ⟨xs, i, rfl, hxs, hi⟩ := exists_snoc hhs
    obtain ⟨k, zs, rfl, hk, hzs⟩ := exists_cons hxs
    have h := IsStatement.whileLoop (kind_of_lexeme hk) (readsHeader zs hzs) (kind_of_lexeme hi)
      (reads bs hbs) (kind_of_lexeme he)
    simpa using h

theorem reprints_forLoop {counter limit increment : Node} {body : List Node}
    (hc : counter.IsOperand) (hl : limit.IsOperand) (hi : increment.IsOperand)
    (hb : ReprintsAll IsBlock body) :
    Reprints IsStatement (.forLoop counter limit increment body) := by
  obtain ⟨c, w, renderedC, spellsC, operandC, -, isC⟩ := exists_operand hc
  obtain ⟨l, v, renderedL, spellsL, operandL, -, isL⟩ := exists_operand hl
  obtain ⟨i, u, renderedI, spellsI, -, -, isI⟩ := exists_operand hi
  obtain ⟨us, ms, rendered, prints, reads⟩ := hb
  -- no spaces around the semicolons
  have range := Prints.separated spellsC operandC
    (Prints.separated spellsL operandL (Prints.ofSpells spellsI))
  refine ⟨_, _, ?_, (prints.indented ((range.afterWord .for_ (s := "for ") rfl).spaceWord
    .in_ (s := " in") rfl)).breakWord .end_ (s := "\nend") rfl, fun vs hvs => ?_⟩
  · simp only [render, renderedC, renderedL, renderedI, rendered, bind, Except.bind,
      List.append_assoc]
    rfl
  · obtain ⟨ws, e, rfl, hws, he⟩ := exists_snoc hvs
    obtain ⟨hs, bs, rfl, hhs, hbs⟩ := exists_append hws
    obtain ⟨k, _, rfl, hk, hhs⟩ := exists_cons hhs
    obtain ⟨a, _, rfl, ha, hhs⟩ := exists_cons hhs
    obtain ⟨s, _, rfl, hs, hhs⟩ := exists_cons hhs
    obtain ⟨b, _, rfl, hb, hhs⟩ := exists_cons hhs
    obtain ⟨s', _, rfl, hs', hhs⟩ := exists_cons hhs
    obtain ⟨d, _, rfl, hd, hhs⟩ := exists_cons hhs
    obtain ⟨i, rfl, hi⟩ := exists_singleton hhs
    have h := IsStatement.forLoop (kind_of_lexeme hk) (isC a ha) (kind_of_lexeme hs) (isL b hb)
      (kind_of_lexeme hs') (isI d hd) (kind_of_lexeme hi) (reads bs hbs) (kind_of_lexeme he)
    simpa using h

/-- What stands after the first body of a choice, given the source forms of the second one. -/
def tailText (elseBody : List Node) (texts : List Text) : Text :=
  match elseIf? elseBody with
  | some _ => "\nelse " ++ texts.flatten
  | none =>
    let elsePart : Text := if elseBody.isEmpty then [] else "\nelse" ++ indented texts
    elsePart ++ "\nend"

theorem render_choice {cs : List Condition} {ops : List Connective} {thenBody elseBody : List Node}
    {conditions thens elses : List Text} {header : Text}
    (hc : renderConditions cs = .ok conditions) (hj : joinConditions conditions ops = .ok header)
    (ht : renderAll thenBody = .ok thens) (he : renderAll elseBody = .ok elses) :
    (Node.choice cs ops thenBody elseBody).render =
      .ok ("if " ++ header ++ " in" ++ indented thens ++ tailText elseBody elses) := by
  simp only [render, hc, hj, ht, he, bind, Except.bind, tailText]
  cases elseIf? elseBody <;> simp [pure, Except.pure]

/-- What stands after the first body of a choice is read as its tail. -/
theorem exists_tail {elseBody : List Node} (hs : ∀ n ∈ elseBody, Reprints IsStatement n)
    (nested : ∀ n ∈ elseBody.head?, n.isChoice = true → elseBody = [n]) :
    ∃ elses ls, renderAll elseBody = .ok elses ∧
      (∀ t ks, Prints t ks → Prints (t ++ tailText elseBody elses) (ks ++ ls)) ∧
      Reads (IsTail · elseBody) ls := by
  obtain ⟨elses, ls, rendered, prints, reads⟩ := reprintsAll_block hs
  match elseBody, nested with
  | [], _ =>
    cases rendered
    refine ⟨[], [wordLexeme .end_], rfl, fun t ks h => h.breakWord .end_ rfl, fun ts hts => ?_⟩
    obtain ⟨e, rfl, he⟩ := exists_singleton hts
    exact .close (kind_of_lexeme he)
  | n :: ns, nested =>
    by_cases choice : n.isChoice = true
    · -- the `end` of the nested choice is the end of both
      obtain rfl : ns = [] := (List.cons.inj (nested n rfl choice)).2
      obtain ⟨t, ls, rendered, prints, reads⟩ := hs n (by simp)
      cases n with
      | choice cs ops thenBody elseBody =>
        refine ⟨[t], wordLexeme .else_ :: ls, ?_, fun u ks h => ?_, fun ts hts => ?_⟩
        · rw [renderAll, rendered]
          rfl
        · have tail : tailText [.choice cs ops thenBody elseBody] [t] =
              Text.ofString "\nelse" ++ (Text.ofString " " ++ t) := by
            simp only [tailText, elseIf?, List.flatten_cons, List.flatten_nil, List.append_nil]
            rfl
          have prints := (h.breakWord .else_ (s := "\nelse") rfl).spaced prints
          simpa only [tail, List.append_assoc, List.singleton_append] using prints
        · obtain ⟨e, us, rfl, he, hus⟩ := exists_cons hts
          cases reads us hus with
          | choice hk hc hi hb ht => exact .elseIf (kind_of_lexeme he) hk hc hi hb ht
      | _ => cases choice
    · have notElseIf : elseIf? (n :: ns) = none := by
        cases n with
        | choice => exact absurd rfl choice
        | _ => rfl
      refine ⟨elses, wordLexeme .else_ :: (ls ++ [wordLexeme .end_]), rendered, fun u ks h => ?_,
        fun ts hts => ?_⟩
      · have := (prints.indented (h.breakWord .else_ (s := "\nelse") rfl)).breakWord .end_
          (s := "\nend") rfl
        simpa [tailText, notElseIf] using this
      · obtain ⟨e, us, rfl, he, hus⟩ := exists_cons hts
        obtain ⟨vs, f, rfl, hvs, hf⟩ := exists_snoc hus
        have block : IsBlock vs (n :: ns) := reads vs hvs
        refine .otherwise (kind_of_lexeme he) block (block.forall_head_iff.2 ?_) (kind_of_lexeme hf)
        simpa using choice

theorem reprints_choice {cs : List Condition} {ops : List Connective}
    {thenBody elseBody : List Node} (hc : IsChain cs ops) (ht : ReprintsAll IsBlock thenBody)
    (he : ∀ n ∈ elseBody, Reprints IsStatement n)
    (nested : ∀ n ∈ elseBody.head?, n.isChoice = true → elseBody = [n]) :
    Reprints IsStatement (.choice cs ops thenBody elseBody) := by
  obtain ⟨t, ts, header, ls, conditions, joined, printsHeader, readsHeader⟩ := exists_chain hc
  obtain ⟨thens, ms, renderedThen, printsThen, readsThen⟩ := ht
  obtain ⟨elses, ks, renderedElse, printsTail, readsTail⟩ := exists_tail he nested
  refine ⟨_, _, render_choice conditions joined renderedThen renderedElse, printsTail _ _
    (printsThen.indented ((printsHeader.afterWord .if_ rfl).spaceWord .in_ rfl)), fun us hus => ?_⟩
  obtain ⟨ws, tail, rfl, hws, htail⟩ := exists_append hus
  obtain ⟨hs, bs, rfl, hhs, hbs⟩ := exists_append hws
  obtain ⟨xs, i, rfl, hxs, hi⟩ := exists_snoc hhs
  obtain ⟨k, zs, rfl, hk, hzs⟩ := exists_cons hxs
  have h := IsStatement.choice (kind_of_lexeme hk) (readsHeader zs hzs) (kind_of_lexeme hi)
    (readsThen bs hbs) (readsTail tail htail)
  simpa using h

/-- The source form of an expressible statement is read as the statement. -/
theorem reprints_of_isExpressible {n : Node} (h : n.IsExpressible) : Reprints IsStatement n := by
  induction h with
  | label h => exact reprints_label h
  | leave => exact reprints_leave
  | jump h => exact reprints_jump h
  | exit h => exact reprints_exit h
  | assign ht hs => exact reprints_assign ht hs
  | loop _ ih => exact reprints_loop (reprintsAll_block ih)
  | whileLoop hc _ ih => exact reprints_whileLoop hc (reprintsAll_block ih)
  | forLoop hc hl hi _ ih => exact reprints_forLoop hc hl hi (reprintsAll_block ih)
  | choice hc _ _ nested iht ihe =>
    exact reprints_choice hc (reprintsAll_block iht) ihe nested

/-! ### Declarations -/

/-- A member that is read back: its name is no reserved word and starts with a letter, and its
value is not negative. -/
def IsReadable (name : Text) (m : Variable) : Prop :=
  ∃ (text : Text) (value : Nat), Written .name text ∧ value < Text.halfWords ∧
    m = ⟨name ++ "." ++ text, Text.ofNat value, true⟩

/-- The qualifier of a member is the name of its enumeration. -/
theorem memberName_qualified (name text value : Text) (isDeclaration : Bool) :
    memberName name ⟨name ++ "." ++ text, value, isDeclaration⟩ = text := by
  have isPrefix : (name ++ Text.ofString ".").isPrefixOf
      (name ++ Text.ofString "." ++ text) = true :=
    List.isPrefixOf_iff_prefix.2 (List.prefix_append _ _)
  rw [memberName, if_pos isPrefix, List.drop_left]

theorem written_ofNat (n : Nat) : Written .int (Text.ofNat n) := by
  obtain ⟨c, cs, h⟩ := List.exists_cons_of_ne_nil (Nat.toDigits_ne_nil (n := n) (b := 10))
  have digits : ∀ d ∈ c :: cs, d.isDigit = true := fun d hd =>
    Text.isDigit_of_mem_toDigits (n := n) (h ▸ hd)
  rw [List.forall_mem_cons] at digits
  refine ⟨c :: cs, ?_⟩
  rw [Text.ofNat, h]
  exact .int digits.1 fun d hd => by simp [isNumberRest, digits.2 d hd]

/-- Names and numbers are written as they are. -/
theorem prints_of_written {k : Kind} {t : Text} (hk : k = .name ∨ k = .int) (h : Written k t) :
    Prints t [(k, t)] := by
  obtain ⟨w, hw⟩ := h
  have same : Text.ofChars w = t := by
    rcases hk with rfl | rfl <;> cases hw <;> rfl
  have prints := Prints.ofSpells hw
  rwa [same] at prints

/-- The source forms of members are read as the members, whatever was counted before. -/
theorem exists_members {name : Text} {members : List Variable}
    (h : ∀ m ∈ members, IsReadable name m) :
    ∃ ls, (∀ t ks, Prints t ks → Prints (t ++ members.flatMap (renderMember name)) (ks ++ ls)) ∧
      ∀ next, Reads (IsMembers name next · members) ls := by
  induction members with
  | nil =>
    refine ⟨[], fun t ks h => by simpa using h, fun next ts hts => ?_⟩
    rw [List.map_eq_nil_iff.1 hts]
    exact .nil
  | cons m members ih =>
    rw [List.forall_mem_cons] at h
    obtain ⟨text, value, written, bound, rfl⟩ := h.1
    obtain ⟨ls, prints, reads⟩ := ih h.2
    refine ⟨(.name, text) :: (.int, Text.ofNat value) :: ls, fun t ks ht => ?_,
      fun next ts hts => ?_⟩
    · have := prints _ _ ((ht.spaced (prints_of_written (.inl rfl) written)).spaced
        (prints_of_written (.inr rfl) (written_ofNat value)))
      rw [List.flatMap_cons, renderMember, memberName_qualified]
      simpa using this
    · obtain ⟨a, us, rfl, ha, hus⟩ := exists_cons hts
      obtain ⟨i, vs, rfl, hi, hvs⟩ := exists_cons hus
      -- every member is written with an index, so that the counter does not matter
      have index : Text.readInt i.text = .ok value := by
        rw [text_of_lexeme hi, Text.readInt_ofNat bound]
      rw [← text_of_lexeme ha]
      exact .indexed (.inr (kind_of_lexeme ha)) (kind_of_lexeme hi) index (reads _ vs hvs)

theorem reprints_variable {name value : Text} (hn : Written .var name)
    (hv : value = [] ∨ Written .int value) :
    Reprints IsDeclaration (.declaration name value) := by
  obtain ⟨w, hw⟩ := hn
  have spelled : Text.ofChars w = Text.ofString "." ++ name := by
    cases hw
    rfl
  have prints := Prints.ofSpells hw
  rw [spelled] at prints
  obtain rfl | hv := hv
  · refine ⟨_, _, ?_, prints.spaced (Prints.ofSpells .query), fun ts hts => ?_⟩
    · simp only [declaration, render, renderVariable, List.append_assoc]
      rfl
    · obtain ⟨t, us, rfl, ht, hus⟩ := exists_cons hts
      obtain ⟨q, rfl, hq⟩ := exists_singleton hus
      exact text_of_lexeme ht ▸ .uninitialised (kind_of_lexeme ht) (kind_of_lexeme hq)
  · refine ⟨_, _, ?_, prints.spaced (prints_of_written (.inr rfl) hv), fun ts hts => ?_⟩
    · have ne : value ≠ [] := by
        obtain ⟨v, hv⟩ := hv
        cases hv with
        | @int c cs =>
          intro e
          have : c :: cs = [] := Text.ofChars_injective e
          cases this
      simp only [declaration, render, renderVariable, if_neg ne]
      rfl
    · obtain ⟨t, us, rfl, ht, hus⟩ := exists_cons hts
      obtain ⟨i, rfl, hi⟩ := exists_singleton hus
      rw [← text_of_lexeme ht, ← text_of_lexeme hi]
      exact .initialised (kind_of_lexeme ht) (kind_of_lexeme hi)

theorem reprints_enum {name : Text} {members : List Variable} (hn : Written .name name)
    (hm : ∀ m ∈ members, IsReadable name m) : Reprints IsDeclaration (.enum name members) := by
  obtain ⟨ls, prints, reads⟩ := exists_members hm
  have head := (prints_of_written (.inl rfl) hn).afterWord .enum (s := "enum ") rfl
  refine ⟨_, _, rfl, (prints _ _ head).spaceWord .end_ (s := " end") rfl, fun ts hts => ?_⟩
  obtain ⟨us, e, rfl, hus, he⟩ := exists_snoc hts
  obtain ⟨k, vs, rfl, hk, hvs⟩ := exists_cons hus
  obtain ⟨a, ws, rfl, ha, hws⟩ := exists_cons hvs
  have members := reads 0 ws hws
  rw [← text_of_lexeme ha] at members ⊢
  exact .enum (kind_of_lexeme hk) (kind_of_lexeme ha) members (kind_of_lexeme he)

end XtAsm.Node
