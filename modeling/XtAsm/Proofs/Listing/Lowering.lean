import XtAsm.Proofs.Listing.Layout
import XtAsm.Proofs.Listing.Text
import XtAsm.Proofs.Node.Expressible

/-!
# The lines of structured statements

The lines of a structured statement of source text, as the machine reads them: operands are
variables, registers and literals, and comparisons have a meaning.

* `IsSimple`, `operandText`: operands and their texts;
* `Branches`: the lines that jump to a label if conditions come out as expected;
* `Lowers`, `LowersAll`: the lines of statements;
* `lowers_of_isStructured`: a structured statement is laid out in such lines;
* `defect?_of_isStructured`: it is visited without an error.
-/

namespace XtAsm

/-- The relation that holds exactly when the given one does not. -/
def Relation.opposite : Relation → Relation
  | .eq => .ne
  | .ne => .eq
  | .gt => .le
  | .ge => .lt
  | .lt => .ge
  | .le => .gt

theorem Comparator.negate_ofRelation (r : Relation) :
    (Comparator.ofRelation r).negate = .ofRelation r.opposite := by
  cases r <;> rfl

namespace Listing

open Node Machine

/-! ### Operands -/

/-- The text of an operand. -/
def operandText : Node → Text
  | .var v => "[" ++ v.name ++ "]"
  | .register name => name
  | .literal value => value
  | _ => []

/-- What the machine makes of an operand. -/
def operandOf : Node → Operand
  | .var v => .cell (.var v.name)
  | .register name => .cell (.register name)
  | .literal value => .literal value
  | _ => .literal []

/-- An operand of source text; a register has a plain name. -/
inductive IsSimple : Node → Prop
  | var {name : Text} (h : Written .var name) : IsSimple (.use name)
  | register {name : Text} (h : IsPlainRegister name) : IsSimple (.register name)
  | literal {value : Text} (h : Written .int value) : IsSimple (.literal value)

theorem isSimple_of_isOperand {n : Node} (h : n.IsOperand) (plain : HasPlainName n) :
    IsSimple n := by
  cases h with
  | var h => exact .var h
  | register h => exact .register (plain _ rfl)
  | literal h => exact .literal h

theorem isSimple_of_isDestination {n : Node} (h : n.IsDestination) (plain : HasPlainName n) :
    IsSimple n ∧ ∃ c, n.cell? = some c := by
  cases h with
  | var h => exact ⟨.var h, _, rfl⟩
  | register h => exact ⟨.register (plain _ rfl), _, rfl⟩

/-- Characters among which neither a line break nor a comma occurs. -/
theorem isPlain_ofChars {cs : List Char} (newline : '\n' ∉ cs) (comma : ',' ∉ cs) :
    IsPlain (Text.ofChars cs) :=
  ⟨Text.not_mem_ofChars (by decide) (by decide) newline,
    Text.not_mem_ofChars (by decide) (by decide) comma⟩

theorem IsSimple.isPlain {n : Node} (h : IsSimple n) : IsPlain (operandText n) := by
  cases h with
  | var h =>
    obtain ⟨w, hw⟩ := h
    cases hw with
    | var _ hs =>
      have := isPlain_ofChars (Lexer.not_mem_of_class (by decide) hs)
        (Lexer.not_mem_of_class (by decide) hs)
      simp only [operandText, use, IsPlain, List.mem_append, not_or]
      exact ⟨⟨⟨by decide, this.1⟩, by decide⟩, ⟨by decide, this.2⟩, by decide⟩
  | register h =>
    obtain ⟨c, cs, rfl, hc, hs⟩ := h
    have inside : ∀ d ∈ c :: cs, Lexer.isIdentifierRest d = true := by
      rw [List.forall_mem_cons]
      refine ⟨by simp [Lexer.isIdentifierRest, hc], fun d hd => ?_⟩
      rcases hs d hd with h | h | h <;> simp [Lexer.isIdentifierRest, h]
    exact isPlain_ofChars (Lexer.not_mem_of_class (by decide) inside)
      (Lexer.not_mem_of_class (by decide) inside)
  | literal h =>
    obtain ⟨w, hw⟩ := h
    cases hw with
    | @int c cs hc hs =>
      have inside : ∀ d ∈ c :: cs, Lexer.isNumberRest d = true := by
        rw [List.forall_mem_cons]
        exact ⟨by simp [Lexer.isNumberRest, hc], hs⟩
      exact isPlain_ofChars (Lexer.not_mem_of_class (by decide) inside)
        (Lexer.not_mem_of_class (by decide) inside)

/-- A letter is a single byte, which is no digit and no bracket. -/
theorem utf8EncodeChar_of_isLetter {c : Char} (h : Lexer.isLetter c = true) :
    String.utf8EncodeChar c = [UInt8.ofNat c.toNat] ∧
      (65 ≤ c.toNat ∧ c.toNat ≤ 90 ∨ 97 ≤ c.toNat ∧ c.toNat ≤ 122) := by
  simp only [Lexer.isLetter, Bool.or_eq_true, Bool.and_eq_true, decide_eq_true_eq, Char.le_def,
    UInt32.le_iff_toNat_le] at h
  have bounds : 65 ≤ c.toNat ∧ c.toNat ≤ 90 ∨ 97 ≤ c.toNat ∧ c.toNat ≤ 122 := h.symm
  exact ⟨Text.utf8EncodeChar_of_lt (by omega), bounds⟩

theorem readOperand_of_digit {b : UInt8} (lower : 48 ≤ b.toNat) (upper : b.toNat ≤ 57)
    (rest : Text) : readOperand (b :: rest) = .literal (b :: rest) := by
  have ne : ¬ (b = 91 ∧ rest.getLast? = some 93) := by
    rintro ⟨rfl, _⟩
    exact absurd upper (by decide)
  rw [readOperand, if_neg ne, if_pos]
  rw [UInt8.le_iff_toNat_le, UInt8.le_iff_toNat_le]
  exact ⟨lower, upper⟩

theorem readOperand_of_letter {b : UInt8} (lower : 57 < b.toNat) (bracket : b.toNat ≠ 91)
    (rest : Text) : readOperand (b :: rest) = .cell (.register (b :: rest)) := by
  have ne : ¬ (b = 91 ∧ rest.getLast? = some 93) := by
    rintro ⟨rfl, _⟩
    exact absurd rfl bracket
  rw [readOperand, if_neg ne, if_neg]
  rw [UInt8.le_iff_toNat_le, UInt8.le_iff_toNat_le]
  exact fun digit => absurd digit.2 (Nat.not_le.2 lower)

/-- The text of an operand is read as the operand. -/
theorem IsSimple.readOperand {n : Node} (h : IsSimple n) :
    readOperand (operandText n) = operandOf n := by
  cases h with
  | @var name h =>
    have text : operandText (.use name) = 91 :: (name ++ [93]) := rfl
    rw [text, Machine.readOperand, if_pos (by simp)]
    simp [operandOf, use]
  | register h =>
    obtain ⟨c, cs, rfl, hc, hs⟩ := h
    obtain ⟨encoding, bounds⟩ := utf8EncodeChar_of_isLetter hc
    have byte : (UInt8.ofNat c.toNat).toNat = c.toNat := Text.toNat_ofNat_byte (by omega)
    simp only [operandText, operandOf, Text.ofChars_cons, encoding, List.singleton_append]
    exact readOperand_of_letter (by omega) (by omega) _
  | literal h =>
    obtain ⟨w, hw⟩ := h
    cases hw with
    | @int c cs hc hs =>
      obtain ⟨encoding, lower, upper⟩ := Text.utf8EncodeChar_of_isDigit hc
      have byte : (UInt8.ofNat c.toNat).toNat = c.toNat := Text.toNat_ofNat_byte (by omega)
      simp only [operandText, operandOf, Text.ofChars_cons, encoding, List.singleton_append]
      exact readOperand_of_digit (by omega) (by omega) _

/-! ### Lines of conditions and statements -/

/-- The lines that jump to a label if conditions come out as expected, and go on otherwise. -/
inductive Branches : Bool → Nat → Decision Condition → List Line → Prop
  | test {expected : Bool} {target : Nat} {r : Relation} {lhs rhs : Node} (hl : IsSimple lhs)
      (hr : IsSimple rhs) :
      Branches expected target (.test (.mk (.ofRelation r) lhs rhs))
        [.compare (operandText lhs) (operandText rhs),
         .branch (.ofRelation (if expected then r else r.opposite)) (.fresh target)]
  | direct {expected : Bool} {target : Nat} {a b : Decision Condition} {as bs : List Line}
      (ha : Branches expected target a as) (hb : Branches expected target b bs) :
      Branches expected target (.connect (.ofJunction (decisive expected)) a b) (as ++ bs)
  /-- The first side is skipped to the end if it decides against the expectation. -/
  | crossed {expected : Bool} {target skip : Nat} {a b : Decision Condition} {as bs : List Line}
      (ha : Branches (!expected) skip a as) (hb : Branches expected target b bs) :
      Branches expected target (.connect (.ofJunction (decisive !expected)) a b)
        (as ++ bs ++ [.label (.fresh skip)])

mutual

/-- The lines of a statement, given the label after the innermost loop around it. -/
inductive Lowers : Option Nat → Node → List Line → Prop
  | exit {exit? : Option Nat} {value : Node} (h : IsSimple value) :
      Lowers exit? (.exit value) [.exit (operandText value)]
  | assign {exit? : Option Nat} {op : Mnemonic} {target source : Node} {c : Cell}
      (ht : IsSimple target) (hc : target.cell? = some c) (hs : IsSimple source) :
      Lowers exit? (.assign op target source) [.assign op (operandText target) (operandText source)]
  | leave {done : Nat} : Lowers (some done) .leave [.jump (.fresh done)]
  | loop {exit? : Option Nat} {body : List Node} {top done : Nat} {bs : List Line}
      (hb : LowersAll (some done) body bs) :
      Lowers exit? (.loop body)
        ([.label (.fresh top)] ++ bs ++ [.jump (.fresh top), .label (.fresh done)])
  | whileLoop {exit? : Option Nat} {cs : List Condition} {ops : List Connective}
      {body : List Node} {d : Decision Condition} {top done : Nat} {gs bs : List Line}
      (hd : Decision.ofTests? cs ops = some d) (hg : Branches false done d gs)
      (hb : LowersAll (some done) body bs) :
      Lowers exit? (.whileLoop cs ops body)
        ([.label (.fresh top)] ++ gs ++ bs ++ [.jump (.fresh top), .label (.fresh done)])
  | forLoop {exit? : Option Nat} {counter limit increment : Node} {body : List Node} {c : Cell}
      {top done : Nat} {bs : List Line} (hc : IsSimple counter) (cell : counter.cell? = some c)
      (hl : IsSimple limit) (hi : IsSimple increment) (hb : LowersAll (some done) body bs) :
      Lowers exit? (.forLoop counter limit increment body)
        ([.label (.fresh top), .compare (operandText counter) (operandText limit),
            .branch (.ofRelation .ge) (.fresh done)] ++ bs ++
          [.assign .add (operandText counter) (operandText increment), .jump (.fresh top),
            .label (.fresh done)])
  | choice {exit? : Option Nat} {cs : List Condition} {ops : List Connective}
      {thenBody : List Node} {d : Decision Condition} {done : Nat} {gs ts : List Line}
      (hd : Decision.ofTests? cs ops = some d) (hg : Branches false done d gs)
      (ht : LowersAll exit? thenBody ts) :
      Lowers exit? (.choice cs ops thenBody []) (gs ++ ts ++ [.label (.fresh done)])
  | choiceElse {exit? : Option Nat} {cs : List Condition} {ops : List Connective}
      {thenBody elseBody : List Node} {d : Decision Condition} {done otherwise : Nat}
      {gs ts es : List Line} (hd : Decision.ofTests? cs ops = some d)
      (hg : Branches false otherwise d gs) (ht : LowersAll exit? thenBody ts)
      (he : LowersAll exit? elseBody es) :
      Lowers exit? (.choice cs ops thenBody elseBody)
        (gs ++ ts ++ [.jump (.fresh done), .label (.fresh otherwise)] ++ es ++
          [.label (.fresh done)])

/-- The lines of several statements. -/
inductive LowersAll : Option Nat → List Node → List Line → Prop
  | nil {exit? : Option Nat} : LowersAll exit? [] []
  | cons {exit? : Option Nat} {n : Node} {ns : List Node} {ls ms : List Line}
      (h : Lowers exit? n ls) (hs : LowersAll exit? ns ms) : LowersAll exit? (n :: ns) (ls ++ ms)

end

theorem Branches.isClean {expected : Bool} {target : Nat} {d : Decision Condition}
    {ls : List Line} (h : Branches expected target d ls) : ∀ l ∈ ls, IsClean l := by
  induction h with
  | test hl hr =>
    simp only [List.forall_mem_cons]
    exact ⟨.compare hl.isPlain hr.isPlain, .branch, by simp⟩
  | direct _ _ iha ihb =>
    rw [List.forall_mem_append]
    exact ⟨iha, ihb⟩
  | crossed _ _ iha ihb =>
    simp only [List.forall_mem_append, List.forall_mem_cons]
    exact ⟨⟨iha, ihb⟩, .label, by simp⟩

mutual

theorem Lowers.isClean {exit? : Option Nat} {n : Node} {ls : List Line} : Lowers exit? n ls →
    ∀ l ∈ ls, IsClean l
  | .exit h => by
    rw [List.forall_mem_singleton]
    exact .exit h.isPlain
  | .assign ht _ hs => by
    rw [List.forall_mem_singleton]
    exact .assign ht.isPlain hs.isPlain
  | .leave => by
    rw [List.forall_mem_singleton]
    exact .jump
  | .loop hb => by
    simp only [List.forall_mem_append, List.forall_mem_cons]
    exact ⟨⟨⟨.label, by simp⟩, hb.isClean⟩, .jump, .label, by simp⟩
  | .whileLoop _ hg hb => by
    simp only [List.forall_mem_append, List.forall_mem_cons]
    exact ⟨⟨⟨⟨.label, by simp⟩, hg.isClean⟩, hb.isClean⟩, .jump, .label, by simp⟩
  | .forLoop hc _ hl hi hb => by
    simp only [List.forall_mem_append, List.forall_mem_cons]
    exact ⟨⟨⟨.label, .compare hc.isPlain hl.isPlain, .branch, by simp⟩, hb.isClean⟩,
      .assign hc.isPlain hi.isPlain, .jump, .label, by simp⟩
  | .choice _ hg ht => by
    simp only [List.forall_mem_append, List.forall_mem_cons]
    exact ⟨⟨hg.isClean, ht.isClean⟩, .label, by simp⟩
  | .choiceElse _ hg ht he => by
    simp only [List.forall_mem_append, List.forall_mem_cons]
    exact ⟨⟨⟨⟨hg.isClean, ht.isClean⟩, .jump, .label, by simp⟩, he.isClean⟩, .label, by simp⟩

/-- The lines of statements are clean. -/
theorem LowersAll.isClean {exit? : Option Nat} {ns : List Node} {ls : List Line} :
    LowersAll exit? ns ls → ∀ l ∈ ls, IsClean l
  | .nil => by simp
  | .cons h hs => by
    rw [List.forall_mem_append]
    exact ⟨h.isClean, hs.isClean⟩

end

/-! ### Operands and conditions -/

variable {exit? : Option Label}

/-- An operand is laid out as its text, without labels. -/
theorem Lays.operand {n : Node} (h : IsSimple n) {ls : List Line} {ns : List Nat}
    (lays : Lays exit? n ls ns) : render ls = operandText n ∧ ns = [] := by
  cases h with
  | var h =>
    cases lays
    exact ⟨rfl, rfl⟩
  | register h =>
    cases lays
    exact ⟨render_bareLines _, rfl⟩
  | literal h =>
    cases lays
    exact ⟨render_bareLines _, rfl⟩

/-- A decision of source text. -/
inductive IsDecision : Decision Condition → Prop
  | test {r : Relation} {lhs rhs : Node} (hl : IsSimple lhs) (hr : IsSimple rhs) :
      IsDecision (.test (.mk (.ofRelation r) lhs rhs))
  | connect {j : Junction} {a b : Decision Condition} (ha : IsDecision a) (hb : IsDecision b) :
      IsDecision (.connect (.ofJunction j) a b)

theorem isDecision_test {c : Condition} (h : IsComparison c)
    (plain : HasPlainName c.lhs ∧ HasPlainName c.rhs) : IsDecision (.test c) := by
  cases h with
  | mk hl hr _ =>
    exact .test (isSimple_of_isOperand hl plain.1) (isSimple_of_isOperand hr plain.2)

/-- A chain of conditions continues a decision. -/
theorem isDecision_extend {cs : List Condition} {ops : List Connective} (h : IsChain cs ops)
    (plain : ∀ c ∈ cs, HasPlainName c.lhs ∧ HasPlainName c.rhs) {d : Decision Condition}
    (hd : IsDecision d) (j : Junction) : IsDecision (d.extend (.ofJunction j :: ops) cs) := by
  induction h generalizing d j with
  | single h => exact hd.connect (isDecision_test h (plain _ (by simp)))
  | @connect c j' cs ops h _ ih =>
    rw [List.forall_mem_cons] at plain
    exact ih plain.2 (hd.connect (isDecision_test h plain.1)) j'

/-- A chain of conditions is a decision. -/
theorem exists_decision {cs : List Condition} {ops : List Connective} (h : IsChain cs ops)
    (plain : ∀ c ∈ cs, HasPlainName c.lhs ∧ HasPlainName c.rhs) :
    ∃ d, Decision.ofTests? cs ops = some d ∧ IsDecision d := by
  cases h with
  | single h => exact ⟨_, rfl, isDecision_test h (plain _ (by simp))⟩
  | connect h hs =>
    rw [List.forall_mem_cons] at plain
    exact ⟨_, if_pos hs.length_eq.symm,
      isDecision_extend hs plain.2 (isDecision_test h plain.1) _⟩

theorem decisive_cases (expected : Bool) (j : Junction) :
    j = decisive expected ∨ j = decisive !expected := by
  cases expected <;> cases j <;> simp [decisive]

/-- The lines of a decision of source text. -/
theorem Branching.branches {d : Decision Condition} (h : IsDecision d) {d' : Decision Comparison}
    (lays : LaysDecision exit? d d') {expected : Bool} {target : Nat} {ls : List Line}
    {ns : List Nat} (branching : Branching expected (.fresh target) d' ls ns) :
    Branches expected target d ls ∧ labelNumbers ls = ns := by
  induction h generalizing d' expected target ls ns with
  | @test r lhs rhs hl hr =>
    cases lays with
    | test left right =>
      cases branching
      obtain ⟨leftText, rfl⟩ := left.operand hl
      obtain ⟨rightText, rfl⟩ := right.operand hr
      refine ⟨?_, rfl⟩
      rw [leftText, rightText, Comparator.negate_ofRelation]
      have test : Branches expected target (.test (.mk (.ofRelation r) lhs rhs)) _ := .test hl hr
      rwa [apply_ite Comparator.ofRelation] at test
  | @connect j a b _ _ iha ihb =>
    cases lays with
    | connect laysA laysB =>
      generalize connective : Connective.ofJunction j = op at branching
      cases branching with
      | direct branchingA branchingB =>
        obtain ⟨branchesA, rfl⟩ := iha laysA branchingA
        obtain ⟨branchesB, rfl⟩ := ihb laysB branchingB
        exact ⟨.direct branchesA branchesB, labelNumbers_append _ _⟩
      | crossed ne branchingA branchingB =>
        subst connective
        obtain rfl | rfl := decisive_cases expected j
        · exact absurd rfl ne
        · obtain ⟨branchesA, rfl⟩ := iha laysA branchingA
          obtain ⟨branchesB, rfl⟩ := ihb laysB branchingB
          refine ⟨.crossed branchesA branchesB, ?_⟩
          simp only [labelNumbers_append, labelNumbers_label, labelNumbers_nil]

/-- The lines of the conditions of a loop or a choice of source text. -/
theorem LaysGuard.branches {cs : List Condition} {ops : List Connective} (h : IsChain cs ops)
    (plain : ∀ c ∈ cs, HasPlainName c.lhs ∧ HasPlainName c.rhs) {target : Nat} {gs : List Line}
    {ns : List Nat} (lays : LaysGuard exit? (.fresh target) cs ops gs ns) :
    ∃ d, Decision.ofTests? cs ops = some d ∧ Branches false target d gs ∧
      labelNumbers gs = ns := by
  obtain ⟨d, tests, decision⟩ := exists_decision h plain
  refine ⟨d, tests, ?_⟩
  cases lays with
  | chain tests' laysDecision branching =>
    obtain rfl := Option.some.inj (tests.symm.trans tests')
    exact branching.branches decision laysDecision
  | unmatched unmatched =>
    exact absurd h.length_eq unmatched

/-! ### Statements -/

theorem LaysAll.lowers {done? : Option Nat} {ns : List Node} {ls : List Line} {ks : List Nat}
    (h : ∀ n ∈ ns, ∀ {ls ks}, Lays exit? n ls ks → Lowers done? n ls ∧ labelNumbers ls = ks)
    (lays : LaysAll exit? ns ls ks) : LowersAll done? ns ls ∧ labelNumbers ls = ks := by
  induction ns generalizing ls ks with
  | nil =>
    cases lays
    exact ⟨.nil, rfl⟩
  | cons n ns ih =>
    rw [List.forall_mem_cons] at h
    cases lays with
    | cons lays laysAll =>
      obtain ⟨lowers, rfl⟩ := h.1 lays
      obtain ⟨lowersAll, rfl⟩ := ih h.2 laysAll
      exact ⟨.cons lowers lowersAll, labelNumbers_append _ _⟩

/-- A structured statement of source text is laid out as the machine takes it. -/
theorem lowers_of_isStructured {inLoop : Bool} {n : Node} (h : IsStructured inLoop n)
    (expressible : n.IsExpressible) {done? : Option Nat} (same : exit? = done?.map .fresh)
    (loop : inLoop = true → exit?.isSome = true) {ls : List Line} {ns : List Nat}
    (lays : Lays exit? n ls ns) : Lowers done? n ls ∧ labelNumbers ls = ns := by
  induction h generalizing exit? done? ls ns with
  | exit plain =>
    cases expressible with
    | exit h =>
      have simple := isSimple_of_isOperand h plain
      cases lays with
      | exit lays =>
        obtain ⟨text, rfl⟩ := lays.operand simple
        rw [text]
        exact ⟨.exit simple, rfl⟩
  | assign plainTarget plainSource =>
    cases expressible with
    | assign ht hs =>
      obtain ⟨simpleTarget, c, cell⟩ := isSimple_of_isDestination ht plainTarget
      have simpleSource := isSimple_of_isOperand hs plainSource
      cases lays with
      | assign laysTarget laysSource =>
        obtain ⟨targetText, rfl⟩ := laysTarget.operand simpleTarget
        obtain ⟨sourceText, rfl⟩ := laysSource.operand simpleSource
        rw [targetText, sourceText]
        exact ⟨.assign simpleTarget cell simpleSource, rfl⟩
  | leave =>
    cases lays with
    | leave =>
      obtain ⟨done, rfl, rfl⟩ := Option.map_eq_some_iff.1 same.symm
      exact ⟨.leave, rfl⟩
    | stray => exact absurd (loop rfl) (by simp)
  | loop _ ih =>
    cases expressible with
    | loop hb =>
      cases lays with
      | @loop _ _ top done _ _ laysBody =>
        obtain ⟨lowers, rfl⟩ := laysBody.lowers fun n hn =>
          ih n hn (hb n hn) (Option.map_some ..).symm fun _ => rfl
        exact ⟨.loop lowers, by simp⟩
  | whileLoop plain _ ih =>
    cases expressible with
    | whileLoop hc hb =>
      cases lays with
      | @whileLoop _ _ _ _ top done _ _ _ _ guard laysBody =>
        obtain ⟨d, tests, branches, rfl⟩ := guard.branches hc plain
        obtain ⟨lowers, rfl⟩ := laysBody.lowers fun n hn =>
          ih n hn (hb n hn) (Option.map_some ..).symm fun _ => rfl
        exact ⟨.whileLoop tests branches lowers, by simp⟩
  | forLoop assignable plainCounter plainLimit plainIncrement _ ih =>
    cases expressible with
    | forLoop hc hl hi hb =>
      obtain ⟨c, cell⟩ := Option.isSome_iff_exists.1 assignable
      have simpleCounter := isSimple_of_isOperand hc plainCounter
      have simpleLimit := isSimple_of_isOperand hl plainLimit
      have simpleIncrement := isSimple_of_isOperand hi plainIncrement
      cases lays with
      | @forLoop _ _ _ _ _ top done _ _ _ _ _ _ _ _ laysCounter laysLimit laysBody laysIncrement =>
        obtain ⟨counterText, rfl⟩ := laysCounter.operand simpleCounter
        obtain ⟨limitText, rfl⟩ := laysLimit.operand simpleLimit
        obtain ⟨incrementText, rfl⟩ := laysIncrement.operand simpleIncrement
        obtain ⟨lowers, rfl⟩ := laysBody.lowers fun n hn =>
          ih n hn (hb n hn) (Option.map_some ..).symm fun _ => rfl
        rw [counterText, limitText, incrementText]
        exact ⟨.forLoop simpleCounter cell simpleLimit simpleIncrement lowers, by simp⟩
  | choice plain _ _ iht ihe =>
    cases expressible with
    | choice hc ht he _ =>
      cases lays with
      | choice guard laysThen =>
        obtain ⟨d, tests, branches, rfl⟩ := guard.branches hc plain
        obtain ⟨lowersThen, rfl⟩ := laysThen.lowers fun n hn => iht n hn (ht n hn) same loop
        exact ⟨.choice tests branches lowersThen, by simp⟩
      | choiceElse _ guard laysThen laysElse =>
        obtain ⟨d, tests, branches, rfl⟩ := guard.branches hc plain
        obtain ⟨lowersThen, rfl⟩ := laysThen.lowers fun n hn => iht n hn (ht n hn) same loop
        obtain ⟨lowersElse, rfl⟩ := laysElse.lowers fun n hn => ihe n hn (he n hn) same loop
        exact ⟨.choiceElse tests branches lowersThen lowersElse, by simp⟩

/-! ### Errors -/

/-- An operand is visited without an error. -/
theorem defect?_of_isOperand {n : Node} (h : n.IsOperand) (inLoop : Bool) :
    ∀ v ∈ n.visits inLoop, defect? v = none := by
  cases h <;> simp [use, visits, defect?]

theorem defect?_of_isDestination {n : Node} (h : n.IsDestination) (inLoop : Bool) :
    ∀ v ∈ n.visits inLoop, defect? v = none := by
  cases h <;> simp [use, visits, defect?]

theorem defect?_of_isChain {cs : List Condition} {ops : List Connective} (h : IsChain cs ops)
    (inLoop : Bool) : ∀ v ∈ visitsOf inLoop cs, defect? v = none := by
  have comparison {c : Condition} (h : IsComparison c) :
      ∀ v ∈ visitsIn inLoop c, defect? v = none := by
    cases h with
    | mk hl hr _ =>
      rw [visitsIn, List.forall_mem_append]
      exact ⟨defect?_of_isOperand hl _, defect?_of_isOperand hr _⟩
  induction h with
  | single h =>
    rw [visitsOf, visitsOf, List.append_nil]
    exact comparison h
  | connect h _ ih =>
    rw [visitsOf, List.forall_mem_append]
    exact ⟨comparison h, ih⟩

theorem defect?_of_forall {ns : List Node} {inLoop : Bool}
    (h : ∀ n ∈ ns, ∀ v ∈ n.visits inLoop, defect? v = none) :
    ∀ v ∈ visitsAll inLoop ns, defect? v = none := by
  induction ns with
  | nil => simp [visitsAll]
  | cons n ns ih =>
    rw [List.forall_mem_cons] at h
    rw [visitsAll, List.forall_mem_append]
    exact ⟨h.1, ih h.2⟩

theorem defect?_exit {value : Node} (h : value.IsOperand) (inLoop : Bool) :
    ∀ v ∈ (Node.exit value).visits inLoop, defect? v = none := by
  rw [visits, List.forall_mem_cons]
  exact ⟨rfl, defect?_of_isOperand h _⟩

theorem defect?_assign {target source : Node} (ht : target.IsDestination) (hs : source.IsOperand)
    (op : Mnemonic) (inLoop : Bool) :
    ∀ v ∈ (Node.assign op target source).visits inLoop, defect? v = none := by
  rw [visits, List.forall_mem_cons, List.forall_mem_append]
  exact ⟨rfl, defect?_of_isDestination ht _, defect?_of_isOperand hs _⟩

/-- A structured statement of source text is visited without an error. -/
theorem defect?_of_isStructured {inLoop : Bool} {n : Node} (h : IsStructured inLoop n)
    (expressible : n.IsExpressible) : ∀ v ∈ n.visits inLoop, defect? v = none := by
  induction h with
  | exit =>
    cases expressible with
    | exit h => exact defect?_exit h _
  | assign =>
    cases expressible with
    | assign ht hs => exact defect?_assign ht hs _ _
  | leave => simp [visits, defect?]
  | loop _ ih =>
    cases expressible with
    | loop hb =>
      rw [visits, List.forall_mem_cons]
      exact ⟨rfl, defect?_of_forall fun n hn => ih n hn (hb n hn)⟩
  | whileLoop _ _ ih =>
    cases expressible with
    | whileLoop hc hb =>
      have matched : Guard.IsMatched ⟨_, _⟩ := hc.length_eq
      rw [visits, if_pos matched, List.forall_mem_cons, List.forall_mem_append]
      exact ⟨if_pos matched, defect?_of_isChain hc _,
        defect?_of_forall fun n hn => ih n hn (hb n hn)⟩
  | forLoop _ _ _ _ _ ih =>
    cases expressible with
    | forLoop hc hl hi hb =>
      simp only [visits, List.forall_mem_cons, List.forall_mem_append]
      exact ⟨rfl, ⟨⟨defect?_of_isOperand hc _, defect?_of_isOperand hl _⟩,
        defect?_of_forall fun n hn => ih n hn (hb n hn)⟩, defect?_of_isOperand hi _⟩
  | choice _ _ _ iht ihe =>
    cases expressible with
    | choice hc ht he _ =>
      have matched : Guard.IsMatched ⟨_, _⟩ := hc.length_eq
      rw [visits, if_pos matched, List.forall_mem_cons, List.forall_mem_append,
        List.forall_mem_append]
      exact ⟨if_pos matched, ⟨defect?_of_isChain hc _,
        defect?_of_forall fun n hn => iht n hn (ht n hn)⟩,
        defect?_of_forall fun n hn => ihe n hn (he n hn)⟩

end Listing

end XtAsm
