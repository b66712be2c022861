import XtAsm.Proofs.Grammar.Basic
import XtAsm.Proofs.Token.Layout

/-!
# Trees that source text can express

* `Written`: the texts that lexemes of a class can have;
* `IsOperand`, `IsDestination`, `IsComparison`, `IsChain`: the parts of statements;
* `IsExpressible`: statements;
* `IsDeclared`: declarations;
* `Grammar.IsBlock.expressible`, `Grammar.IsDeclarations.expressible`: tokens with spellings denote
  nothing else.
-/

namespace XtAsm

/-- Some lexeme of the class has the text. -/
def Written (k : Kind) (t : Text) : Prop := ∃ w, Lexer.Spells (k, t) w

theorem Written.newline_not_mem {k : Kind} {t : Text} (h : Written k t) : Text.newline ∉ t := by
  obtain ⟨w, hw⟩ := h
  have absent := hw.newline_not_mem
  cases hw with
  | code | data | query | semicolon => decide
  | int | name | compare | connect =>
    exact Text.not_mem_ofChars (by decide) (by decide) absent
  | register | label | var =>
    exact Text.not_mem_ofChars (by decide) (by decide) fun h => absent (List.mem_cons_of_mem _ h)
  | word w => cases w <;> decide

/-- The token has a spelling. -/
def Token.IsLexical (t : Token) : Prop := ∃ w, Lexer.Spells t.lexeme w

theorem Token.IsLexical.written {t : Token} {k : Kind} (h : t.IsLexical) (hk : t.kind = k) :
    Written k t.text := by
  subst hk
  exact h

namespace Node

/-- The node is a choice. -/
def isChoice : Node → Bool
  | .choice _ _ _ _ => true
  | _ => false

/-- The node is a literal. -/
def isLiteral : Node → Bool
  | .literal _ => true
  | _ => false

/-- An operand of source text. -/
inductive IsOperand : Node → Prop
  | var {name : Text} (h : Written .var name) : IsOperand (.use name)
  | register {name : Text} (h : Written .reg name) : IsOperand (.register name)
  | literal {value : Text} (h : Written .int value) : IsOperand (.literal value)

/-- An operand of source text that can be assigned to. -/
inductive IsDestination : Node → Prop
  | var {name : Text} (h : Written .var name) : IsDestination (.use name)
  | register {name : Text} (h : Written .reg name) : IsDestination (.register name)

/-- A condition of source text, which never compares two literals. -/
inductive IsComparison : Condition → Prop
  | mk {r : Relation} {lhs rhs : Node} (hl : IsOperand lhs) (hr : IsOperand rhs)
      (literals : ¬ (lhs.isLiteral = true ∧ rhs.isLiteral = true)) :
      IsComparison (.mk (.ofRelation r) lhs rhs)

/-- Conditions with a connective between any two neighbours. -/
inductive IsChain : List Condition → List Connective → Prop
  | single {c : Condition} (h : IsComparison c) : IsChain [c] []
  | connect {c : Condition} {j : Junction} {cs : List Condition} {ops : List Connective}
      (h : IsComparison c) (hs : IsChain cs ops) : IsChain (c :: cs) (.ofJunction j :: ops)

theorem IsChain.length_eq {cs : List Condition} {ops : List Connective} (h : IsChain cs ops) :
    cs.length = ops.length + 1 := by
  induction h with
  | single => rfl
  | connect _ _ ih => exact congrArg (· + 1) ih

theorem IsChain.isComparison {cs : List Condition} {ops : List Connective} (h : IsChain cs ops) :
    ∀ c ∈ cs, IsComparison c := by
  induction h with
  | single h => simpa using h
  | connect h _ ih =>
    rw [List.forall_mem_cons]
    exact ⟨h, ih⟩

/-- A statement of source text.  A choice at the head of a second body is all of it: what follows
`else if` belongs to the nested choice. -/
inductive IsExpressible : Node → Prop
  | label {name : Text} (h : Written .label name) : IsExpressible (.label name)
  | leave : IsExpressible .leave
  | jump {target : Text} (h : Written .label target) : IsExpressible (.jump target)
  | exit {value : Node} (h : IsOperand value) : IsExpressible (.exit value)
  | assign {op : Mnemonic} {target source : Node} (ht : IsDestination target)
      (hs : IsOperand source) : IsExpressible (.assign op target source)
  | loop {body : List Node} (hb : ∀ n ∈ body, IsExpressible n) : IsExpressible (.loop body)
  | whileLoop {cs : List Condition} {ops : List Connective} {body : List Node} (hc : IsChain cs ops)
      (hb : ∀ n ∈ body, IsExpressible n) : IsExpressible (.whileLoop cs ops body)
  | forLoop {counter limit increment : Node} {body : List Node} (hc : IsOperand counter)
      (hl : IsOperand limit) (hi : IsOperand increment) (hb : ∀ n ∈ body, IsExpressible n) :
      IsExpressible (.forLoop counter limit increment body)
  | choice {cs : List Condition} {ops : List Connective} {thenBody elseBody : List Node}
      (hc : IsChain cs ops) (ht : ∀ n ∈ thenBody, IsExpressible n)
      (he : ∀ n ∈ elseBody, IsExpressible n)
      (nested : ∀ n ∈ elseBody.head?, n.isChoice = true → elseBody = [n]) :
      IsExpressible (.choice cs ops thenBody elseBody)

/-- A member of an enumeration of source text. -/
def IsMember (name : Text) (m : Variable) : Prop :=
  ∃ (text : Text) (value : Int), (Written .var text ∨ Written .name text) ∧
    m = ⟨name ++ "." ++ text, Text.ofInt value, true⟩

/-- A declaration of source text. -/
inductive IsDeclared : Node → Prop
  | var {name value : Text} (hn : Written .var name) (hv : value = [] ∨ Written .int value) :
      IsDeclared (.declaration name value)
  | enum {name : Text} {members : List Variable} (hn : Written .name name)
      (hm : ∀ m ∈ members, IsMember name m) : IsDeclared (.enum name members)

end Node

namespace Grammar

variable {ts : List Token}

/-! ### Parts of statements -/

theorem IsOperand.expressible {t : Token} {n : Node} (h : IsOperand t n) (lexical : t.IsLexical) :
    n.IsOperand := by
  cases h with
  | var h => exact .var (lexical.written h)
  | register h => exact .register (lexical.written h)
  | literal h => exact .literal (lexical.written h)

theorem IsDestination.expressible {t : Token} {n : Node} (h : IsDestination t n)
    (lexical : t.IsLexical) : n.IsDestination := by
  cases h with
  | var h => exact .var (lexical.written h)
  | register h => exact .register (lexical.written h)

/-- Literals are denoted by literals. -/
theorem IsOperand.kind_of_isLiteral {t : Token} {n : Node} (h : IsOperand t n)
    (literal : n.isLiteral = true) : t.kind = .int := by
  cases h with
  | var => cases literal
  | register => cases literal
  | literal h => exact h

theorem IsCondition.expressible {c : Condition} (h : IsCondition ts c)
    (lexical : ∀ t ∈ ts, t.IsLexical) : Node.IsComparison c := by
  cases h with
  | mk hl hc hr literals =>
    refine .mk (hl.expressible (lexical _ (by simp))) (hr.expressible (lexical _ (by simp))) ?_
    rintro ⟨left, right⟩
    exact literals ⟨hl.kind_of_isLiteral left, hr.kind_of_isLiteral right⟩

theorem IsConditions.expressible {cs : List Condition} {ops : List Connective}
    (h : IsConditions ts cs ops) (lexical : ∀ t ∈ ts, t.IsLexical) : Node.IsChain cs ops := by
  induction h with
  | single h => exact .single (h.expressible lexical)
  | connect h _ _ ih =>
    exact .connect (h.expressible fun t ht => lexical t (by simp [ht]))
      (ih fun t ht => lexical t (by simp [ht]))

/-! ### Statements -/

/-- Choices, and no other statements, are introduced by `if`. -/
theorem IsStatement.exists_head {n : Node} (h : IsStatement ts n) :
    ∃ t us, ts = t :: us ∧ (t.kind = .word .if_ ↔ n.isChoice = true) := by
  cases h with
  | choice hk => exact ⟨_, _, rfl, by simp [hk, Node.isChoice]⟩
  | label h => exact ⟨_, _, rfl, by simp [h, Node.isChoice]⟩
  | leave h => exact ⟨_, _, rfl, by simp [h, Node.isChoice]⟩
  | @assign op _ _ _ _ _ hk =>
    exact ⟨_, _, rfl, by cases op <;> simp [hk, keywordOf, Node.isChoice]⟩
  | jump hk | exit hk | loop hk | whileLoop hk | forLoop hk =>
    exact ⟨_, _, rfl, by simp [hk, Node.isChoice]⟩

/-- Statements start with `if` exactly if the first one is a choice. -/
theorem IsBlock.forall_head_iff {ns : List Node} (h : IsBlock ts ns) :
    (∀ t ∈ ts.head?, t.kind ≠ .word .if_) ↔ ∀ n ∈ ns.head?, n.isChoice = false := by
  cases h with
  | nil => simp
  | @cons us vs n ns h hs =>
    obtain ⟨t, rest, rfl, kind⟩ := h.exists_head
    simp [kind]

mutual

/-- Statements of source text are expressible. -/
theorem IsStatement.expressible {ts : List Token} {n : Node} : IsStatement ts n →
    (∀ t ∈ ts, t.IsLexical) → n.IsExpressible
  | .label h, lexical => .label ((lexical _ (by simp)).written h)
  | .leave _, _ => .leave
  | .jump _ h, lexical => .jump ((lexical _ (by simp)).written h)
  | .exit _ h, lexical => .exit (h.expressible (lexical _ (by simp)))
  | .assign _ hd hs, lexical =>
    .assign (hd.expressible (lexical _ (by simp))) (hs.expressible (lexical _ (by simp)))
  | .loop _ hb _, lexical => .loop (hb.expressible fun t ht => lexical t (by simp [ht]))
  | .whileLoop _ hc _ hb _, lexical =>
    .whileLoop (hc.expressible fun t ht => lexical t (by simp [ht]))
      (hb.expressible fun t ht => lexical t (by simp [ht]))
  | .forLoop _ hc _ hl _ hn _ hb _, lexical =>
    .forLoop (hc.expressible (lexical _ (by simp))) (hl.expressible (lexical _ (by simp)))
      (hn.expressible (lexical _ (by simp))) (hb.expressible fun t ht => lexical t (by simp [ht]))
  | .choice _ hc _ hb ht, lexical =>
    have ⟨he, nested⟩ := ht.expressible fun t ht => lexical t (by simp [ht])
    .choice (hc.expressible fun t ht => lexical t (by simp [ht]))
      (hb.expressible fun t ht => lexical t (by simp [ht])) he nested

/-- All statements of a block are expressible. -/
theorem IsBlock.expressible {ts : List Token} {ns : List Node} : IsBlock ts ns →
    (∀ t ∈ ts, t.IsLexical) → ∀ n ∈ ns, n.IsExpressible
  | .nil, _ => by simp
  | .cons h hs, lexical => by
    rw [List.forall_mem_cons]
    exact ⟨h.expressible fun t ht => lexical t (by simp [ht]),
      hs.expressible fun t ht => lexical t (by simp [ht])⟩

/-- All statements of a second body are expressible, and a choice at its head is all of it. -/
theorem IsTail.expressible {ts : List Token} {ns : List Node} : IsTail ts ns →
    (∀ t ∈ ts, t.IsLexical) →
    (∀ n ∈ ns, n.IsExpressible) ∧ ∀ n ∈ ns.head?, n.isChoice = true → ns = [n]
  | .close _, _ => by simp
  | .elseIf _ _ hc _ hb ht, lexical => by
    obtain ⟨he, nested⟩ := ht.expressible fun t ht => lexical t (by simp [ht])
    have inner := Node.IsExpressible.choice (hc.expressible fun t ht => lexical t (by simp [ht]))
      (hb.expressible fun t ht => lexical t (by simp [ht])) he nested
    refine ⟨by simpa using inner, fun n hn _ => ?_⟩
    cases hn
    rfl
  | .otherwise _ hb first _, lexical => by
    refine ⟨hb.expressible fun t ht => lexical t (by simp [ht]), fun n hn choice => ?_⟩
    rw [hb.forall_head_iff.1 first n hn] at choice
    cases choice

end

/-! ### Declarations -/

theorem IsMembers.expressible {name : Text} {next : Int} {members : List Variable}
    (h : IsMembers name next ts members) (lexical : ∀ t ∈ ts, t.IsLexical) :
    ∀ m ∈ members, Node.IsMember name m := by
  have written : ∀ m : Token, m.IsLexical → m.kind = .var ∨ m.kind = .name →
      Written .var m.text ∨ Written .name m.text :=
    fun m hm kind => kind.imp hm.written hm.written
  induction h with
  | nil => simp
  | counted hm _ ih =>
    rw [List.forall_mem_cons]
    exact ⟨⟨_, _, written _ (lexical _ (by simp)) hm, rfl⟩, ih fun t ht => lexical t (by simp [ht])⟩
  | indexed hm _ _ _ ih =>
    rw [List.forall_mem_cons]
    exact ⟨⟨_, _, written _ (lexical _ (by simp)) hm, rfl⟩, ih fun t ht => lexical t (by simp [ht])⟩

theorem IsDeclaration.expressible {n : Node} (h : IsDeclaration ts n)
    (lexical : ∀ t ∈ ts, t.IsLexical) : n.IsDeclared := by
  cases h with
  | initialised ht hv =>
    exact .var ((lexical _ (by simp)).written ht) (.inr ((lexical _ (by simp)).written hv))
  | uninitialised ht _ => exact .var ((lexical _ (by simp)).written ht) (.inl rfl)
  | enum _ hn hs _ =>
    exact .enum ((lexical _ (by simp)).written hn)
      (hs.expressible fun t ht => lexical t (by simp [ht]))

theorem IsDeclarations.expressible {ns : List Node} (h : IsDeclarations ts ns)
    (lexical : ∀ t ∈ ts, t.IsLexical) : ∀ n ∈ ns, n.IsDeclared := by
  induction h with
  | nil => simp
  | cons h _ ih =>
    rw [List.forall_mem_cons]
    exact ⟨h.expressible fun t ht => lexical t (by simp [ht]),
      ih fun t ht => lexical t (by simp [ht])⟩

end Grammar

end XtAsm
