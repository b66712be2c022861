import XtAsm.Proofs.Node.Guards
import XtAsm.Proofs.Program.RoundTrip

/-!
# The shape of programs that have been read

What code generators can rely on: nodes stand only where they belong, loops and choices have as many
connectives as they need, and names and literals consist of the right characters.

* `Text.IsIdentifier`, `Text.IsBareName`, `Text.IsNumeral`: texts, byte by byte;
* `Node.statements`: the nodes in statement positions, at any depth;
* `Node.IsSound`, `Node.IsDefinition`: what holds of a single statement, and of a declaration;
* `Program.IsWellFormed`: what holds of a program;
* `Program.isWellFormed_of_ofTokens`: it holds of all programs that are read.
-/

namespace XtAsm

open Lexer

/-! ### Texts -/

namespace Text

/-- The byte lies between two bounds. -/
def isWithin (lowest highest b : UInt8) : Bool := lowest ≤ b && b ≤ highest

/-- A decimal digit. -/
def isDigitByte (b : UInt8) : Bool := isWithin 48 57 b

/-- A digit or a dot. -/
def isNumeralByte (b : UInt8) : Bool := isDigitByte b || b == 46

/-- A letter, a digit, an underscore or a dot. -/
def isIdentifierByte (b : UInt8) : Bool :=
  isWithin 97 122 b || isWithin 65 90 b || isDigitByte b || b == 95 || b == 46

/-- A non-empty text of letters, digits, underscores and dots. -/
def IsIdentifier (t : Text) : Prop := t ≠ [] ∧ ∀ b ∈ t, isIdentifierByte b = true

/-- A non-empty text without spaces, tabs, carriage returns, line feeds and semicolons. -/
def IsBareName (t : Text) : Prop := t ≠ [] ∧ ∀ b ∈ ([32, 9, 13, 10, 59] : Text), b ∉ t

/-- A text of digits and dots that starts with a digit. -/
def IsNumeral (t : Text) : Prop :=
  (∃ b ∈ t.head?, isDigitByte b = true) ∧ ∀ b ∈ t, isNumeralByte b = true

/-- Characters have an encoding. -/
theorem ofChars_ne_nil {cs : List Char} (h : cs ≠ []) : ofChars cs ≠ [] := fun empty =>
  h (ofChars_injective empty)

/-- The bytes of ASCII characters of a class are of the class of bytes that goes with it. -/
theorem forall_mem_ofChars {p : Char → Bool} {q : UInt8 → Bool}
    (h : ∀ {c}, p c = true → c.toNat < 0x80 ∧ q (UInt8.ofNat c.toNat) = true) {cs : List Char}
    (hs : ∀ c ∈ cs, p c = true) : ∀ b ∈ ofChars cs, q b = true := by
  intro b hb
  obtain ⟨c, hc, hb⟩ := List.mem_flatMap.1 hb
  obtain ⟨ascii, member⟩ := h (hs c hc)
  rw [utf8EncodeChar_of_lt ascii, List.mem_singleton] at hb
  rwa [hb]

/-- A character between ASCII bounds is a byte between the same bounds. -/
theorem isWithin_ofNat {lowest highest : UInt8} {c : Char} (lower : lowest.toNat ≤ c.toNat)
    (upper : c.toNat ≤ highest.toNat) (ascii : highest.toNat < 0x80) :
    c.toNat < 0x80 ∧ isWithin lowest highest (UInt8.ofNat c.toNat) = true := by
  refine ⟨Nat.lt_of_le_of_lt upper ascii, ?_⟩
  rw [isWithin, Bool.and_eq_true, decide_eq_true_eq, decide_eq_true_eq, UInt8.le_iff_toNat_le,
    UInt8.le_iff_toNat_le, toNat_ofNat_byte (by omega)]
  exact ⟨lower, upper⟩

theorem isDigitByte_of_isDigit {c : Char} (h : c.isDigit = true) :
    c.toNat < 0x80 ∧ isDigitByte (UInt8.ofNat c.toNat) = true := by
  simp only [Char.isDigit, Bool.and_eq_true, decide_eq_true_eq, UInt32.le_iff_toNat_le] at h
  exact isWithin_ofNat h.1 h.2 (by decide)

theorem isNumeralByte_of_isNumberRest {c : Char} (h : isNumberRest c = true) :
    c.toNat < 0x80 ∧ isNumeralByte (UInt8.ofNat c.toNat) = true := by
  simp only [isNumberRest, Bool.or_eq_true, beq_iff_eq] at h
  rcases h with h | rfl
  · exact (isDigitByte_of_isDigit h).imp_right fun digit => by simp [isNumeralByte, digit]
  · decide

theorem isIdentifierByte_of_isIdentifierRest {c : Char} (h : isIdentifierRest c = true) :
    c.toNat < 0x80 ∧ isIdentifierByte (UInt8.ofNat c.toNat) = true := by
  simp only [isIdentifierRest, isLetter, Bool.or_eq_true, Bool.and_eq_true, decide_eq_true_eq,
    beq_iff_eq, Char.le_def, UInt32.le_iff_toNat_le] at h
  rcases h with (((lower | upper) | digit) | rfl) | rfl
  · have letter : _ ∧ isWithin 97 122 _ = true := isWithin_ofNat lower.1 lower.2 (by decide)
    exact letter.imp_right fun letter => by simp [isIdentifierByte, letter]
  · have letter : _ ∧ isWithin 65 90 _ = true := isWithin_ofNat upper.1 upper.2 (by decide)
    exact letter.imp_right fun letter => by simp [isIdentifierByte, letter]
  · exact (isDigitByte_of_isDigit digit).imp_right fun digit => by simp [isIdentifierByte, digit]
  · decide
  · decide

theorem isIdentifier_ofChars {cs : List Char} (ne : cs ≠ [])
    (hs : ∀ c ∈ cs, isIdentifierRest c = true) : (ofChars cs).IsIdentifier :=
  ⟨ofChars_ne_nil ne, forall_mem_ofChars isIdentifierByte_of_isIdentifierRest hs⟩

theorem isBareName_ofChars {cs : List Char} (ne : cs ≠ []) (hs : ∀ c ∈ cs, isNameRest c = true) :
    (ofChars cs).IsBareName := by
  have absent : ∀ d, isNameRest d = false → d ∉ cs := fun d stop mem => by
    rw [hs d mem] at stop
    cases stop
  refine ⟨ofChars_ne_nil ne, ?_⟩
  simp only [List.forall_mem_cons]
  exact ⟨not_mem_ofChars (by decide) rfl (absent ' ' (by decide)),
    not_mem_ofChars (by decide) rfl (absent '\t' (by decide)),
    not_mem_ofChars (by decide) rfl (absent '\r' (by decide)),
    not_mem_ofChars (by decide) rfl (absent '\n' (by decide)),
    not_mem_ofChars (by decide) rfl (absent ';' (by decide)), by simp⟩

theorem isNumeral_ofChars {c : Char} {cs : List Char} (hc : c.isDigit = true)
    (hs : ∀ d ∈ cs, isNumberRest d = true) : (ofChars (c :: cs)).IsNumeral := by
  obtain ⟨ascii, digit⟩ := isDigitByte_of_isDigit hc
  refine ⟨⟨UInt8.ofNat c.toNat, ?_, digit⟩, forall_mem_ofChars isNumeralByte_of_isNumberRest ?_⟩
  · rw [ofChars_cons, utf8EncodeChar_of_lt ascii]
    rfl
  · rw [List.forall_mem_cons]
    exact ⟨by simp [isNumberRest, hc], hs⟩

end Text

/-! ### Lexemes -/

section Written

variable {t : Text}

theorem Written.isIdentifier (h : Written .var t ∨ Written .name t) : t.IsIdentifier := by
  rcases h with ⟨w, hw⟩ | ⟨w, hw⟩
  · cases hw with
    | var ne hs => exact Text.isIdentifier_ofChars ne hs
  · cases hw with
    | name hc hs =>
      refine Text.isIdentifier_ofChars (List.cons_ne_nil _ _) ?_
      rw [List.forall_mem_cons]
      exact ⟨by simp [isIdentifierRest, hc], hs⟩

theorem Written.isBareName (h : Written .reg t ∨ Written .label t) : t.IsBareName := by
  rcases h with ⟨w, hw⟩ | ⟨w, hw⟩
  · cases hw with
    | register ne hs => exact Text.isBareName_ofChars ne hs
  · cases hw with
    | label ne hs => exact Text.isBareName_ofChars ne hs

theorem Written.isNumeral (h : Written .int t) : t.IsNumeral := by
  obtain ⟨w, hw⟩ := h
  cases hw with
  | int hc hs => exact Text.isNumeral_ofChars hc hs

end Written

namespace Node

/-! ### Statements and their parts -/

/-- The node is a statement. -/
def isStatement : Node → Bool
  | .label _ | .exit _ | .assign _ _ _ | .leave | .jump _ | .whileLoop _ _ _ | .forLoop _ _ _ _
  | .loop _ | .choice _ _ _ _ => true
  | _ => false

mutual

/-- A node in a statement position, and all nodes in statement positions below it. -/
def statements : Node → List Node
  | .whileLoop cs ops body => .whileLoop cs ops body :: statementsAll body
  | .forLoop counter limit increment body =>
    .forLoop counter limit increment body :: statementsAll body
  | .loop body => .loop body :: statementsAll body
  | .choice cs ops thenBody elseBody =>
    .choice cs ops thenBody elseBody :: (statementsAll thenBody ++ statementsAll elseBody)
  | n => [n]

/-- The nodes in statement positions of a body, at any depth. -/
def statementsAll : List Node → List Node
  | [] => []
  | n :: ns => statements n ++ statementsAll ns

end

/-- The conditions of a loop or a choice. -/
def conditions : Node → List Condition
  | .whileLoop cs _ _ | .choice cs _ _ _ => cs
  | _ => []

/-- The connectives of a loop or a choice with conditions, and how many conditions there are. -/
def guard? : Node → Option Guard
  | .whileLoop cs ops _ | .choice cs ops _ _ => some ⟨cs.length, ops.length⟩
  | _ => none

/-- The operands of a statement. -/
def operands : Node → List Node
  | .exit value => [value]
  | .assign _ target source => [target, source]
  | .forLoop counter limit increment _ => [counter, limit, increment]
  | n => n.conditions.flatMap fun c => [c.lhs, c.rhs]

/-- The operand that a statement changes. -/
def target? : Node → Option Node
  | .assign _ target _ => some target
  | _ => none

/-- The second body of a choice. -/
def elseBody? : Node → Option (List Node)
  | .choice _ _ _ elseBody => some elseBody
  | _ => none

/-- The name of a label, or the label that a jump goes to. -/
def labelName? : Node → Option Text
  | .label name | .jump name => some name
  | _ => none

/-! ### Soundness -/

/-- The use of a variable, a register or a literal, with a proper name or value. -/
def IsBasic : Node → Prop
  | .var v => v.isDeclaration = false ∧ v.value = [] ∧ v.name.IsIdentifier
  | .register name => name.IsBareName
  | .literal value => value.IsNumeral
  | _ => False

/-- The second body of a choice is empty, a nested choice, or starts with another statement. -/
def IsElseBody (body : List Node) : Prop :=
  body = [] ∨ (∃ n, body = [n] ∧ n.isChoice = true) ∨
    ∃ n ns, body = n :: ns ∧ n.isChoice = false

/-- What holds of a node in a statement position, its bodies apart. -/
structure IsSound (n : Node) : Prop where
  isStatement : n.isStatement = true
  operands : ∀ m ∈ n.operands, m.IsBasic
  target : ∀ m ∈ n.target?, m.isLiteral = false
  comparisons : ∀ c ∈ n.conditions, ¬ (c.lhs.isLiteral = true ∧ c.rhs.isLiteral = true)
  /-- There is at least one comparison, and one connective fewer. -/
  guard : ∀ g ∈ n.guard?, 1 ≤ g.comparisons ∧ g.connectives = g.comparisons - 1
  elseBody : ∀ body ∈ n.elseBody?, IsElseBody body
  labelName : ∀ name ∈ n.labelName?, name.IsBareName

/-- The declaration of a variable, or an enumeration, of which each member is a declared variable
whose name is qualified. -/
def IsDefinition : Node → Prop
  | .var v => v.isDeclaration = true ∧ v.name.IsIdentifier ∧ (v.value = [] ∨ v.value.IsNumeral)
  | .enum name members => ∀ m ∈ members, m.isDeclaration = true ∧ m.name.IsIdentifier ∧
      ∃ member : Text, member.IsIdentifier ∧ m.name = name ++ "." ++ member
  | _ => False

/-! ### Trees of source text -/

theorem IsOperand.isBasic {n : Node} (h : n.IsOperand) : n.IsBasic := by
  cases h with
  | var h => exact ⟨rfl, rfl, Written.isIdentifier (.inl h)⟩
  | register h => exact Written.isBareName (.inl h)
  | literal h => exact h.isNumeral

theorem IsDestination.isBasic {n : Node} (h : n.IsDestination) :
    n.IsBasic ∧ n.isLiteral = false := by
  cases h with
  | var h => exact ⟨⟨rfl, rfl, Written.isIdentifier (.inl h)⟩, rfl⟩
  | register h => exact ⟨Written.isBareName (.inl h), rfl⟩

theorem IsComparison.isBasic {c : Condition} (h : IsComparison c) :
    c.lhs.IsBasic ∧ c.rhs.IsBasic ∧ ¬ (c.lhs.isLiteral = true ∧ c.rhs.isLiteral = true) := by
  cases h with
  | mk hl hr literals => exact ⟨hl.isBasic, hr.isBasic, literals⟩

/-- The parts of a loop or a choice that concern its conditions. -/
theorem IsChain.isSound {n : Node} {ops : List Connective} (h : IsChain n.conditions ops)
    (isStatement : n.isStatement = true)
    (operands : n.operands = n.conditions.flatMap fun c => [c.lhs, c.rhs])
    (target : n.target? = none) (guard : n.guard? = some ⟨n.conditions.length, ops.length⟩)
    (elseBody : ∀ body ∈ n.elseBody?, IsElseBody body) (labelName : n.labelName? = none) :
    n.IsSound := by
  have comparisons := h.isComparison
  have length := h.length_eq
  refine ⟨isStatement, ?_, by simp [target], fun c hc => (comparisons c hc).isBasic.2.2, ?_,
    elseBody, by simp [labelName]⟩
  · rw [operands]
    intro m hm
    obtain ⟨c, hc, hm⟩ := List.mem_flatMap.1 hm
    obtain ⟨left, right, -⟩ := (comparisons c hc).isBasic
    simp only [List.mem_cons, List.not_mem_nil, or_false] at hm
    rcases hm with rfl | rfl
    · exact left
    · exact right
  · rw [guard]
    rintro g ⟨⟩
    dsimp only
    omega

/-- What follows `else` is empty, a nested choice, or starts with another statement. -/
theorem isElseBody_of_nested {body : List Node}
    (nested : ∀ n ∈ body.head?, n.isChoice = true → body = [n]) : IsElseBody body := by
  cases body with
  | nil => exact .inl rfl
  | cons n ns =>
    cases choice : n.isChoice with
    | true => exact .inr (.inl ⟨n, nested n rfl choice, choice⟩)
    | false => exact .inr (.inr ⟨n, ns, rfl, choice⟩)

/-- The parts of a statement without conditions. -/
theorem isSound_of_operands {n : Node} (isStatement : n.isStatement = true)
    (operands : ∀ m ∈ n.operands, m.IsBasic) (target : ∀ m ∈ n.target?, m.isLiteral = false)
    (labelName : ∀ name ∈ n.labelName?, name.IsBareName) (unconditional : n.guard? = none) :
    n.IsSound := by
  cases n with
  | whileLoop | choice => cases unconditional
  | _ =>
    exact ⟨isStatement, operands, target, by simp [conditions], by simp [guard?],
      by simp [elseBody?], labelName⟩

/-- Statements of source text are sound. -/
theorem IsExpressible.isSound {n : Node} (h : n.IsExpressible) : n.IsSound := by
  cases h with
  | label h | jump h =>
    exact isSound_of_operands rfl (by simp [operands, conditions]) (by simp [target?])
      (by simpa [labelName?] using Written.isBareName (.inr h)) rfl
  | leave | loop =>
    exact isSound_of_operands rfl (by simp [operands, conditions]) (by simp [target?])
      (by simp [labelName?]) rfl
  | exit h =>
    exact isSound_of_operands rfl (by simpa [operands] using h.isBasic) (by simp [target?])
      (by simp [labelName?]) rfl
  | assign ht hs =>
    exact isSound_of_operands rfl (by simpa [operands] using ⟨ht.isBasic.1, hs.isBasic⟩)
      (by simpa [target?] using ht.isBasic.2) (by simp [labelName?]) rfl
  | forLoop hc hl hi =>
    exact isSound_of_operands rfl
      (by simpa [operands] using ⟨hc.isBasic, hl.isBasic, hi.isBasic⟩) (by simp [target?])
      (by simp [labelName?]) rfl
  | whileLoop hc =>
    exact IsChain.isSound (n := .whileLoop _ _ _) hc rfl rfl rfl rfl (by simp [elseBody?]) rfl
  | choice hc _ _ nested =>
    exact IsChain.isSound (n := .choice _ _ _ _) hc rfl rfl rfl rfl
      (by simpa [elseBody?] using isElseBody_of_nested nested) rfl

/-- The statements of a body, from those of each node. -/
theorem forall_mem_statementsAll {P : Node → Prop} {ns : List Node}
    (h : ∀ n ∈ ns, ∀ m ∈ n.statements, P m) : ∀ m ∈ statementsAll ns, P m := by
  induction ns with
  | nil => simp [statementsAll]
  | cons n ns ih =>
    rw [List.forall_mem_cons] at h
    rw [statementsAll, List.forall_mem_append]
    exact ⟨h.1, ih h.2⟩

/-- What stands in the bodies of an expressible statement is expressible, at any depth. -/
theorem IsExpressible.statements {n : Node} (h : n.IsExpressible) :
    ∀ m ∈ n.statements, m.IsExpressible := by
  induction h with
  | label h => simpa [Node.statements] using .label h
  | leave => simpa [Node.statements] using .leave
  | jump h => simpa [Node.statements] using .jump h
  | exit h => simpa [Node.statements] using .exit h
  | assign ht hs => simpa [Node.statements] using .assign ht hs
  | loop hb ih =>
    rw [Node.statements, List.forall_mem_cons]
    exact ⟨.loop hb, forall_mem_statementsAll ih⟩
  | whileLoop hc hb ih =>
    rw [Node.statements, List.forall_mem_cons]
    exact ⟨.whileLoop hc hb, forall_mem_statementsAll ih⟩
  | forLoop hc hl hi hb ih =>
    rw [Node.statements, List.forall_mem_cons]
    exact ⟨.forLoop hc hl hi hb, forall_mem_statementsAll ih⟩
  | choice hc ht he nested iht ihe =>
    rw [Node.statements, List.forall_mem_cons, List.forall_mem_append]
    exact ⟨.choice hc ht he nested, forall_mem_statementsAll iht, forall_mem_statementsAll ihe⟩

theorem isIdentifier_qualified {name member : Text} (hn : name.IsIdentifier)
    (hm : member.IsIdentifier) : (name ++ Text.ofString "." ++ member).IsIdentifier := by
  have dot : ∀ b ∈ Text.ofString ".", Text.isIdentifierByte b = true :=
    List.forall_mem_singleton.2 rfl
  refine ⟨by simp [hn.1], ?_⟩
  rw [List.forall_mem_append, List.forall_mem_append]
  exact ⟨⟨hn.2, dot⟩, hm.2⟩

/-- Declarations of source text define variables or enumerations. -/
theorem IsDeclared.isDefinition {n : Node} (h : n.IsDeclared) : n.IsDefinition := by
  cases h with
  | var hn hv => exact ⟨rfl, Written.isIdentifier (.inl hn), hv.imp_right Written.isNumeral⟩
  | enum hn hm =>
    intro m mem
    obtain ⟨text, value, written, rfl⟩ := hm m mem
    have member := Written.isIdentifier written
    exact ⟨rfl, isIdentifier_qualified (Written.isIdentifier (.inr hn)) member, text, member, rfl⟩

end Node

namespace Program

/-- The data section defines variables and enumerations, and all nodes in statement positions of the
code section are sound statements. -/
structure IsWellFormed (p : Program) : Prop where
  data : ∀ n ∈ p.data, n.IsDefinition
  code : ∀ n ∈ Node.statementsAll p.code, n.IsSound

/-- **Programs that have been read are well-formed.** -/
theorem isWellFormed_of_ofTokens {s : Source} {ts : List Token} {p : Program}
    (lexed : s.lex = .ok ts) (parsed : (ofTokens ts).result = .ok p) : p.IsWellFormed := by
  have lexical : ∀ t ∈ ts, t.IsLexical := spells_of_tokensFrom lexed
  obtain ⟨us, vs, ds, cs, rfl, hd, hc, inUs, inVs⟩ :=
    exists_sections (Grammar.isProgram_of_accepts parsed)
  have declarations := hd.expressible fun t ht => lexical t (inUs t ht)
  have statements := hc.expressible fun t ht => lexical t (inVs t ht)
  refine ⟨fun n hn => (declarations n hn).isDefinition, fun n hn => ?_⟩
  exact (Node.forall_mem_statementsAll (fun m hm => (statements m hm).statements) n hn).isSound

theorem isWellFormed_of_ofTokens_choice :
    (choiceSource.lex = .ok choiceTokens ∧ (ofTokens choiceTokens).result = .ok choiceProgram) ∧
      choiceProgram.IsWellFormed := by
  have lexed : choiceSource.lex = .ok choiceTokens := lex_of_toOption (by decide +kernel)
  have parsed : (ofTokens choiceTokens).result = .ok choiceProgram := rfl
  exact ⟨⟨lexed, parsed⟩, isWellFormed_of_ofTokens lexed parsed⟩

end Program

end XtAsm
