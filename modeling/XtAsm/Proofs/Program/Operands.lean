import Mathlib.Data.List.Forall2
import XtAsm.Proofs.Listing.Correctness
import XtAsm.Proofs.Program.Assignments

/-!
# What listings tell apart

In a listing, registers and literals stand as they are, and variables in brackets.  The sigil of a
register is gone: a register whose name is spelled like a literal, or like a variable in brackets,
has the same text as that literal or variable.  No other operands have the same text.

* `Node.Mimics`, `Node.LooksLike`, `Node.Alike`: operands, and instructions, that cannot be told
  apart in a listing;
* `operandText_eq_iff`: which operands have the same text;
* `HasLine`, `alike_of_lines`: the lines of exits and assignments, and what follows if their texts
  are the same;
* `generateAll_congr`: the same is generated for instructions that look alike;
* `Program.listing_eq_iff_alike`: which straight-line programs have the same listing.
-/

namespace XtAsm

open Lexer

namespace Node

/-! ### Operands with the same text -/

/-- The name of a register is spelled like another operand of a listing. -/
inductive Mimics : Node → Node → Prop
  | literal {value : Text} : Mimics (.register value) (.literal value)
  | variable {name : Text} : Mimics (.register ("[" ++ name ++ "]")) (.use name)

/-- Two operands are equal, or one of them is a register that is spelled like the other one. -/
def LooksLike (n m : Node) : Prop := n = m ∨ n.Mimics m ∨ m.Mimics n

theorem LooksLike.symm {n m : Node} (h : n.LooksLike m) : m.LooksLike n :=
  h.elim (.inl ·.symm) fun h => .inr h.symm

/-- The two instructions differ at most in operands that look like each other. -/
inductive Alike : Node → Node → Prop
  | exit {a b : Node} (h : a.LooksLike b) : Alike (.exit a) (.exit b)
  | assign {op : Mnemonic} {target target' source source' : Node} (ht : target.LooksLike target')
      (hs : source.LooksLike source') :
      Alike (.assign op target source) (.assign op target' source')

/-- The node is an exit or an assignment. -/
def isStraight : Node → Bool
  | .exit _ | .assign _ _ _ => true
  | _ => false

/-- Exits and assignments have no nested statements. -/
theorem statementsAll_of_isStraight {ns : List Node} (h : ∀ n ∈ ns, n.isStraight = true) :
    statementsAll ns = ns := by
  induction ns with
  | nil => rfl
  | cons n ns ih =>
    rw [List.forall_mem_cons] at h
    have single : statements n = [n] := by
      cases n with
      | exit | assign => rfl
      | _ => cases h.1
    rw [statementsAll, single, ih h.2, List.singleton_append]

theorem IsBasic.exists_eq {n : Node} (h : n.IsBasic) :
    (∃ name, n = .use name) ∨ (∃ name, n = .register name) ∨
      ∃ value : Text, n = .literal value ∧ value.IsNumeral := by
  cases n with
  | var v =>
    obtain ⟨name, value, isDeclaration⟩ := v
    obtain ⟨rfl, rfl, -⟩ := h
    exact .inl ⟨name, rfl⟩
  | register name => exact .inr (.inl ⟨name, rfl⟩)
  | literal value => exact .inr (.inr ⟨value, rfl, h⟩)
  | _ => cases h

/-- Instructions that look alike are equal if no operand of one is spelled like an operand of the
other. -/
theorem Alike.eq {n m : Node} (h : n.Alike m)
    (distinct : ∀ a ∈ n.operands, ∀ b ∈ m.operands, ¬ a.Mimics b ∧ ¬ b.Mimics a) : n = m := by
  have operand {a b : Node} (ha : a ∈ n.operands) (hb : b ∈ m.operands) (like : a.LooksLike b) :
      a = b := by
    obtain ⟨forward, backward⟩ := distinct a ha b hb
    exact like.resolve_right fun mimics => mimics.elim forward backward
  cases h with
  | exit h => rw [operand (.head _) (.head _) h]
  | assign ht hs =>
    rw [operand (.head _) (.head _) ht, operand (.tail _ (.head _)) (.tail _ (.head _)) hs]

theorem eq_of_alike {ns ms : List Node} (h : List.Forall₂ Alike ns ms)
    (distinct : ∀ a ∈ ns.flatMap operands, ∀ b ∈ ms.flatMap operands,
      ¬ a.Mimics b ∧ ¬ b.Mimics a) : ns = ms := by
  induction h with
  | nil => rfl
  | cons alike _ ih =>
    simp only [List.flatMap_cons, List.forall_mem_append] at distinct
    rw [alike.eq fun a ha b hb => (distinct.1 a ha).1 b hb,
      ih fun a ha b hb => (distinct.2 a ha).2 b hb]

end Node

namespace Listing

open Node

/-! ### Texts of operands -/

/-- No numeral starts with a bracket. -/
theorem operandText_use_ne {name value : Text} (h : value.IsNumeral) :
    operandText (.use name) ≠ value := by
  rintro rfl
  obtain ⟨b, head, digit⟩ := h.1
  have bracket : (operandText (.use name)).head? = some 91 := rfl
  rw [bracket] at head
  cases head
  cases digit

/-- Variables with different names have different texts. -/
theorem operandText_use_inj {a b : Text} (h : operandText (.use a) = operandText (.use b)) :
    a = b := by
  have names : Text.ofString "[" ++ a ++ Text.ofString "]" =
    Text.ofString "[" ++ b ++ Text.ofString "]" := h
  exact List.append_cancel_left (List.append_cancel_right names)

/-- Operands that look like each other have the same text. -/
theorem operandText_congr {n m : Node} (h : n.LooksLike m) : operandText n = operandText m := by
  rcases h with rfl | h | h
  · rfl
  · cases h <;> rfl
  · cases h <;> rfl

/-- A register looks like every operand that is the same text. -/
theorem looksLike_of_register {name : Text} {m : Node} (hm : m.IsBasic)
    (same : name = operandText m) : (Node.register name).LooksLike m := by
  subst same
  rcases hm.exists_eq with ⟨_, rfl⟩ | ⟨_, rfl⟩ | ⟨_, rfl, -⟩
  · exact .inr (.inl .variable)
  · exact .inl rfl
  · exact .inr (.inl .literal)

/-- **The texts of operands.**  Variables, registers and literals have the same text exactly if they
look like each other. -/
theorem operandText_eq_iff {n m : Node} (hn : n.IsBasic) (hm : m.IsBasic) :
    operandText n = operandText m ↔ n.LooksLike m := by
  refine ⟨fun same => ?_, operandText_congr⟩
  rcases hn.exists_eq with ⟨a, rfl⟩ | ⟨a, rfl⟩ | ⟨a, rfl, numeral⟩
  · rcases hm.exists_eq with ⟨b, rfl⟩ | ⟨b, rfl⟩ | ⟨b, rfl, numeral⟩
    · rw [operandText_use_inj same]
      exact .inl rfl
    · exact (looksLike_of_register hn same.symm).symm
    · exact absurd same (operandText_use_ne numeral)
  · exact looksLike_of_register hm same
  · rcases hm.exists_eq with ⟨b, rfl⟩ | ⟨b, rfl⟩ | ⟨b, rfl, -⟩
    · exact absurd same.symm (operandText_use_ne numeral)
    · exact (looksLike_of_register hn same.symm).symm
    · exact .inl (congrArg Node.literal same)

/-! ### Lines of instructions -/

variable {exit? : Option Label} {n m : Node} {l k : Line}

/-- The line of an exit or an assignment of source text. -/
inductive HasLine : Node → Line → Prop
  | exit {value : Node} (h : value.IsOperand) : HasLine (.exit value) (.exit (operandText value))
  | assign {op : Mnemonic} {target source : Node} (ht : target.IsOperand) (hs : source.IsOperand) :
      HasLine (.assign op target source) (.assign op (operandText target) (operandText source))

theorem HasLine.isTidy (h : HasLine n l) : IsTidy l := by
  cases h with
  | exit h => exact .exit (isBare_operandText h)
  | assign ht hs => exact .assign (isBare_operandText ht) (isBare_operandText hs)

/-- Lines of exits and assignments with the same text are the same lines. -/
theorem HasLine.eq_of_render_eq (h : HasLine n l) (h' : HasLine m k)
    (same : l.render = k.render) : l = k := by
  have change : l.change? = k.change? := by
    rw [← (readsAs_render h.isTidy).change, ← (readsAs_render h'.isTidy).change, same]
  cases h with
  | exit =>
    cases h' with
    | exit =>
      have arguments := List.append_cancel_left same
      rw [arguments]
    | assign => cases change
  | assign =>
    cases h' with
    | exit => cases change
    | assign =>
      -- the operand that is changed can be read off the line, and so the rest is the other one
      simp only [Line.change?, Option.some.injEq, Prod.mk.injEq] at change
      obtain ⟨rfl, target⟩ := change
      simp only [Line.render, target] at same
      rw [target, List.append_cancel_left same]

/-- Instructions whose lines have the same text look alike. -/
theorem HasLine.alike (h : HasLine n l) (h' : HasLine m k) (same : l.render = k.render) :
    n.Alike m := by
  have line := h.eq_of_render_eq h' same
  cases h with
  | exit h =>
    cases h' with
    | exit h' =>
      rw [Line.exit.injEq, operandText_eq_iff h.isBasic h'.isBasic] at line
      exact .exit line
    | assign => cases line
  | assign ht hs =>
    cases h' with
    | exit => cases line
    | assign ht' hs' =>
      rw [Line.assign.injEq, operandText_eq_iff ht.isBasic ht'.isBasic,
        operandText_eq_iff hs.isBasic hs'.isBasic] at line
      obtain ⟨rfl, target, source⟩ := line
      exact .assign target source

/-- An exit or an assignment of source text is laid out as its line. -/
theorem Lays.hasLine (h : n.IsExpressible) (straight : n.isStraight = true) {ls : List Line}
    {ks : List Nat} (lays : Lays exit? n ls ks) : ∃ l, ls = [l] ∧ HasLine n l := by
  cases h with
  | exit h =>
    cases lays with
    | exit lays =>
      rw [(lays.text h).1]
      exact ⟨_, rfl, .exit h⟩
  | assign ht hs =>
    cases lays with
    | assign laysTarget laysSource =>
      rw [(laysTarget.text ht.isOperand).1, (laysSource.text hs).1]
      exact ⟨_, rfl, .assign ht.isOperand hs⟩
  | _ => cases straight

/-- Exits and assignments of source text are laid out line by line. -/
theorem LaysAll.hasLines {ns : List Node} (h : ∀ n ∈ ns, n.IsExpressible)
    (straight : ∀ n ∈ ns, n.isStraight = true) {ls : List Line} {ks : List Nat}
    (lays : LaysAll exit? ns ls ks) : List.Forall₂ HasLine ns ls := by
  induction ns generalizing ls ks with
  | nil =>
    cases lays
    exact .nil
  | cons n ns ih =>
    rw [List.forall_mem_cons] at h straight
    cases lays with
    | cons lays laysAll =>
      obtain ⟨l, rfl, line⟩ := lays.hasLine h.1 straight.1
      exact .cons line (ih h.2 straight.2 laysAll)

/-- Instructions look alike if the texts of their lines are the same. -/
theorem alike_of_lines {ns ms : List Node} {ls rs : List Line} (h : List.Forall₂ HasLine ns ls)
    (h' : List.Forall₂ HasLine ms rs) (same : ls.map Line.render = rs.map Line.render) :
    List.Forall₂ Alike ns ms := by
  induction h generalizing ms rs with
  | nil =>
    cases h' with
    | nil => exact .nil
    | cons => cases same
  | cons line _ ih =>
    cases h' with
    | nil => cases same
    | cons line' lines' =>
      rw [List.map_cons, List.map_cons, List.cons.injEq] at same
      exact .cons (line.alike line' same.1) (ih lines' same.2)

/-- An exit or an assignment of source text is visited without an error. -/
theorem defect?_of_isStraight (h : n.IsExpressible) (straight : n.isStraight = true)
    (inLoop : Bool) : ∀ v ∈ n.visits inLoop, defect? v = none := by
  cases h with
  | exit h => exact defect?_exit h _
  | assign ht hs => exact defect?_assign ht hs _ _
  | _ => cases straight

/-- A straight-line program of source text has a listing, and its code section consists of the lines
of the program's instructions. -/
theorem exists_codeLines {ds cs : List Node} (hd : ∀ n ∈ ds, n.IsDeclared)
    (hc : ∀ n ∈ cs, n.IsExpressible) (straight : ∀ n ∈ cs, n.isStraight = true) :
    ∃ listing ls, ofProgram (.ofSections ds cs) = .ok listing ∧
      Machine.codeLines listing = ls.map Line.render ∧ List.Forall₂ HasLine cs ls := by
  obtain ⟨data, code, ns, ms, laysData, laysCode, -, result⟩ := exists_ofProgram (.ofSections ds cs)
  rw [findSome?_defect? hd fun n hn => defect?_of_isStraight (hc n hn) (straight n hn) _] at result
  cases laysData with
  | data laysData =>
    cases laysCode with
    | @code _ _ code _ laysCode =>
      have contains := laysCode.contains fun n hn =>
        contains_of_isExpressible (hc n hn) (Option.map_none ..).symm
      exact ⟨_, code, result, codeLines_render (isEntry_of_forall hd laysData) fun l hl =>
        (contains.tidy l hl).newline_not_mem, laysCode.hasLines hc straight⟩

/-! ### What is generated -/

/-- The same is generated for operands that look like each other. -/
theorem generate_congr {n m : Node} (h : n.LooksLike m) :
    n.generate template = m.generate template := by
  have forward {a b : Node} (mimics : a.Mimics b) : a.generate template = b.generate template := by
    cases mimics <;> rfl
  rcases h with rfl | h | h
  · rfl
  · exact forward h
  · exact (forward h).symm

/-- The same is generated for instructions that look alike. -/
theorem generateAll_congr {ns ms : List Node} (h : List.Forall₂ Alike ns ms) :
    generateAll template ns = generateAll template ms := by
  induction h with
  | nil => rfl
  | cons alike _ ih =>
    rw [generateAll, generateAll, ih]
    cases alike with
    | exit h => rw [generate, generate, generate_congr h]
    | assign ht hs => rw [generate, generate, generate_congr ht, generate_congr hs]

end Listing

namespace Program

open Listing

/-- The code of a program consists of exits and assignments. -/
def IsStraightLine (p : Program) : Prop := ∀ n ∈ p.code, n.isStraight = true

/-- The operands of a program that has been read are variables, registers and literals. -/
theorem IsWellFormed.isBasic {p : Program} (h : p.IsWellFormed) {n : Node}
    (mem : n ∈ p.operands) : n.IsBasic := by
  obtain ⟨m, hm, hn⟩ := List.mem_flatMap.1 mem
  exact (h.code m hm).operands n hn

/-- Programs with the same data and instructions that look alike have the same listing. -/
theorem ofProgram_congr {p q : Program} (data : p.data = q.data)
    (code : List.Forall₂ Node.Alike p.code q.code) : ofProgram p = ofProgram q := by
  have same : (Node.code p.code).generate template = (Node.code q.code).generate template := by
    rw [Node.generate, Node.generate, generateAll_congr code]
  simp only [ofProgram, compile, data, same]

/-- The operands of a straight-line program are those of its instructions. -/
theorem IsStraightLine.operands_eq {p : Program} (straight : p.IsStraightLine) :
    p.operands = p.code.flatMap Node.operands := by
  rw [operands, Node.statementsAll_of_isStraight straight]

section

variable {s s' : Source} {ts us : List Token} {p q : Program}

/-- Straight-line programs have listings; if these are equal, the instructions look alike. -/
theorem exists_listings (lexed : s.lex = .ok ts) (parsed : (ofTokens ts).result = .ok p)
    (lexed' : s'.lex = .ok us) (parsed' : (ofTokens us).result = .ok q)
    (straight : p.IsStraightLine) (straight' : q.IsStraightLine) :
    ∃ listing listing', ofProgram p = .ok listing ∧ ofProgram q = .ok listing' ∧
      (listing = listing' → List.Forall₂ Node.Alike p.code q.code) := by
  obtain ⟨ds, cs, rfl, hd, hc⟩ := exists_expressible lexed parsed
  obtain ⟨es, bs, rfl, he, hb⟩ := exists_expressible lexed' parsed'
  obtain ⟨listing, ls, generated, cut, lines⟩ := exists_codeLines hd hc straight
  obtain ⟨listing', rs, generated', cut', lines'⟩ := exists_codeLines he hb straight'
  refine ⟨listing, listing', generated, generated', fun same => ?_⟩
  rw [same, cut'] at cut
  exact alike_of_lines lines lines' cut.symm

/-- **What listings tell apart.**  Two operands of programs have the same text in listings exactly
if they are equal, or one is a register that is spelled like the other one.  Straight-line programs
with the same data have listings, which are equal exactly if the instructions differ at most in such
operands.  Without such registers, equal listings come from equal programs. -/
theorem listing_eq_iff_alike (lexed : s.lex = .ok ts) (parsed : (ofTokens ts).result = .ok p)
    (lexed' : s'.lex = .ok us) (parsed' : (ofTokens us).result = .ok q) :
    (∀ n ∈ p.operands, ∀ m ∈ q.operands, compiledText n = compiledText m ↔ n.LooksLike m) ∧
    (p.IsStraightLine → q.IsStraightLine → p.data = q.data →
      ∃ listing listing', ofProgram p = .ok listing ∧ ofProgram q = .ok listing' ∧
        (listing = listing' ↔ List.Forall₂ Node.Alike p.code q.code) ∧
        ((∀ n ∈ p.operands, ∀ m ∈ q.operands, ¬ n.Mimics m ∧ ¬ m.Mimics n) →
          listing = listing' → p = q)) := by
  constructor
  · intro n hn m hm
    have basic := (isWellFormed_of_ofTokens lexed parsed).isBasic hn
    have basic' := (isWellFormed_of_ofTokens lexed' parsed').isBasic hm
    rw [compiledText_of_isBasic basic, compiledText_of_isBasic basic',
      operandText_eq_iff basic basic']
  · intro straight straight' data
    obtain ⟨listing, listing', generated, generated', alike⟩ :=
      exists_listings lexed parsed lexed' parsed' straight straight'
    refine ⟨listing, listing', generated, generated', ⟨alike, fun code => ?_⟩, ?_⟩
    · have same := ofProgram_congr data code
      rw [generated, generated'] at same
      exact Except.ok.inj same
    · intro distinct same
      rw [straight.operands_eq, straight'.operands_eq] at distinct
      have code := Node.eq_of_alike (alike same) distinct
      obtain ⟨ds, cs, rfl, -⟩ := exists_expressible lexed parsed
      obtain ⟨es, bs, rfl, -⟩ := exists_expressible lexed' parsed'
      rw [data_ofSections, data_ofSections] at data
      rw [code_ofSections, code_ofSections] at code
      rw [data, code]

/-- A file that copies a variable to a register. -/
def loadSource : Source := .ofText "load" "#code\nmov $r .x"

/-- Its tokens. -/
def loadTokens : List Token :=
  [⟨.code, "#code", ⟨"load", 1, 1⟩, spanAt 0 5⟩,
   ⟨.word .mov, "mov", ⟨"load", 2, 1⟩, spanAt 6 3⟩,
   ⟨.reg, "r", ⟨"load", 2, 5⟩, spanAt 10 2⟩,
   ⟨.var, "x", ⟨"load", 2, 8⟩, spanAt 13 2⟩]

/-- Its program. -/
def loadProgram : Program := .ofSections [] [.assign .mov (.register "r") (.use "x")]

/-- A file that copies the register of the same name. -/
def copySource : Source := .ofText "copy" "#code\nmov $r $x"

/-- Its tokens. -/
def copyTokens : List Token :=
  [⟨.code, "#code", ⟨"copy", 1, 1⟩, spanAt 0 5⟩,
   ⟨.word .mov, "mov", ⟨"copy", 2, 1⟩, spanAt 6 3⟩,
   ⟨.reg, "r", ⟨"copy", 2, 5⟩, spanAt 10 2⟩,
   ⟨.reg, "x", ⟨"copy", 2, 8⟩, spanAt 13 2⟩]

/-- Its program. -/
def copyProgram : Program := .ofSections [] [.assign .mov (.register "r") (.register "x")]

theorem listing_eq_iff_alike_load :
    ((loadSource.lex = .ok loadTokens ∧ (ofTokens loadTokens).result = .ok loadProgram) ∧
      (copySource.lex = .ok copyTokens ∧ (ofTokens copyTokens).result = .ok copyProgram)) ∧
    (∀ n ∈ loadProgram.operands, ∀ m ∈ copyProgram.operands,
      compiledText n = compiledText m ↔ n.LooksLike m) ∧
    ∃ listing listing', ofProgram loadProgram = .ok listing ∧ ofProgram copyProgram = .ok listing' ∧
      (listing = listing' ↔ List.Forall₂ Node.Alike loadProgram.code copyProgram.code) ∧
      (listing = listing' → loadProgram = copyProgram) := by
  have lexed : loadSource.lex = .ok loadTokens := lex_of_toOption (by decide +kernel)
  have parsed : (ofTokens loadTokens).result = .ok loadProgram := rfl
  have lexed' : copySource.lex = .ok copyTokens := lex_of_toOption (by decide +kernel)
  have parsed' : (ofTokens copyTokens).result = .ok copyProgram := rfl
  have distinct : ∀ n ∈ loadProgram.operands, ∀ m ∈ copyProgram.operands,
      ¬ n.Mimics m ∧ ¬ m.Mimics n := by
    have loaded : loadProgram.operands = [.register "r", .use "x"] := rfl
    have copied : copyProgram.operands = [.register "r", .register "x"] := rfl
    simp only [loaded, copied, List.forall_mem_cons, List.not_mem_nil, false_implies, implies_true,
      and_true]
    refine ⟨⟨⟨?_, ?_⟩, ?_, ?_⟩, ⟨?_, ?_⟩, ?_, ?_⟩ <;> rintro ⟨⟩
  obtain ⟨texts, listings⟩ := listing_eq_iff_alike lexed parsed lexed' parsed'
  obtain ⟨listing, listing', generated, generated', alike, unconfused⟩ :=
    listings (List.forall_mem_singleton.2 rfl) (List.forall_mem_singleton.2 rfl) rfl
  exact ⟨⟨⟨lexed, parsed⟩, lexed', parsed'⟩, texts, listing, listing', generated, generated', alike,
    unconfused distinct⟩

/-- A file that exits with a register whose name is a digit. -/
def digitSource : Source := .ofText "digit" "#code\nexit $1"

/-- Its tokens. -/
def digitTokens : List Token :=
  [⟨.code, "#code", ⟨"digit", 1, 1⟩, spanAt 0 5⟩,
   ⟨.word .exit, "exit", ⟨"digit", 2, 1⟩, spanAt 6 4⟩,
   ⟨.reg, "1", ⟨"digit", 2, 6⟩, spanAt 11 2⟩]

/-- Its program. -/
def digitProgram : Program := .ofSections [] [.exit (.register "1")]

/-- A file that exits with the literal. -/
def oneSource : Source := .ofText "one" "#code\nexit 1"

/-- Its tokens. -/
def oneTokens : List Token :=
  [⟨.code, "#code", ⟨"one", 1, 1⟩, spanAt 0 5⟩,
   ⟨.word .exit, "exit", ⟨"one", 2, 1⟩, spanAt 6 4⟩,
   ⟨.int, "1", ⟨"one", 2, 6⟩, spanAt 11 1⟩]

/-- Its program. -/
def oneProgram : Program := .ofSections [] [.exit (.literal "1")]

/-- The listing of both. -/
def exitListing : Text := ".data\n.code\n  exit 1\n"

/-- A register and a literal have the same text, and so two different programs with the same data
have the same listing. -/
theorem same_listing_of_digit :
    ((digitSource.lex = .ok digitTokens ∧ (ofTokens digitTokens).result = .ok digitProgram) ∧
      (oneSource.lex = .ok oneTokens ∧ (ofTokens oneTokens).result = .ok oneProgram)) ∧
    (digitProgram.IsStraightLine ∧ oneProgram.IsStraightLine ∧
      digitProgram.data = oneProgram.data) ∧
    (ofProgram digitProgram = .ok exitListing ∧ ofProgram oneProgram = .ok exitListing ∧
      digitProgram ≠ oneProgram) ∧
    ∃ n ∈ digitProgram.operands, ∃ m ∈ oneProgram.operands,
      compiledText n = compiledText m ∧ n ≠ m := by
  have lexed : digitSource.lex = .ok digitTokens := lex_of_toOption (by decide +kernel)
  have lexed' : oneSource.lex = .ok oneTokens := lex_of_toOption (by decide +kernel)
  refine ⟨⟨⟨lexed, rfl⟩, lexed', rfl⟩,
    ⟨List.forall_mem_singleton.2 rfl, List.forall_mem_singleton.2 rfl, rfl⟩,
    ⟨rfl, rfl, fun same => ?_⟩,
    ⟨.register "1", .head _, .literal "1", .head _, rfl, fun same => ?_⟩⟩
  · cases same
  · cases same

end

end Program

end XtAsm
