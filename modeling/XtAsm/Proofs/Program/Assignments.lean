import XtAsm.Proofs.Listing.Reading

/-!
# What a listing changes

Every instruction of a listing that changes its first operand comes from an assignment, or counts
for a loop.

* `Program.changes`, `Program.counters`: the operands that a program changes, and those that its
  loops count;
* `compiledText`: the text of a node in a listing;
* `Program.changes_perm`: a listing changes what the program changes;
* `Program.changes_literal_iff`: it changes a literal exactly if a loop counts one.
-/

namespace XtAsm

open Lexer

namespace Node

/-- What a loop counts. -/
def counter? : Node → Option Node
  | .forLoop counter _ _ _ => some counter
  | _ => none

/-- What a statement changes is one of its operands. -/
theorem mem_operands_of_change? {n : Node} {c : Mnemonic × Node} (h : n.change? = some c) :
    c.2 ∈ n.operands := by
  cases n <;> cases h <;> simp [operands]

/-- A sound statement does not change a literal, unless it counts one. -/
theorem isLiteral_of_change? {n : Node} (sound : n.IsSound) {c : Mnemonic × Node}
    (h : n.change? = some c) (counter : ∀ m ∈ n.counter?, m.isLiteral = false) :
    c.2.isLiteral = false := by
  cases n with
  | assign op target source =>
    cases h
    exact sound.target target rfl
  | forLoop left limit increment body =>
    cases h
    exact counter left rfl
  | _ => cases h

/-- A loop changes what it counts. -/
theorem change?_of_counter? {n m : Node} (h : n.counter? = some m) :
    n.change? = some (.add, m) := by
  cases n <;> cases h
  rfl

end Node

namespace Listing

/-- The text of a node in a listing. -/
def compiledText (n : Node) : Text := render (compile n .initial).1

/-- Variables stand in brackets; registers and literals are their own texts. -/
theorem compiledText_of_isBasic {n : Node} (h : n.IsBasic) : compiledText n = operandText n := by
  cases n with
  | var v =>
    have lines : (compile (.var v) .initial).1 = variableLines v := rfl
    rw [compiledText, lines, variableLines, h.1]
    rfl
  | register => exact render_bareLines _
  | literal => exact render_bareLines _
  | _ => cases h

end Listing

namespace Program

open Listing

/-- The operands of all statements of a program, at any depth. -/
def operands (p : Program) : List Node := (Node.statementsAll p.code).flatMap Node.operands

/-- The operands that a program changes, and how: assignments at any depth, and counting loops. -/
def changes (p : Program) : List (Mnemonic × Node) :=
  (Node.statementsAll p.code).filterMap Node.change?

/-- What the loops of a program count, at any depth. -/
def counters (p : Program) : List Node := (Node.statementsAll p.code).filterMap Node.counter?

/-- What a program changes is an operand of the program, and a variable, a register or a literal. -/
theorem IsWellFormed.mem_operands {p : Program} (h : p.IsWellFormed) {c : Mnemonic × Node}
    (mem : c ∈ p.changes) : c.2 ∈ p.operands ∧ c.2.IsBasic := by
  obtain ⟨n, hn, hc⟩ := List.mem_filterMap.1 mem
  have operand := Node.mem_operands_of_change? hc
  exact ⟨List.mem_flatMap.2 ⟨n, hn, operand⟩, (h.code n hn).operands _ operand⟩

/-- A program changes no literal exactly if no loop counts one. -/
theorem IsWellFormed.forall_changes_iff {p : Program} (h : p.IsWellFormed) :
    (∀ c ∈ p.changes, c.2.isLiteral = false) ↔ ∀ n ∈ p.counters, n.isLiteral = false := by
  constructor
  · intro changes m mem
    obtain ⟨n, hn, hm⟩ := List.mem_filterMap.1 mem
    exact changes (.add, m) (List.mem_filterMap.2 ⟨n, hn, Node.change?_of_counter? hm⟩)
  · intro counters c mem
    obtain ⟨n, hn, hc⟩ := List.mem_filterMap.1 mem
    exact Node.isLiteral_of_change? (h.code n hn) hc fun m hm =>
      counters m (List.mem_filterMap.2 ⟨n, hn, hm⟩)

section

variable {s : Source} {ts : List Token} {p : Program} {listing : Text}

/-- The instructions of a listing that change an operand are those that the program says, in some
order. -/
theorem changes_perm (lexed : s.lex = .ok ts) (parsed : (ofTokens ts).result = .ok p)
    (generated : ofProgram p = .ok listing) :
    (Listing.changes listing).Perm (p.changes.map fun c => (c.1, compiledText c.2)) := by
  obtain ⟨ls, ks, contains, -, -, -, read⟩ := exists_contents lexed parsed generated
  have texts : (p.changes.map fun c => (c.1, compiledText c.2)) =
      p.changes.map fun c => (c.1, operandText c.2) :=
    List.map_congr_left fun c hc => by
      rw [compiledText_of_isBasic ((isWellFormed_of_ofTokens lexed parsed).mem_operands hc).2]
  rw [read, texts]
  exact contains.changes

/-- **What a listing changes.**  Every instruction that changes its first operand comes from a
statement of the program, and the operand is the text of a variable, a register or a literal of
the program.  It is never a literal exactly if no loop of the program counts one. -/
theorem changes_literal_iff (lexed : s.lex = .ok ts) (parsed : (ofTokens ts).result = .ok p)
    (generated : ofProgram p = .ok listing) :
    (Listing.changes listing).Perm (p.changes.map fun c => (c.1, compiledText c.2)) ∧
      (∀ c ∈ p.changes, c.2 ∈ p.operands ∧ c.2.IsBasic) ∧
      ((∀ c ∈ p.changes, c.2.isLiteral = false) ↔ ∀ n ∈ p.counters, n.isLiteral = false) := by
  have wellFormed := isWellFormed_of_ofTokens lexed parsed
  exact ⟨changes_perm lexed parsed generated, fun c hc => wellFormed.mem_operands hc,
    wellFormed.forall_changes_iff⟩

/-- A file with a loop that adds up what it counts. -/
def sumSource : Source := .ofText "sum" "#code\nfor .i;3;1 in add $r .i end"

/-- Its tokens. -/
def sumTokens : List Token :=
  [⟨.code, "#code", ⟨"sum", 1, 1⟩, spanAt 0 5⟩,
   ⟨.word .for_, "for", ⟨"sum", 2, 1⟩, spanAt 6 3⟩,
   ⟨.var, "i", ⟨"sum", 2, 5⟩, spanAt 10 2⟩,
   ⟨.semicolon, ";", ⟨"sum", 2, 7⟩, spanAt 12 1⟩,
   ⟨.int, "3", ⟨"sum", 2, 8⟩, spanAt 13 1⟩,
   ⟨.semicolon, ";", ⟨"sum", 2, 9⟩, spanAt 14 1⟩,
   ⟨.int, "1", ⟨"sum", 2, 10⟩, spanAt 15 1⟩,
   ⟨.word .in_, "in", ⟨"sum", 2, 12⟩, spanAt 17 2⟩,
   ⟨.word .add, "add", ⟨"sum", 2, 15⟩, spanAt 20 3⟩,
   ⟨.reg, "r", ⟨"sum", 2, 19⟩, spanAt 24 2⟩,
   ⟨.var, "i", ⟨"sum", 2, 22⟩, spanAt 27 2⟩,
   ⟨.word .end_, "end", ⟨"sum", 2, 25⟩, spanAt 30 3⟩]

/-- Its program. -/
def sumProgram : Program :=
  .ofSections [] [.forLoop (.use "i") (.literal "3") (.literal "1")
    [.assign .add (.register "r") (.use "i")]]

/-- Its listing. -/
def sumListing : Text :=
  ".data\n.code\n.L1:\n  cmp [i], 3\n  jge .L2\n  add r, [i]\n  add [i], 1\n  jmp .L1\n.L2:\n"

theorem changes_literal_iff_sum :
    (sumSource.lex = .ok sumTokens ∧ (ofTokens sumTokens).result = .ok sumProgram ∧
      ofProgram sumProgram = .ok sumListing) ∧
    (Listing.changes sumListing).Perm (sumProgram.changes.map fun c => (c.1, compiledText c.2)) ∧
      (∀ c ∈ sumProgram.changes, c.2 ∈ sumProgram.operands ∧ c.2.IsBasic) ∧
      ((∀ c ∈ sumProgram.changes, c.2.isLiteral = false) ↔
        ∀ n ∈ sumProgram.counters, n.isLiteral = false) := by
  have lexed : sumSource.lex = .ok sumTokens := lex_of_toOption (by decide +kernel)
  have parsed : (ofTokens sumTokens).result = .ok sumProgram := rfl
  have generated : ofProgram sumProgram = .ok sumListing := rfl
  exact ⟨⟨lexed, parsed, generated⟩, changes_literal_iff lexed parsed generated⟩

/-- A file with a loop that counts a literal. -/
def countSource : Source := .ofText "count" "#code\nfor 1;3;1 in end"

/-- Its tokens. -/
def countTokens : List Token :=
  [⟨.code, "#code", ⟨"count", 1, 1⟩, spanAt 0 5⟩,
   ⟨.word .for_, "for", ⟨"count", 2, 1⟩, spanAt 6 3⟩,
   ⟨.int, "1", ⟨"count", 2, 5⟩, spanAt 10 1⟩,
   ⟨.semicolon, ";", ⟨"count", 2, 6⟩, spanAt 11 1⟩,
   ⟨.int, "3", ⟨"count", 2, 7⟩, spanAt 12 1⟩,
   ⟨.semicolon, ";", ⟨"count", 2, 8⟩, spanAt 13 1⟩,
   ⟨.int, "1", ⟨"count", 2, 9⟩, spanAt 14 1⟩,
   ⟨.word .in_, "in", ⟨"count", 2, 11⟩, spanAt 16 2⟩,
   ⟨.word .end_, "end", ⟨"count", 2, 14⟩, spanAt 19 3⟩]

/-- Its program. -/
def countProgram : Program :=
  .ofSections [] [.forLoop (.literal "1") (.literal "3") (.literal "1") []]

/-- Its listing. -/
def countListing : Text :=
  ".data\n.code\n.L1:\n  cmp 1, 3\n  jge .L2\n  add 1, 1\n  jmp .L1\n.L2:\n"

/-- A loop adds to a literal, in a program without variables and registers. -/
theorem changes_literal :
    (countSource.lex = .ok countTokens ∧ (ofTokens countTokens).result = .ok countProgram ∧
      ofProgram countProgram = .ok countListing) ∧
    Listing.changes countListing = [(Mnemonic.add, ("1" : Text))] ∧
      ¬ ∀ c ∈ Listing.changes countListing, ∃ n ∈ countProgram.operands,
        n.isLiteral = false ∧ compiledText n = c.2 := by
  have lexed : countSource.lex = .ok countTokens := lex_of_toOption (by decide +kernel)
  have changed : Listing.changes countListing = [(Mnemonic.add, ("1" : Text))] := rfl
  refine ⟨⟨lexed, rfl, rfl⟩, changed, fun writable => ?_⟩
  obtain ⟨n, mem, other, -⟩ := writable (.add, "1") (by rw [changed]; exact .head _)
  have literals : countProgram.operands = [.literal "1", .literal "3", .literal "1"] := rfl
  rw [literals] at mem
  simp only [List.mem_cons, List.not_mem_nil, or_false] at mem
  rcases mem with rfl | rfl | rfl <;> cases other

end

end Program

end XtAsm
