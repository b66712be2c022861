import XtAsm.Program
import XtAsm.Proofs.Token.Lexeme

/-!
# The meaning of structured programs

Variables and registers hold integers.  A statement changes them, ends the program with a value, or
leaves the innermost loop.  Loops may run forever: execution is given fuel, which bounds the number
of rounds of every loop, and has no outcome when the fuel is used up.

* `Cell`, `Store`: places and their contents;
* `Node.value`, `Node.assigned`, `Node.conditionsHold`: operands, assignments and conditions;
* `Node.exec`, `Node.execAll`: statements;
* `Program.exec`: whole programs;
* `Node.IsStructured`: the statements that have such a meaning.

Literals are interpreted by an arbitrary function.  Labels and jumps have no structured meaning;
here, as all nodes that are no statements, they do nothing.
-/

namespace XtAsm

/-- A place that holds an integer. -/
inductive Cell
  | var (name : Text)
  | register (name : Text)
  deriving DecidableEq

/-- What all places hold. -/
def Store := Cell → Int

/-- The store with a new value in one place. -/
def Store.set (σ : Store) (c : Cell) (value : Int) : Store := fun d => if d = c then value else σ d

/-- How a program ends: with a value, or after its last statement. -/
inductive Ending
  | exited (value : Int) (σ : Store)
  | finished (σ : Store)

/-- The integers are in the relation. -/
def Relation.holds : Relation → Int → Int → Bool
  | .eq, a, b => a = b
  | .ne, a, b => a ≠ b
  | .gt, a, b => a > b
  | .ge, a, b => a ≥ b
  | .lt, a, b => a < b
  | .le, a, b => a ≤ b

/-- The truth of two connected conditions. -/
def Connective.join (op : Connective) (a b : Bool) : Bool :=
  match op.junction? with
  | some .and_ => a && b
  | _ => a || b

/-- The new value of the first operand, given the old values of both. -/
def Mnemonic.apply : Mnemonic → Int → Int → Int
  | .add, a, b => a + b
  | .sub, a, b => a - b
  | .mov, _, b => b

/-- What a statement does: it goes on, leaves the innermost loop, or ends the program. -/
inductive Outcome
  | next (σ : Store)
  | left (σ : Store)
  | exited (value : Int) (σ : Store)

namespace Node

section

variable (literal : Text → Int)

/-- The place that an operand stands for, if it stands for one. -/
def cell? : Node → Option Cell
  | .var v => some (.var v.name)
  | .register name => some (.register name)
  | _ => none

/-- The value of an operand. -/
def value (σ : Store) : Node → Int
  | .var v => σ (.var v.name)
  | .register name => σ (.register name)
  | .literal t => literal t
  | _ => 0

/-- The store after an instruction that changes its first operand. -/
def assigned (op : Mnemonic) (target source : Node) (σ : Store) : Store :=
  match target.cell? with
  | some c => σ.set c (op.apply (σ c) (source.value literal σ))
  | none => σ

/-- The condition holds. -/
def conditionHolds (σ : Store) : Condition → Bool
  | .mk op lhs rhs =>
    match op.relation? with
    | some r => r.holds (lhs.value literal σ) (rhs.value literal σ)
    | none => false

/-- The truth of conditions that are connected, one after the other, with what is before them. -/
def connected (test : Condition → Bool) (before : Bool) : List Connective → List Condition → Bool
  | op :: ops, c :: cs => connected test (op.join before (test c)) ops cs
  | _, _ => before

/-- The conditions hold; connectives associate to the left. -/
def conditionsHold (σ : Store) : List Condition → List Connective → Bool
  | [], _ => true
  | c :: cs, ops => connected (conditionHolds literal σ) (conditionHolds literal σ c) ops cs

/-- Rounds of a loop until one leaves it, at most as many as the fuel allows. -/
def rounds (round : Store → Option Outcome) : Nat → Store → Option Outcome
  | 0, _ => none
  | fuel + 1, σ =>
    match round σ with
    | some (.next σ) => rounds round fuel σ
    | some (.left σ) => some (.next σ)
    | some (.exited value σ) => some (.exited value σ)
    | none => none

/-- A round of a loop whose counter stays below its limit. -/
def countedRound (counter limit increment : Node) (body : Store → Option Outcome) (σ : Store) :
    Option Outcome :=
  if counter.value literal σ < limit.value literal σ then
    match body σ with
    | some (.next σ) => some (.next (assigned literal .add counter increment σ))
    | other => other
  else some (.left σ)

mutual

/-- What a statement does, if its loops end before the fuel does. -/
def exec (fuel : Nat) : Node → Store → Option Outcome
  | .exit value, σ => some (.exited (value.value literal σ) σ)
  | .assign op target source, σ => some (.next (assigned literal op target source σ))
  | .leave, σ => some (.left σ)
  | .whileLoop conditions connectives body, σ =>
    rounds (fun σ =>
      if conditionsHold literal σ conditions connectives then execAll fuel body σ
      else some (.left σ)) fuel σ
  | .forLoop counter limit increment body, σ =>
    rounds (countedRound literal counter limit increment (execAll fuel body)) fuel σ
  | .loop body, σ => rounds (execAll fuel body) fuel σ
  | .choice conditions connectives thenBody elseBody, σ =>
    if conditionsHold literal σ conditions connectives then execAll fuel thenBody σ
    else execAll fuel elseBody σ
  | _, σ => some (.next σ)

/-- What statements do one after the other. -/
def execAll (fuel : Nat) : List Node → Store → Option Outcome
  | [], σ => some (.next σ)
  | n :: ns, σ =>
    match exec fuel n σ with
    | some (.next σ) => execAll fuel ns σ
    | other => other

end

end

/-! ### Structured statements -/

/-- A letter followed by letters, digits and underscores. -/
def IsPlainRegister (name : Text) : Prop :=
  ∃ c cs, name = Text.ofChars (c :: cs) ∧ Lexer.isLetter c = true ∧
    ∀ d ∈ cs, Lexer.isLetter d = true ∨ d.isDigit = true ∨ d = '_'

/-- If the node is a register, it has a plain name. -/
def HasPlainName (n : Node) : Prop := ∀ name, n = .register name → IsPlainRegister name

/-- A statement without labels and jumps, in which every `break` lies in a loop, every counter is a
variable or a register, and every register has a plain name.  The flag tells whether the statement
itself lies in a loop. -/
inductive IsStructured : Bool → Node → Prop
  | exit {inLoop : Bool} {value : Node} (h : HasPlainName value) : IsStructured inLoop (.exit value)
  | assign {inLoop : Bool} {op : Mnemonic} {target source : Node} (ht : HasPlainName target)
      (hs : HasPlainName source) : IsStructured inLoop (.assign op target source)
  | leave : IsStructured true .leave
  | loop {inLoop : Bool} {body : List Node} (hb : ∀ n ∈ body, IsStructured true n) :
      IsStructured inLoop (.loop body)
  | whileLoop {inLoop : Bool} {cs : List Condition} {ops : List Connective} {body : List Node}
      (hc : ∀ c ∈ cs, HasPlainName c.lhs ∧ HasPlainName c.rhs)
      (hb : ∀ n ∈ body, IsStructured true n) : IsStructured inLoop (.whileLoop cs ops body)
  | forLoop {inLoop : Bool} {counter limit increment : Node} {body : List Node}
      (assignable : counter.cell?.isSome = true) (hc : HasPlainName counter)
      (hl : HasPlainName limit) (hi : HasPlainName increment)
      (hb : ∀ n ∈ body, IsStructured true n) :
      IsStructured inLoop (.forLoop counter limit increment body)
  | choice {inLoop : Bool} {cs : List Condition} {ops : List Connective}
      {thenBody elseBody : List Node} (hc : ∀ c ∈ cs, HasPlainName c.lhs ∧ HasPlainName c.rhs)
      (ht : ∀ n ∈ thenBody, IsStructured inLoop n) (he : ∀ n ∈ elseBody, IsStructured inLoop n) :
      IsStructured inLoop (.choice cs ops thenBody elseBody)

end Node

/-- How an outcome ends the program after its last statement. -/
def Outcome.ending : Outcome → Ending
  | .next σ => .finished σ
  | .left σ => .finished σ
  | .exited value σ => .exited value σ

/-- How the code of a program ends, if it does so before the fuel is used up. -/
def Program.exec (literal : Text → Int) (fuel : Nat) (p : Program) (σ : Store) : Option Ending :=
  (Node.execAll literal fuel p.code σ).map Outcome.ending

end XtAsm
