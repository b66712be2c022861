import XtAsm.Proofs.Node.Meaning
import XtAsm.Source.File

/-!
# The meaning of listings

A listing is executed line by line, from the line after the head of its code section on.

* `Operand`, `Instruction`: what a line tells the machine to do;
* `readOperand`, `readLine`, `load`: reading lines;
* `State`, `step`, `run`: executing them.

The machine stops with an ending, or gets stuck: at a line that it cannot read, at a jump to a
missing label, at an assignment to a literal, or at a conditional jump without a comparison before.
-/

namespace XtAsm.Machine

/-- An operand of an instruction. -/
inductive Operand
  | cell (c : Cell)
  | literal (t : Text)
  deriving DecidableEq

/-- An instruction of the machine; a label marks a place. -/
inductive Instruction
  | label (name : Text)
  | exit (value : Operand)
  | assign (op : Mnemonic) (target source : Operand)
  | jump (target : Text)
  | compare (lhs rhs : Operand)
  | branch (r : Relation) (target : Text)
  deriving DecidableEq

/-! ### Reading lines -/

/-- A text in brackets is a variable, one that starts with a digit is a literal, and every other
one is a register. -/
def readOperand (t : Text) : Operand :=
  match t with
  | [] => .cell (.register t)
  | b :: rest =>
    if b = 91 ∧ rest.getLast? = some 93 then .cell (.var rest.dropLast)
    else if 48 ≤ b ∧ b ≤ 57 then .literal t
    else .cell (.register t)

/-- Two operands with a comma and a space between them. -/
def readPair (t : Text) : Option (Operand × Operand) :=
  let first := t.takeWhile (· ≠ 44)
  match t.drop first.length with
  | 44 :: 32 :: second => some (readOperand first, readOperand second)
  | _ => none

/-- The instructions that change their first operand. -/
def mnemonics : List (Text × Mnemonic) := [("add", .add), ("sub", .sub), ("mov", .mov)]

/-- The conditional jumps. -/
def branches : List (Text × Relation) :=
  [("je", .eq), ("jne", .ne), ("jl", .lt), ("jle", .le), ("jg", .gt), ("jge", .ge)]

/-- The instruction with the given name and arguments. -/
def readInstruction (word arguments : Text) : Option Instruction :=
  if word = "exit" then some (.exit (readOperand arguments))
  else if word = "jmp" then some (.jump arguments)
  else if word = "cmp" then (readPair arguments).map fun (lhs, rhs) => .compare lhs rhs
  else match mnemonics.lookup word with
    | some op => (readPair arguments).map fun (target, source) => .assign op target source
    | none => (branches.lookup word).map fun r => .branch r arguments

/-- What a line says: an indented instruction, or a label with a colon after it. -/
def readLine (t : Text) : Option Instruction :=
  match t with
  | 32 :: 32 :: rest =>
    let word := rest.takeWhile (· ≠ 32)
    readInstruction word (rest.drop (word.length + 1))
  | _ => if t.getLast? = some 58 then some (.label t.dropLast) else none

/-- The lines after the head of the code section. -/
def codeLines (listing : Text) : List Text :=
  ((Source.cutLines listing).dropWhile (· ≠ (".code" : Text))).drop 1

/-- What the lines of the code section say. -/
def load (listing : Text) : List (Option Instruction) := (codeLines listing).map readLine

/-! ### Execution -/

/-- The next line, what all places hold, and the two integers compared last. -/
structure State where
  pc : Nat
  store : Store
  compared? : Option (Int × Int)

/-- The state before the first line. -/
def State.start (σ : Store) : State := ⟨0, σ, none⟩

/-- Why the machine stops. -/
inductive Result
  | ended (e : Ending)
  | stuck

section

variable (literal : Text → Int) (code : List (Option Instruction))

/-- The value of an operand. -/
def Operand.value (σ : Store) : Operand → Int
  | .cell c => σ c
  | .literal t => literal t

/-- The place of a label: the first line that consists of it. -/
def position? (name : Text) : Option Nat := code.findIdx? fun i => i = some (.label name)

/-- Goes on at a label. -/
def goTo (s : State) (name : Text) : Except Result State :=
  match position? code name with
  | some pc => .ok { s with pc := pc }
  | none => .error .stuck

/-- Executes an instruction. -/
def execute (s : State) : Instruction → Except Result State
  | .label _ => .ok { s with pc := s.pc + 1 }
  | .exit value => .error (.ended (.exited (value.value literal s.store) s.store))
  | .assign op (.cell c) source =>
    .ok ⟨s.pc + 1, s.store.set c (op.apply (s.store c) (source.value literal s.store)), s.compared?⟩
  | .assign _ (.literal _) _ => .error .stuck
  | .jump target => goTo code s target
  | .compare lhs rhs =>
    .ok ⟨s.pc + 1, s.store, some (lhs.value literal s.store, rhs.value literal s.store)⟩
  | .branch r target =>
    match s.compared? with
    | some (a, b) => if r.holds a b then goTo code s target else .ok { s with pc := s.pc + 1 }
    | none => .error .stuck

/-- Executes the next line, or stops.  After the last line the program has finished. -/
def step (s : State) : Except Result State :=
  match code[s.pc]? with
  | some (some i) => execute literal code s i
  | some none => .error .stuck
  | none => .error (.ended (.finished s.store))

/-- The result of executing lines, if the machine stops within the given number of steps. -/
def run : Nat → State → Option Result
  | 0, _ => none
  | n + 1, s =>
    match step literal code s with
    | .ok next => run n next
    | .error r => some r

end

end XtAsm.Machine
