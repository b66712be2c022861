import XtAsm.Node.Basic

/-!
# Assembly listings

A listing is a sequence of lines for a machine with two-operand instructions, a comparison, and
conditional jumps.  Operands are texts.
-/

namespace XtAsm.Listing

/-- A jump target: a label of the program, or one made up during code generation. -/
inductive Label
  | named (name : Text)
  | fresh (number : Nat)
  deriving DecidableEq

/-- The spelling of a label. -/
def Label.render : Label → Text
  | .named name => name
  | .fresh number => ".L" ++ Text.ofNat number

/-- A line of a listing. -/
inductive Line
  | dataHead
  | codeHead
  | label (l : Label)
  | exit (value : Text)
  | assign (op : Mnemonic) (target source : Text)
  | jump (target : Label)
  | compare (lhs rhs : Text)
  /-- A jump that is taken if the last comparison came out as stated. -/
  | branch (op : Comparator) (target : Label)
  /-- A named constant. -/
  | constant (name value : Text)
  /-- A memory word without an initial value. -/
  | zero (name : Text)
  /-- A memory word with an initial value. -/
  | word (name value : Text)
  /-- An operand where an instruction is expected. -/
  | bare (operand : Text)
  deriving DecidableEq

/-- The conditional jump for a comparison.  A byte without a meaning is taken for "not less". -/
def jumpMnemonic (op : Comparator) : String :=
  match op.relation? with
  | some .eq => "je"
  | some .ne => "jne"
  | some .lt => "jl"
  | some .le => "jle"
  | some .gt => "jg"
  | some .ge => "jge"
  | none => "jge"

/-- The text of a line.  Everything but section heads, labels and bare operands is indented. -/
def Line.render : Line → Text
  | .dataHead => ".data"
  | .codeHead => ".code"
  | .label l => l.render ++ ":"
  | .exit value => "  exit " ++ value
  | .assign op target source => "  " ++ op.spelling ++ " " ++ target ++ ", " ++ source
  | .jump target => "  jmp " ++ target.render
  | .compare lhs rhs => "  cmp " ++ lhs ++ ", " ++ rhs
  | .branch op target => "  " ++ jumpMnemonic op ++ " " ++ target.render
  | .constant name value => "  .equ " ++ name ++ ", " ++ value
  | .zero name => "  " ++ name ++ ": .zero"
  | .word name value => "  " ++ name ++ ": .word " ++ value
  | .bare operand => operand

/-- The lines of an operand: none if it is empty. -/
def bareLines (operand : Text) : List Line :=
  if operand = [] then [] else [.bare operand]

/-- The text of several lines, with line breaks between them. -/
def render (lines : List Line) : Text := Text.join "\n" (lines.map Line.render)

@[simp] theorem render_nil : render [] = [] := rfl

@[simp] theorem render_singleton (l : Line) : render [l] = l.render := rfl

theorem render_bareLines (operand : Text) : render (bareLines operand) = operand := by
  unfold bareLines
  split
  · next h => simp [h]
  · simp [Line.render]

end XtAsm.Listing
