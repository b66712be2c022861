import XtAsm.Operator

/-!
# Syntax trees

A program is a tree of nodes.  Reading source text yields trees of a certain shape (declarations in
the data section, statements in bodies, operands below statements), but the type allows any node
wherever a node is expected, since trees also arrive in binary form.
-/

namespace XtAsm

/-- A variable: a declaration with its initial value, or a use.  An uninitialised variable, and
every use, has no value. -/
structure Variable where
  name : Text
  value : Text
  isDeclaration : Bool
  deriving DecidableEq

/-- The instructions that change their first operand. -/
inductive Mnemonic
  | add
  | sub
  | mov
  deriving DecidableEq

/-- The spelling of an instruction. -/
def Mnemonic.spelling : Mnemonic → String
  | .add => "add"
  | .sub => "sub"
  | .mov => "mov"

mutual

/-- A node of a syntax tree. -/
inductive Node
  /-- The data section. -/
  | data (declarations : List Node)
  /-- The code section. -/
  | code (instructions : List Node)
  /-- A jump target. -/
  | label (name : Text)
  /-- The end of the program, with a value. -/
  | exit (value : Node)
  /-- An instruction that changes its first operand. -/
  | assign (op : Mnemonic) (target source : Node)
  /-- The end of the innermost loop. -/
  | leave
  /-- A jump to a label. -/
  | jump (target : Text)
  /-- An enumeration, whose members carry qualified names. -/
  | enum (name : Text) (members : List Variable)
  /-- A loop that runs as long as its conditions hold. -/
  | whileLoop (conditions : List Condition) (connectives : List Connective) (body : List Node)
  /-- A loop that counts its first operand up to the second one in steps of the third. -/
  | forLoop (counter limit increment : Node) (body : List Node)
  /-- A loop without conditions. -/
  | loop (body : List Node)
  /-- A choice between two bodies. -/
  | choice (conditions : List Condition) (connectives : List Connective)
      (thenBody elseBody : List Node)
  /-- A comparison standing on its own. -/
  | condition (c : Condition)
  /-- A variable. -/
  | var (v : Variable)
  /-- A register. -/
  | register (name : Text)
  /-- A literal. -/
  | literal (value : Text)

/-- A comparison of two operands. -/
inductive Condition
  | mk (op : Comparator) (lhs rhs : Node)

end

namespace Condition

/-- The comparison sign. -/
def op : Condition → Comparator
  | .mk op _ _ => op

/-- The left operand. -/
def lhs : Condition → Node
  | .mk _ lhs _ => lhs

/-- The right operand. -/
def rhs : Condition → Node
  | .mk _ _ rhs => rhs

end Condition

namespace Node

/-- The use of a variable. -/
def use (name : Text) : Node := .var ⟨name, [], false⟩

/-- The declaration of a variable. -/
def declaration (name value : Text) : Node := .var ⟨name, value, true⟩

/-- The nested choice of an else branch that consists of nothing else. -/
def elseIf? : List Node → Option Node
  | [.choice conditions connectives thenBody elseBody] =>
    some (.choice conditions connectives thenBody elseBody)
  | _ => none

/-- The name of an enumeration's member without the name of the enumeration. -/
def memberName (enumeration : Text) (member : Variable) : Text :=
  let qualifier := enumeration ++ ("." : Text)
  if qualifier.isPrefixOf member.name then member.name.drop qualifier.length else member.name

end Node

end XtAsm
