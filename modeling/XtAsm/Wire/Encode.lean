import XtAsm.Program

/-!
# The binary form of programs

A program is written as five identifying bytes, a version byte and its two sections.  Each node is
a tag byte followed by its fields.  Texts and lists are preceded by their length in base 128;
truth values and operators take one byte each.
-/

namespace XtAsm.Wire

/-- The bytes that open every binary program. -/
def identifier : Text := "XTAST"

/-- The version of the format. -/
def version : UInt8 := 2

/-- A natural number in base 128, least digit first; every byte but the last has its high bit
set. -/
def varint (n : Nat) : Text :=
  if n < 128 then [UInt8.ofNat n] else UInt8.ofNat (n % 128 + 128) :: varint (n / 128)
termination_by n
decreasing_by omega

/-- A text after its length. -/
def text (t : Text) : Text := varint t.length ++ t

/-- A truth value. -/
def bool (b : Bool) : Text := [if b then 1 else 0]

/-- Operators after their number. -/
def connectives (ops : List Connective) : Text := varint ops.length ++ ops.map (·.code)

/-- A variable with its tag. -/
def variableNode (v : Variable) : Text :=
  16 :: (text v.name ++ text v.value ++ bool v.isDeclaration)

/-- The tag of an instruction. -/
def mnemonicTag : Mnemonic → UInt8
  | .add => 5
  | .sub => 6
  | .mov => 7

mutual

/-- A node with its tag. -/
def node : Node → Text
  | .data declarations => 1 :: (varint declarations.length ++ nodes declarations)
  | .code instructions => 2 :: (varint instructions.length ++ nodes instructions)
  | .label name => 3 :: text name
  | .exit value => 4 :: node value
  | .assign op target source => mnemonicTag op :: (node target ++ node source)
  | .leave => [8]
  | .jump target => 9 :: text target
  | .enum name members =>
    10 :: (text name ++ varint members.length ++ members.flatMap variableNode)
  | .whileLoop conds ops body =>
    11 :: (varint conds.length ++ conditions conds ++ connectives ops ++
      varint body.length ++ nodes body)
  | .forLoop counter limit increment body =>
    12 :: (node counter ++ node limit ++ node increment ++ varint body.length ++ nodes body)
  | .loop body => 13 :: (varint body.length ++ nodes body)
  | .choice conds ops thenBody elseBody =>
    14 :: (varint conds.length ++ conditions conds ++ connectives ops ++
      varint thenBody.length ++ nodes thenBody ++ varint elseBody.length ++ nodes elseBody)
  | .condition c => condition c
  | .var v => variableNode v
  | .register name => 17 :: (text name ++ bool true)
  | .literal value => 17 :: (text value ++ bool false)

/-- A comparison with its tag. -/
def condition : Condition → Text
  | .mk op lhs rhs => 15 :: op.code :: (node lhs ++ node rhs)

/-- Several nodes. -/
def nodes : List Node → Text
  | [] => []
  | n :: ns => node n ++ nodes ns

/-- Several comparisons. -/
def conditions : List Condition → Text
  | [] => []
  | c :: cs => condition c ++ conditions cs

end

@[simp] theorem nodes_nil : nodes [] = [] := by rw [nodes]

@[simp] theorem nodes_cons (n : Node) (ns : List Node) : nodes (n :: ns) = node n ++ nodes ns := by
  rw [nodes]

@[simp] theorem conditions_nil : conditions [] = [] := by rw [conditions]

@[simp] theorem conditions_cons (c : Condition) (cs : List Condition) :
    conditions (c :: cs) = condition c ++ conditions cs := by
  rw [conditions]

/-- The binary form of a program.  An absent section is written as an empty one. -/
def encode (p : Program) : Text :=
  identifier ++ version :: (node (.data p.data) ++ node (.code p.code))

end XtAsm.Wire
