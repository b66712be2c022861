import XtAsm.Node.Basic

/-!
# Code generators

A code generator has one rule for every sort of node.  The rules of simple nodes are given what
was generated for their operands, in order.  Sections, loops and choices are given the generation
of each child as an action, and decide themselves when and how often to perform it.
-/

namespace XtAsm

/-- A comparison whose code has not been generated yet. -/
structure Test (m : Type → Type) (ρ : Type) where
  op : Comparator
  code : m ρ

/-- One rule for every sort of node; `ρ` is what is generated, and `m` the actions that generate
it. -/
structure Generator (m : Type → Type) (ρ : Type) where
  data : List (m ρ) → m ρ
  code : List (m ρ) → m ρ
  label : Text → m ρ
  exit : ρ → m ρ
  assign : Mnemonic → ρ → ρ → m ρ
  leave : m ρ
  jump : Text → m ρ
  enum : Text → List Variable → m ρ
  whileLoop : List (Test m ρ) → List Connective → List (m ρ) → m ρ
  forLoop : m ρ → m ρ → m ρ → List (m ρ) → m ρ
  loop : List (m ρ) → m ρ
  choice : List (Test m ρ) → List Connective → List (m ρ) → List (m ρ) → m ρ
  compare : Comparator → ρ → ρ → m ρ
  var : Variable → m ρ
  /-- A register or literal, which stands for itself. -/
  operand : Text → ρ

namespace Node

variable {m : Type → Type} {ρ : Type} [Monad m]

mutual

/-- What a code generator makes of a node. -/
def generate (g : Generator m ρ) : Node → m ρ
  | .data declarations => g.data (generateAll g declarations)
  | .code instructions => g.code (generateAll g instructions)
  | .label name => g.label name
  | .exit value => do
    g.exit (← generate g value)
  | .assign op target source => do
    let target ← generate g target
    let source ← generate g source
    g.assign op target source
  | .leave => g.leave
  | .jump target => g.jump target
  | .enum name members => g.enum name members
  | .whileLoop conditions connectives body =>
    g.whileLoop (generateTests g conditions) connectives (generateAll g body)
  | .forLoop counter limit increment body =>
    g.forLoop (generate g counter) (generate g limit) (generate g increment) (generateAll g body)
  | .loop body => g.loop (generateAll g body)
  | .choice conditions connectives thenBody elseBody =>
    g.choice (generateTests g conditions) connectives (generateAll g thenBody)
      (generateAll g elseBody)
  | .condition c => generateCondition g c
  | .var v => g.var v
  | .register name => pure (g.operand name)
  | .literal value => pure (g.operand value)

/-- What a code generator makes of a comparison. -/
def generateCondition (g : Generator m ρ) : Condition → m ρ
  | .mk op lhs rhs => do
    let lhs ← generate g lhs
    let rhs ← generate g rhs
    g.compare op lhs rhs

/-- The generation of each of several nodes. -/
def generateAll (g : Generator m ρ) : List Node → List (m ρ)
  | [] => []
  | n :: ns => generate g n :: generateAll g ns

/-- The generation of each of several comparisons. -/
def generateTests (g : Generator m ρ) : List Condition → List (Test m ρ)
  | [] => []
  | c :: cs => ⟨c.op, generateCondition g c⟩ :: generateTests g cs

end

end Node

namespace Generator

/-- The generator without output; operands still stand for themselves. -/
def silent : Generator Id Text where
  data _ := []
  code _ := []
  label _ := []
  exit _ := []
  assign _ _ _ := []
  leave := []
  jump _ := []
  enum _ _ := []
  whileLoop _ _ _ := []
  forLoop _ _ _ _ := []
  loop _ := []
  choice _ _ _ _ := []
  compare _ _ _ := []
  var _ := []
  operand t := t

end Generator

end XtAsm
