import XtAsm.Node.Generator

/-!
# Tracing code generation

The tracing generator writes down every rule in the order in which the rules are applied.  What it
generates shows the nesting of the nodes.
-/

namespace XtAsm.Generator

/-- Actions that write down rules. -/
abbrev Traced := StateM (List Text)

/-- Writes down a rule. -/
def note (entry : Text) : Traced Unit := modify (· ++ [entry])

/-- A rule and its arguments. -/
def entry (name : String) (arguments : List Text) : Text :=
  name ++ "(" ++ Text.join "," arguments ++ ")"

/-- Writes down a rule, which is also what it generates. -/
def simple (name : String) (arguments : List Text) : Traced Text := do
  note (entry name arguments)
  return entry name arguments

/-- What is generated for several children, between braces. -/
def group (children : List (Traced Text)) : Traced Text := do
  let texts ← children.mapM id
  return "\x7b" ++ Text.join ";" texts ++ "\x7d"

/-- The connectives of a condition, between brackets. -/
def operators (ops : List Connective) : Text :=
  "[" ++ Text.join " " (ops.map (·.render)) ++ "]"

/-- The tracing generator. -/
def trace : Generator Traced Text where
  data children := do
    note (entry "data" [])
    return "data" ++ (← group children)
  code children := do
    note (entry "code" [])
    return "code" ++ (← group children)
  label name := simple "label" [name]
  exit value := simple "exit" [value]
  assign op target source := simple op.spelling [target, source]
  leave := simple "break" []
  jump target := simple "jmp" [target]
  enum name members := do
    note (entry "enum" [name])
    let member (v : Variable) : Traced Text :=
      simple (if v.isDeclaration then "decl" else "var") [v.name, v.value]
    return "enum " ++ name ++ (← group (members.map member))
  whileLoop tests ops body := do
    note (entry "while" [operators ops])
    return "while" ++ (← group (tests.map (·.code))) ++ (← group body)
  forLoop counter limit increment body := do
    note (entry "for" [])
    return "for" ++ (← group [counter, limit, increment]) ++ (← group body)
  loop body := do
    note (entry "loop" [])
    return "loop" ++ (← group body)
  choice tests ops thenBody elseBody := do
    note (entry "if" [operators ops])
    return "if" ++ (← group (tests.map (·.code))) ++ (← group thenBody) ++ (← group elseBody)
  compare op lhs rhs := simple "cond" [op.render, lhs, rhs]
  var v := simple (if v.isDeclaration then "decl" else "var") [v.name, v.value]
  operand t := t

end XtAsm.Generator
