import XtAsm.Fault
import XtAsm.Node.Basic

/-!
# Printing syntax trees

Every node has a source form.  Statements inside a body stand on lines of their own, indented by
two spaces.  A list of conditions that has more members than its connectives can join has no
source form.
-/

namespace XtAsm

namespace Node

/-- A line break, and the indentation of the line after it. -/
def indentation : Text := "\n  "

/-- A text with two spaces after each of its line breaks. -/
def indent (t : Text) : Text := t.flatMap fun b => if b = Text.newline then indentation else [b]

@[simp] theorem indent_nil : indent [] = [] := rfl

@[simp] theorem indent_append (s t : Text) : indent (s ++ t) = indent s ++ indent t := by
  simp [indent]

/-- Every line of the given statements, each after a line break and two spaces. -/
def indented (statements : List Text) : Text := statements.flatMap fun s => indentation ++ indent s

/-- Each text after a line break. -/
def onLines (texts : List Text) : Text := texts.flatMap fun t => "\n" ++ t

/-- Conditions with the connectives between them. -/
def joinConditions : List Text → List Connective → Except Fault Text
  | [], _ => .ok []
  | [c], _ => .ok c
  | _ :: _ :: _, [] => .error .outOfRange
  | c :: cs, op :: ops => do
    let rest ← joinConditions cs ops
    return c ++ " " ++ op.render ++ " " ++ rest

/-- The source form of a variable. -/
def renderVariable (v : Variable) : Text :=
  if !v.isDeclaration then "." ++ v.name
  else if v.value = [] then "." ++ v.name ++ " ?"
  else "." ++ v.name ++ " " ++ v.value

/-- A member of an enumeration with its value, after a space. -/
def renderMember (enumeration : Text) (member : Variable) : Text :=
  " " ++ memberName enumeration member ++ " " ++ member.value

/-- The source form of an enumeration. -/
def renderEnum (name : Text) (members : List Variable) : Text :=
  "enum " ++ name ++ members.flatMap (renderMember name) ++ " end"

mutual

/-- The source form of a node. -/
def render : Node → Except Fault Text
  | .data declarations => do
    return "#data" ++ onLines (← renderAll declarations)
  | .code instructions => do
    return "#code" ++ onLines (← renderAll instructions)
  | .label name => .ok (":" ++ name)
  | .exit value => do
    return "exit " ++ (← value.render)
  | .assign op target source => do
    return op.spelling ++ " " ++ (← target.render) ++ " " ++ (← source.render)
  | .leave => .ok "break"
  | .jump target => .ok ("jmp :" ++ target)
  | .enum name members => .ok (renderEnum name members)
  | .whileLoop conditions connectives body => do
    let header ← joinConditions (← renderConditions conditions) connectives
    return "while " ++ header ++ " in" ++ indented (← renderAll body) ++ "\nend"
  | .forLoop counter limit increment body => do
    let header := "for " ++ (← counter.render) ++ ";" ++ (← limit.render) ++ ";" ++
      (← increment.render) ++ " in"
    return header ++ indented (← renderAll body) ++ "\nend"
  | .loop body => do
    return "loop" ++ indented (← renderAll body) ++ "\nend"
  | .choice conditions connectives thenBody elseBody => do
    let header ← joinConditions (← renderConditions conditions) connectives
    let thenPart := "if " ++ header ++ " in" ++ indented (← renderAll thenBody)
    let elseTexts ← renderAll elseBody
    match elseIf? elseBody with
    -- the nested choice brings the `end` of both
    | some _ => return thenPart ++ "\nelse " ++ elseTexts.flatten
    | none =>
      let elsePart : Text := if elseBody.isEmpty then [] else "\nelse" ++ indented elseTexts
      return thenPart ++ elsePart ++ "\nend"
  | .condition c => renderCondition c
  | .var v => .ok (renderVariable v)
  | .register name => .ok ("$" ++ name)
  | .literal value => .ok value

/-- The source form of a comparison. -/
def renderCondition : Condition → Except Fault Text
  | .mk op lhs rhs => do
    return (← lhs.render) ++ " " ++ op.render ++ " " ++ (← rhs.render)

/-- The source forms of several nodes. -/
def renderAll : List Node → Except Fault (List Text)
  | [] => .ok []
  | n :: ns => do
    return (← n.render) :: (← renderAll ns)

/-- The source forms of several comparisons. -/
def renderConditions : List Condition → Except Fault (List Text)
  | [] => .ok []
  | c :: cs => do
    return (← renderCondition c) :: (← renderConditions cs)

end

end Node

end XtAsm
