import XtAsm.Parser.Step
import XtAsm.Proofs.Stateful.Action

/-!
# A parser by recursive descent

A parser that is used for one sequence of tokens after another keeps its place in the tokens at
hand.  It has one procedure for every phrase of the grammar.  A token that it takes has to be there.
Every procedure that goes back to itself reads a token on the way, so a bound above the number of
tokens is enough for all of them.

* `Registers`, `Parse`: the state of the parser, and its procedures;
* `demand`: the next token, which has to be there and has to fit;
* `parseStatement`, `parseSections`, `parse`: statements, programs, and the parser as a whole;
* `between`: the registers at a place between the tokens, and what the tokens are to them.
-/

namespace XtAsm.Parser

/-- The tokens at hand, the place of the next one, and all reports so far. -/
structure Registers where
  tokens : List Token
  cursor : Nat
  reports : List Report

/-- A procedure of the parser, which may find a defect. -/
abbrev Parse : Type → Type := Attempt ParseError Registers

/-! ### Tokens -/

/-- The next token, if there is one. -/
def peek : Parse (Option Token) := do
  let p ← get
  if p.cursor < p.tokens.length then
    let t ← element p.tokens p.cursor
    return some t
  else return none

/-- The next token, if there is one, which is then read. -/
def advance : Parse (Option Token) := do
  let p ← get
  if p.tokens.length ≤ p.cursor then return none
  else
    set { p with cursor := p.cursor + 1 }
    let t ← element p.tokens ((p.cursor + 1 : Nat) - 1)
    return some t

/-- A report. -/
def report (r : Report) : Parse Unit := modify fun p => { p with reports := p.reports ++ [r] }

/-- The next token, which is read.  It has to be there, and it has to fit. -/
def demand {α : Type} (missing : ParseError) (judge : Token → Except ParseError α) : Parse α := do
  let next ← advance
  if next.isNone then throw missing
  let t ← present next
  judge t

/-! ### Operands and conditions -/

/-- An operand after the given token. -/
def parseOperand (previous : Token) (slot : Slot) : Parse Operand :=
  demand (.atToken previous (.missingOperand slot)) (operandAt slot)

/-- A token, which has to be of the given kind. -/
def kindAt (kind : Kind) (misfit : Text → ParseFault) (t : Token) : Except ParseError Token :=
  if t.kind = kind then .ok t else .error (.atToken t (misfit t.text))

/-- A token of the given kind after the given one. -/
def expect (previous : Token) (kind : Kind) (missing : ParseFault) (misfit : Text → ParseFault) :
    Parse Token := demand (.atToken previous missing) (kindAt kind misfit)

/-- The comparison sign that a token is. -/
def comparisonAt (t : Token) : Except ParseError (Relation × Token) :=
  match t.kind with
  | .compare op => .ok (op, t)
  | _ => .error (.atToken t (.invalidComparison t.text))

/-- The right operand of a condition; two literals cannot be compared. -/
def rightAt (left : Operand) (t : Token) : Except ParseError Operand := do
  let right ← operandAt .conditionRight t
  if left.token.kind = .int ∧ t.kind = .int then throw ⟨.twoLiterals, left.token, t⟩
  return right

/-- A condition after the given token, and the last token that belongs to it. -/
def parseCondition (previous : Token) : Parse (Condition × Token) := do
  let left ← parseOperand previous .conditionLeft
  let (op, sign) ← demand (.atToken left.token .missingComparison) comparisonAt
  let right ← demand (.atToken sign (.missingOperand .conditionRight)) (rightAt left)
  return (.mk (.ofRelation op) left.node right.node, right.token)

/-- What follows a condition: a connective, or nothing if it is the last one. -/
def connectiveAt (keyword t : Token) : Except ParseError (Option Junction × Token) :=
  match t.kind with
  | .connect j => .ok (some j, t)
  | .word .in_ => .ok (none, t)
  | _ => .error (.atToken t (.invalidConnective keyword.text t.text))

/-- All further conditions of a head, up to its `in`. -/
def parseConditions : Nat → Token → Chain → Token → Parse Chain
  | 0, _, _, _ => exhausted
  | n + 1, keyword, chain, previous => do
    let (c, last) ← parseCondition previous
    let (j?, t) ← demand (.atToken last (.missingIn keyword.text)) (connectiveAt keyword)
    match j? with
    | some j =>
      parseConditions n keyword ⟨chain.conditions ++ [c], chain.connectives ++ [.ofJunction j]⟩ t
    | none => return ⟨chain.conditions ++ [c], chain.connectives⟩

/-! ### Statements -/

/-- An exit after its keyword. -/
def parseExit (keyword : Token) : Parse Node := do
  let value ← parseOperand keyword .exitValue
  return .exit value.node

/-- An instruction with two operands after its keyword. -/
def parseAssign (op : Mnemonic) (keyword : Token) : Parse Node := do
  let target ← parseOperand keyword (.target op keyword.text)
  let source ← parseOperand target.token (.source op keyword.text)
  return .assign op target.node source.node

/-- A jump after its keyword. -/
def parseJump (keyword : Token) : Parse Node := do
  let target ← expect keyword .label .missingLabel .invalidLabel
  return .jump target.text

mutual

/-- A statement, given its first token. -/
def parseStatement (n : Nat) (t : Token) : Parse Node :=
  match t.kind with
  | .label => return .label t.text
  | .word .while_ => parseWhile n t
  | .word .for_ => parseFor n t
  | .word .loop => parseLoop n t
  | .word .if_ => parseChoice n t
  | .word .exit => parseExit t
  | .word .add => parseAssign .add t
  | .word .sub => parseAssign .sub t
  | .word .mov => parseAssign .mov t
  | .word .jmp => parseJump t
  | .word .break_ => return .leave
  | _ => throw (.atToken t (.notAnInstruction t.text))
termination_by (n, 2)

/-- All further statements of a block, and the token that ends it. -/
def parseBlock (n : Nat) (keyword : Token) (ends : List Kind) (body : List Node) :
    Parse (List Node × Token) :=
  match n with
  | 0 => exhausted
  | n + 1 => do
    let t ← demand (.atToken keyword (.missingEnd keyword.text)) .ok
    if t.kind ∈ ends then return (body, t)
    else
      let s ← parseStatement n t
      parseBlock n keyword ends (body ++ [s])
termination_by (n, 0)

/-- A loop with conditions after its keyword. -/
def parseWhile (n : Nat) (keyword : Token) : Parse Node := do
  let chain ← parseConditions n keyword ⟨[], []⟩ keyword
  let (body, _) ← parseBlock n keyword [.word .end_] []
  return .whileLoop chain.conditions chain.connectives body
termination_by (n, 1)

/-- A counting loop after its keyword. -/
def parseFor (n : Nat) (keyword : Token) : Parse Node := do
  let counter ← parseOperand keyword .rangeStart
  let first ← expect counter.token .semicolon .missingSemicolon .invalidSemicolon
  let limit ← parseOperand first .rangeEnd
  let second ← expect limit.token .semicolon .missingSemicolon .invalidSemicolon
  let increment ← parseOperand second .increment
  let _ ← expect increment.token (.word .in_) .missingRangeIn .invalidRangeIn
  let (body, _) ← parseBlock n keyword [.word .end_] []
  return .forLoop counter.node limit.node increment.node body
termination_by (n, 1)

/-- A loop without conditions after its keyword. -/
def parseLoop (n : Nat) (keyword : Token) : Parse Node := do
  let (body, _) ← parseBlock n keyword [.word .end_] []
  return .loop body
termination_by (n, 1)

/-- A choice after its keyword.  A choice right after `else` ends together with the one before. -/
def parseChoice (n : Nat) (keyword : Token) : Parse Node :=
  match n with
  | 0 => exhausted
  | n + 1 => do
    let chain ← parseConditions (n + 1) keyword ⟨[], []⟩ keyword
    let (thenBody, ended) ← parseBlock (n + 1) keyword [.word .else_, .word .end_] []
    if ended.kind = .word .end_ then
      return .choice chain.conditions chain.connectives thenBody []
    else if (← peek).any (fun t => t.kind = .word .if_) then
      let t ← present (← advance)
      let nested ← parseChoice n t
      return .choice chain.conditions chain.connectives thenBody [nested]
    else
      let (elseBody, _) ← parseBlock (n + 1) ended [.word .end_] []
      return .choice chain.conditions chain.connectives thenBody elseBody
termination_by (n, 1)

end

/-! ### Sections -/

/-- The value of a variable. -/
def valueAt (name t : Token) : Except ParseError Node :=
  match t.kind with
  | .int => .ok (.declaration name.text t.text)
  | .query => .ok (.declaration name.text [])
  | _ => .error (.atToken t (.invalidValue name.text t.text))

/-- A variable after its name. -/
def parseVariable (name : Token) : Parse Node :=
  demand (.atToken name (.missingValue name.text)) (valueAt name)

/-- A member of an enumeration, or nothing at its end. -/
def memberAt (name t : Token) : Except ParseError (Option Token) :=
  match t.kind with
  | .word .end_ => .ok none
  | .var | .name => .ok (some t)
  | _ => .error (.atToken t (.invalidMember name.text t.text))

/-- The value of a member, which stands there or is the next one. -/
def parseIndex (member : Token) (next : Int) : Parse Int := do
  if (← peek).any (fun t => t.kind = .int) then
    let t ← present (← advance)
    match Text.readInt t.text with
    | .ok value => return value
    | .error _ => throw (.atToken t (.invalidIndex member.text t.text))
  else return next

/-- All further members of an enumeration. -/
def parseMembers : Nat → Token → Token → List Variable → Int → Parse (List Variable)
  | 0, _, _, _, _ => exhausted
  | n + 1, keyword, name, members, next => do
    match ← demand (.atToken keyword (.missingEnumEnd name.text)) (memberAt name) with
    | none => return members
    | some member =>
      let value ← parseIndex member next
      parseMembers n keyword name (members ++ [memberVariable name member value])
        (Text.wrap64 (value + 1))

/-- An enumeration after its keyword. -/
def parseEnum (n : Nat) (keyword : Token) : Parse Node := do
  let name ← expect keyword .name .missingEnumName .invalidEnumName
  let members ← parseMembers n keyword name [] 0
  return .enum name.text members

/-- All further declarations of a data section. -/
def parseData : Nat → Token → List Node → Parse (List Node)
  | 0, _, _ => exhausted
  | n + 1, head, declarations => do
    if (← peek).isSome then
      let t ← present (← peek)
      match t.kind with
      | .var =>
        let _ ← advance
        let d ← parseVariable t
        parseData n head (declarations ++ [d])
      | .word .enum =>
        let _ ← advance
        let d ← parseEnum n t
        parseData n head (declarations ++ [d])
      | _ =>
        report (State.sectionReport "#data" declarations.length "declarations" head)
        return declarations
    else
      report (State.sectionReport "#data" declarations.length "declarations" head)
      return declarations

/-- All further statements of a code section. -/
def parseCode : Nat → Token → List Node → Parse (List Node)
  | 0, _, _ => exhausted
  | n + 1, head, statements => do
    if (← peek).any (fun t => t.kind ≠ .data) then
      let t ← present (← advance)
      let s ← parseStatement n t
      parseCode n head (statements ++ [s])
    else
      report (State.sectionReport "#code" statements.length "instructions" head)
      return statements

/-- All further sections of a program. -/
def parseSections : Nat → Option (List Node) → Option (List Node) → Parse Program
  | 0, _, _ => exhausted
  | n + 1, data?, code? => do
    if (← peek).isSome then
      let t ← present (← advance)
      match t.kind with
      | .data =>
        if data?.isSome then throw (.atToken t .duplicateData)
        let data ← parseData n t []
        parseSections n (some data) code?
      | .code =>
        if code?.isSome then throw (.atToken t .duplicateCode)
        let code ← parseCode n t []
        parseSections n data? (some code)
      | _ => throw (.atToken t (.notASection t.text))
    else return .ofSections (data?.getD []) (code?.getD [])

/-- The program of some tokens.  Nothing of what the registers held before is used, but for the
reports; the tokens are released afterwards. -/
def parse (tokens : List Token) : Action Registers (Except ParseError Program) := do
  modify fun p => { p with tokens, cursor := 0 }
  let result ← (parseSections (tokens.length + 1) none none).run
  modify fun p => { p with tokens := [] }
  return result

/-! ### Places -/

/-- The registers at the place between two sequences of tokens. -/
def between (before rest : List Token) (reports : List Report) : Registers :=
  ⟨before ++ rest, before.length, reports⟩

section Tokens

variable (before rest : List Token) (t : Token) (reports : List Report)

theorem yields_peek :
    Yields peek (between before rest reports) (.ok rest.head?) (between before rest reports) := by
  refine (yields_get _).bind ?_
  cases rest with
  | nil =>
    rw [if_neg (by simp [between])]
    exact yields_pure _ _
  | cons t rest =>
    rw [if_pos (by simp [between])]
    exact (yields_lift (element_append before rest t rfl) _).bind (yields_pure _ _)

theorem yields_advance_nil :
    Yields advance (between before [] reports) (.ok none) (between before [] reports) := by
  refine (yields_get _).bind ?_
  rw [if_pos (by simp [between])]
  exact yields_pure _ _

theorem yields_advance_cons :
    Yields advance (between before (t :: rest) reports) (.ok (some t))
      (between (before ++ [t]) rest reports) := by
  refine (yields_get _).bind ?_
  rw [if_neg (by simp [between])]
  refine (yields_set (by simp [between]) _).bind
    ((yields_lift (element_append before rest t ?_) _).bind (yields_pure _ _))
  show ((before.length + 1 : Nat) : Int) - 1 = before.length
  omega

theorem yields_demand_nil {α : Type} (missing : ParseError) (judge : Token → Except ParseError α) :
    Yields (demand missing judge) (between before [] reports) (.error missing)
      (between before [] reports) :=
  (yields_advance_nil before reports).bind ((yields_throw missing _).bind_error _)

theorem yields_demand_cons {α : Type} (missing : ParseError)
    (judge : Token → Except ParseError α) :
    Yields (demand missing judge) (between before (t :: rest) reports) (judge t)
      (between (before ++ [t]) rest reports) :=
  (yields_advance_cons before rest t reports).bind
    ((yields_pure _ _).bind ((yields_lift rfl _).bind (yields_judgement _ _)))

/-- A demand that is met reads exactly one token. -/
theorem length_of_yields_demand {α : Type} {missing : ParseError}
    {judge : Token → Except ParseError α} {before before' rest rest' : List Token}
    {reports reports' : List Report} {a : α}
    (h : Yields (demand missing judge) (between before rest reports) (.ok a)
      (between before' rest' reports')) : before'.length = before.length + 1 := by
  cases rest with
  | nil => cases (h.unique (yields_demand_nil before reports missing judge)).1
  | cons t rest =>
    have ended := (h.unique (yields_demand_cons before rest t reports missing judge)).2
    simpa [between] using congrArg Registers.cursor ended

theorem yields_report (r : Report) :
    Yields (report r) (between before rest reports) (.ok ⟨⟩)
      (between before rest (reports ++ [r])) := yields_modify rfl

end Tokens

end XtAsm.Parser
