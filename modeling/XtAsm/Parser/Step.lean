import XtAsm.Parser.State
import XtAsm.Text.Integer

/-!
# Parsing

* `State.settle`: ends the section at hand if the next token does not belong to it;
* `State.accept`: what reading a token makes of a state;
* `State.finish`: what the end of the tokens makes of a state;
* `Parser.run`: all tokens in turn, up to the first fault.
-/

namespace XtAsm.Parser

/-! ### Operands -/

/-- The operand that a token denotes, if it denotes one at all. -/
def operand? (t : Token) : Option Operand :=
  match t.kind with
  | .var => some ⟨t, .use t.text⟩
  | .reg => some ⟨t, .register t.text⟩
  | .int => some ⟨t, .literal t.text⟩
  | _ => none

/-- The operand that a token denotes at a place of the grammar. -/
def operandAt (slot : Slot) (t : Token) : Except ParseError Operand :=
  match operand? t with
  | some operand =>
    if t.kind = .int ∧ slot.allowsLiteral = false then
      .error (.atToken t (.invalidOperand slot t.text))
    else .ok operand
  | none => .error (.atToken t (.invalidOperand slot t.text))

/-! ### Declarations -/

/-- A member of an enumeration. -/
def memberVariable (name member : Token) (value : Int) : Variable :=
  ⟨name.text ++ "." ++ member.text, Text.ofInt value, true⟩

/-- A token where a member or the end of an enumeration is due. -/
def acceptMember (declarations : List Node) (keyword name : Token) (members : List Variable)
    (next : Int) (t : Token) : Except ParseError (List Node × Declaring) :=
  match t.kind with
  | .word .end_ => .ok (declarations ++ [.enum name.text members], .declaration)
  | .var | .name => .ok (declarations, .index keyword name members next t)
  | _ => .error (.atToken t (.invalidMember name.text t.text))

/-- A token of the data section.  A member without a value takes the next one, which is one more
than that of the member before it, in 64-bit arithmetic. -/
def acceptDeclaring (declarations : List Node) (declaring : Declaring) (t : Token) :
    Except ParseError (List Node × Declaring) :=
  match declaring with
  | .declaration =>
    match t.kind with
    | .var => .ok (declarations, .value t)
    | .word .enum => .ok (declarations, .enumName t)
    | _ => .error (.atToken t (.notASection t.text))
  | .value name =>
    match t.kind with
    | .int => .ok (declarations ++ [.declaration name.text t.text], .declaration)
    | .query => .ok (declarations ++ [.declaration name.text []], .declaration)
    | _ => .error (.atToken t (.invalidValue name.text t.text))
  | .enumName keyword =>
    match t.kind with
    | .name => .ok (declarations, .member keyword t [] 0)
    | _ => .error (.atToken t (.invalidEnumName t.text))
  | .member keyword name members next => acceptMember declarations keyword name members next t
  | .index keyword name members next member =>
    match t.kind with
    | .int =>
      match Text.readInt t.text with
      | .ok value =>
        .ok (declarations, .member keyword name (members ++ [memberVariable name member value])
          (Text.wrap64 (value + 1)))
      | .error _ => .error (.atToken t (.invalidIndex member.text t.text))
    | _ =>
      acceptMember declarations keyword name (members ++ [memberVariable name member next])
        (Text.wrap64 (next + 1)) t

/-! ### Statements -/

/-- The head of an `if` statement.  Right after an `else` it continues the choice before it. -/
def beginChoice (b : Blocks) (t : Token) : Blocks × Reading :=
  match b.body, b.frames with
  | [], ⟨.elseBranch _ chain outer thenBody, before⟩ :: frames =>
    -- the block of the `else` is given up: both choices end together
    (⟨before, frames⟩, .left ⟨.choice (⟨chain, thenBody⟩ :: outer), t, ⟨[], []⟩⟩ t)
  | _, _ => (b, .left ⟨.choice [], t, ⟨[], []⟩⟩ t)

/-- A token where a statement or the end of the innermost block is due. -/
def acceptStatement (b : Blocks) (t : Token) : Except ParseError (Blocks × Reading) :=
  match t.kind with
  | .label => .ok (b.push (.label t.text), .statement)
  | .word .break_ => .ok (b.push .leave, .statement)
  | .word .exit => .ok (b, .exitValue t)
  | .word .add => .ok (b, .target .add t)
  | .word .sub => .ok (b, .target .sub t)
  | .word .mov => .ok (b, .target .mov t)
  | .word .jmp => .ok (b, .jumpLabel t)
  | .word .while_ => .ok (b, .left ⟨.whileLoop, t, ⟨[], []⟩⟩ t)
  | .word .for_ => .ok (b, .counter t)
  | .word .loop => .ok (b.enter (.loop t), .statement)
  | .word .if_ => .ok (beginChoice b t)
  | .word .else_ =>
    match b.frames with
    | ⟨.thenBranch _ chain outer, before⟩ :: frames =>
      .ok (⟨[], ⟨.elseBranch t chain outer b.body, before⟩ :: frames⟩, .statement)
    | _ => .error (.atToken t (.notAnInstruction t.text))
  | .word .end_ =>
    match b.frames with
    | ⟨opener, before⟩ :: frames => .ok (⟨before ++ [opener.close b.body], frames⟩, .statement)
    | [] => .error (.atToken t (.notAnInstruction t.text))
  | _ => .error (.atToken t (.notAnInstruction t.text))

/-- The block after a complete head. -/
def Header.opener (h : Header) : Opener :=
  match h.form with
  | .whileLoop => .whileLoop h.keyword h.chain
  | .choice outer => .thenBranch h.keyword h.chain outer

/-- The head with one more condition. -/
def Header.addCondition (h : Header) (c : Condition) : Header :=
  { h with chain := ⟨h.chain.conditions ++ [c], h.chain.connectives⟩ }

/-- The head with one more connective. -/
def Header.addConnective (h : Header) (j : Junction) : Header :=
  { h with chain := ⟨h.chain.conditions, h.chain.connectives ++ [.ofJunction j]⟩ }

/-- The right operand of a condition; two literals cannot be compared. -/
def acceptRight (header : Header) (left : Operand) (op : Relation) (t : Token) :
    Except ParseError Reading := do
  let right ← operandAt .conditionRight t
  if left.token.kind = .int ∧ t.kind = .int then throw ⟨.twoLiterals, left.token, t⟩
  return .connective (header.addCondition (.mk (.ofRelation op) left.node right.node)) t

/-- A token of the code section. -/
def acceptReading (b : Blocks) (reading : Reading) (t : Token) :
    Except ParseError (Blocks × Reading) :=
  match reading with
  | .statement => acceptStatement b t
  | .exitValue _ => do
    let value ← operandAt .exitValue t
    return (b.push (.exit value.node), .statement)
  | .target op keyword => do
    return (b, .source op keyword (← operandAt (.target op keyword.text) t))
  | .source op keyword target => do
    let source ← operandAt (.source op keyword.text) t
    return (b.push (.assign op target.node source.node), .statement)
  | .jumpLabel _ =>
    match t.kind with
    | .label => .ok (b.push (.jump t.text), .statement)
    | _ => .error (.atToken t (.invalidLabel t.text))
  | .left header _ => do
    return (b, .comparison header (← operandAt .conditionLeft t))
  | .comparison header left =>
    match t.kind with
    | .compare op => .ok (b, .right header left op t)
    | _ => .error (.atToken t (.invalidComparison t.text))
  | .right header left op _ => do
    return (b, ← acceptRight header left op t)
  | .connective header _ =>
    match t.kind with
    | .connect j => .ok (b, .left (header.addConnective j) t)
    | .word .in_ => .ok (b.enter header.opener, .statement)
    | _ => .error (.atToken t (.invalidConnective header.keyword.text t.text))
  | .counter keyword => do
    return (b, .firstSemicolon keyword (← operandAt .rangeStart t))
  | .firstSemicolon keyword counter =>
    match t.kind with
    | .semicolon => .ok (b, .limit keyword counter t)
    | _ => .error (.atToken t (.invalidSemicolon t.text))
  | .limit keyword counter _ => do
    return (b, .secondSemicolon keyword counter (← operandAt .rangeEnd t))
  | .secondSemicolon keyword counter limit =>
    match t.kind with
    | .semicolon => .ok (b, .increment keyword counter limit t)
    | _ => .error (.atToken t (.invalidSemicolon t.text))
  | .increment keyword counter limit _ => do
    return (b, .rangeIn keyword counter limit (← operandAt .increment t))
  | .rangeIn keyword counter limit increment =>
    match t.kind with
    | .word .in_ =>
      .ok (b.enter (.forLoop keyword counter.node limit.node increment.node), .statement)
    | _ => .error (.atToken t (.invalidRangeIn t.text))

/-! ### Sections -/

/-- The token can stand between two declarations. -/
def startsDeclaration (t : Token) : Bool :=
  match t.kind with
  | .var | .word .enum => true
  | _ => false

/-- Ends the section at hand if it is complete and the token does not belong to it.  A data section
ends before anything that starts no declaration, a code section only before a data section. -/
def State.settle (s : State) (t : Token) : State :=
  match s.phase with
  | .inData head declarations .declaration =>
    if startsDeclaration t then s else s.finishData head declarations
  | .inCode head ⟨body, []⟩ .statement =>
    if t.kind = .data then s.finishCode head body else s
  | _ => s

/-- A token that belongs to the section at hand, or starts one. -/
def State.accept (s : State) (t : Token) : Except ParseError State :=
  match s.phase with
  | .outside =>
    match t.kind with
    | .data =>
      if s.data?.isSome then .error (.atToken t .duplicateData)
      else .ok { s with phase := .inData t [] .declaration }
    | .code =>
      if s.code?.isSome then .error (.atToken t .duplicateCode)
      else .ok { s with phase := .inCode t .empty .statement }
    | _ => .error (.atToken t (.notASection t.text))
  | .inData head declarations declaring => do
    let (declarations, declaring) ← acceptDeclaring declarations declaring t
    return { s with phase := .inData head declarations declaring }
  | .inCode head blocks reading => do
    let (blocks, reading) ← acceptReading blocks reading t
    return { s with phase := .inCode head blocks reading }

/-! ### The end of the tokens -/

/-- What is missing when the tokens end within a declaration. -/
def Declaring.missing? : Declaring → Option ParseError
  | .declaration => none
  | .value name => some (.atToken name (.missingValue name.text))
  | .enumName keyword => some (.atToken keyword .missingEnumName)
  | .member keyword name _ _ => some (.atToken keyword (.missingEnumEnd name.text))
  | .index keyword name _ _ _ => some (.atToken keyword (.missingEnumEnd name.text))

/-- What is missing when the tokens end within a statement. -/
def Reading.missing? : Reading → Option ParseError
  | .statement => none
  | .exitValue keyword => some (.atToken keyword (.missingOperand .exitValue))
  | .target op keyword => some (.atToken keyword (.missingOperand (.target op keyword.text)))
  | .source op keyword first =>
    some (.atToken first.token (.missingOperand (.source op keyword.text)))
  | .jumpLabel keyword => some (.atToken keyword .missingLabel)
  | .left _ previous => some (.atToken previous (.missingOperand .conditionLeft))
  | .comparison _ first => some (.atToken first.token .missingComparison)
  | .right _ _ _ previous => some (.atToken previous (.missingOperand .conditionRight))
  | .connective header last => some (.atToken last (.missingIn header.keyword.text))
  | .counter keyword => some (.atToken keyword (.missingOperand .rangeStart))
  | .firstSemicolon _ first => some (.atToken first.token .missingSemicolon)
  | .limit _ _ previous => some (.atToken previous (.missingOperand .rangeEnd))
  | .secondSemicolon _ _ second => some (.atToken second.token .missingSemicolon)
  | .increment _ _ _ previous => some (.atToken previous (.missingOperand .increment))
  | .rangeIn _ _ _ third => some (.atToken third.token .missingRangeIn)

/-- What is missing when the tokens end while blocks are open. -/
def Blocks.missing? (b : Blocks) : Option ParseError :=
  match b.frames with
  | [] => none
  | frame :: _ =>
    some (.atToken frame.opener.keyword (.missingEnd frame.opener.keyword.text))

/-- Reports and outcome of a parse. -/
structure Outcome where
  reports : List Report
  result : Except ParseError Program

/-- The outcome of a parse that ends in the given state. -/
def State.finish (s : State) : Outcome :=
  match s.phase with
  | .outside => ⟨s.reports, .ok s.program⟩
  | .inData head declarations declaring =>
    match declaring.missing? with
    | some e => ⟨s.reports, .error e⟩
    | none =>
      let s := s.finishData head declarations
      ⟨s.reports, .ok s.program⟩
  | .inCode head blocks reading =>
    match reading.missing? <|> blocks.missing? with
    | some e => ⟨s.reports, .error e⟩
    | none =>
      let s := s.finishCode head blocks.body
      ⟨s.reports, .ok s.program⟩

/-- The outcome of reading the given tokens in a state. -/
def run (s : State) : List Token → Outcome
  | [] => s.finish
  | t :: ts =>
    let s := s.settle t
    match s.accept t with
    | .ok next => run next ts
    | .error e => ⟨s.reports, .error e⟩

@[simp] theorem run_nil (s : State) : run s [] = s.finish := rfl

/-- Once a token has been accepted, the rest is read in the state after it. -/
theorem run_cons_of_ok {s next : State} {t : Token} (ts : List Token)
    (h : (s.settle t).accept t = .ok next) : run s (t :: ts) = run next ts := by
  simp only [run, h]

/-- A token that does not fit ends the parse, whatever follows it. -/
theorem run_cons_of_error {s : State} {t : Token} {e : ParseError} (ts : List Token)
    (h : (s.settle t).accept t = .error e) :
    run s (t :: ts) = ⟨(s.settle t).reports, .error e⟩ := by
  simp only [run, h]

end XtAsm.Parser

namespace XtAsm

/-- The program that a sequence of tokens denotes, with the reports made on the way. -/
def Program.ofTokens (tokens : List Token) : Parser.Outcome := Parser.run .initial tokens

end XtAsm
