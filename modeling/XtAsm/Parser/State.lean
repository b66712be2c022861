import XtAsm.Parser.Fault
import XtAsm.Program
import XtAsm.Report

/-!
# States of the parser

The parser reads one token at a time.  Between two tokens its state holds the sections read so far,
the blocks that are still open, and what the statement or declaration at hand waits for.

* `Header`: the head of a `while` or `if` statement, up to its `in`;
* `Opener`, `Frame`: what a block belongs to, and what stood before it;
* `Declaring`, `Reading`: what the data section, or the code section, waits for;
* `Phase`, `State`.
-/

namespace XtAsm.Parser

/-- An operand and the token that it was read from. -/
structure Operand where
  token : Token
  node : Node

/-- Conditions, and the connectives between them. -/
structure Chain where
  conditions : List Condition
  connectives : List Connective

/-- A choice whose else branch is being read: its conditions and its first body. -/
structure Pending where
  chain : Chain
  thenBody : List Node

/-- What a head with conditions introduces.  A choice may itself be the else branch of other
choices, innermost first, which all end with it. -/
inductive Form
  | whileLoop
  | choice (outer : List Pending)

/-- The head of a statement with conditions, as far as it has been read. -/
structure Header where
  form : Form
  keyword : Token
  chain : Chain

/-- What an open block belongs to. -/
inductive Opener
  | whileLoop (keyword : Token) (chain : Chain)
  | forLoop (keyword : Token) (counter limit increment : Node)
  | loop (keyword : Token)
  /-- The first body of a choice. -/
  | thenBranch (keyword : Token) (chain : Chain) (outer : List Pending)
  /-- The second body of a choice, introduced by `else`. -/
  | elseBranch (keyword : Token) (chain : Chain) (outer : List Pending) (thenBody : List Node)

namespace Opener

/-- The keyword that introduced the block. -/
def keyword : Opener → Token
  | .whileLoop keyword _ => keyword
  | .forLoop keyword _ _ _ => keyword
  | .loop keyword => keyword
  | .thenBranch keyword _ _ => keyword
  | .elseBranch keyword _ _ _ => keyword

/-- A choice placed into the else branches that it belongs to. -/
def enclose (outer : List Pending) (node : Node) : Node :=
  outer.foldl
    (fun inner p => .choice p.chain.conditions p.chain.connectives p.thenBody [inner]) node

/-- The statement that a block with the given body completes. -/
def close (body : List Node) : Opener → Node
  | .whileLoop _ chain => .whileLoop chain.conditions chain.connectives body
  | .forLoop _ counter limit increment => .forLoop counter limit increment body
  | .loop _ => .loop body
  | .thenBranch _ chain outer =>
    enclose outer (.choice chain.conditions chain.connectives body [])
  | .elseBranch _ chain outer thenBody =>
    enclose outer (.choice chain.conditions chain.connectives thenBody body)

end Opener

/-- An open block, with the statements that stand before it in the block around it. -/
structure Frame where
  opener : Opener
  before : List Node

/-- The statements of the innermost block, and the open blocks, innermost first. -/
structure Blocks where
  body : List Node
  frames : List Frame

namespace Blocks

/-- No statements and no open blocks. -/
def empty : Blocks := ⟨[], []⟩

/-- One more statement in the innermost block. -/
def push (b : Blocks) (n : Node) : Blocks := ⟨b.body ++ [n], b.frames⟩

/-- A new innermost block. -/
def enter (b : Blocks) (opener : Opener) : Blocks := ⟨[], ⟨opener, b.body⟩ :: b.frames⟩

end Blocks

/-- What the statement at hand waits for. -/
inductive Reading
  /-- A statement, or the end of the innermost block. -/
  | statement
  | exitValue (keyword : Token)
  | target (op : Mnemonic) (keyword : Token)
  | source (op : Mnemonic) (keyword : Token) (target : Operand)
  | jumpLabel (keyword : Token)
  /-- The left operand of a condition. -/
  | left (header : Header) (previous : Token)
  | comparison (header : Header) (left : Operand)
  | right (header : Header) (left : Operand) (op : Relation) (previous : Token)
  /-- A connective or `in`. -/
  | connective (header : Header) (last : Token)
  | counter (keyword : Token)
  | firstSemicolon (keyword : Token) (counter : Operand)
  | limit (keyword : Token) (counter : Operand) (previous : Token)
  | secondSemicolon (keyword : Token) (counter limit : Operand)
  | increment (keyword : Token) (counter limit : Operand) (previous : Token)
  | rangeIn (keyword : Token) (counter limit increment : Operand)

/-- What the declaration at hand waits for. -/
inductive Declaring
  /-- A declaration, or the end of the section. -/
  | declaration
  | value (name : Token)
  | enumName (keyword : Token)
  /-- A member or the end of an enumeration; `next` is the value of the next member. -/
  | member (keyword name : Token) (members : List Variable) (next : Int)
  /-- The value of a member, which may be left out. -/
  | index (keyword name : Token) (members : List Variable) (next : Int) (member : Token)

/-- The section at hand. -/
inductive Phase
  | outside
  | inData (head : Token) (declarations : List Node) (declaring : Declaring)
  | inCode (head : Token) (blocks : Blocks) (reading : Reading)

/-- The finished sections, the section at hand, and the reports made so far. -/
structure State where
  data? : Option (List Node)
  code? : Option (List Node)
  reports : List Report
  phase : Phase

namespace State

/-- The state before the first token. -/
def initial : State := ⟨none, none, [], .outside⟩

/-- The report on the end of a section. -/
def sectionReport (name : String) (count : Nat) (contents : String) (head : Token) : Report :=
  .progress
    ("parsed " ++ name ++ " section (" ++ Text.ofNat count ++ " " ++ contents ++ ")") head.position

/-- The data section ends. -/
def finishData (s : State) (head : Token) (declarations : List Node) : State :=
  { s with
    data? := some declarations
    reports := s.reports ++ [sectionReport "#data" declarations.length "declarations" head]
    phase := .outside }

/-- The code section ends. -/
def finishCode (s : State) (head : Token) (statements : List Node) : State :=
  { s with
    code? := some statements
    reports := s.reports ++ [sectionReport "#code" statements.length "instructions" head]
    phase := .outside }

/-- The program of a state in which no section is open.  An absent section is an empty one. -/
def program (s : State) : Program := .ofSections (s.data?.getD []) (s.code?.getD [])

end State

end XtAsm.Parser
