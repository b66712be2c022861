import XtAsm.Listing.Basic
import XtAsm.Node.Generator
import XtAsm.Program

/-!
# The template code generator

Control flow is lowered to comparisons and jumps between fresh labels.  Variables are memory
operands.

* `Emit`: actions that make up labels and note the first error;
* `Decision`, `branchFalse`, `branchTrue`: conditions, which connect to the left;
* `template`: the generator;
* `Listing.ofProgram`: the listing of a program, or the first error.
-/

namespace XtAsm.Listing

/-- What can keep a program from having a listing. -/
inductive Error
  | misplacedBreak
  | malformedCondition (comparisons connectives : Nat)
  deriving DecidableEq

/-- The description of an error. -/
def Error.message : Error → Text
  | .misplacedBreak => "break outside of loop"
  | .malformedCondition comparisons connectives =>
    "malformed condition (" ++ Text.ofNat comparisons ++ " comparisons, " ++
      Text.ofNat connectives ++ " connectives)"

/-- The number of labels made up so far, and the first error, if any. -/
structure Progress where
  labels : Nat
  error? : Option Error
  deriving DecidableEq

/-- No labels and no error. -/
def Progress.initial : Progress := ⟨0, none⟩

/-- Actions that generate code below loops, of which the innermost one is left by a jump to the
given label. -/
abbrev Emit (α : Type) := ReaderT (Option Label) (StateM Progress) α

/-- A new label. -/
def freshLabel : Emit Label := do
  let p ← get
  set { p with labels := p.labels + 1 }
  return .fresh (p.labels + 1)

/-- Notes an error, unless there was one before. -/
def fail (e : Error) : Emit Unit :=
  modify fun p => { p with error? := p.error? <|> some e }

/-- The lines of several children. -/
def block : List (Emit (List Line)) → Emit (List Line)
  | [] => pure []
  | child :: children => do
    let lines ← child
    return lines ++ (← block children)

/-- The lines of a loop body, which is left by a jump to the given label. -/
def loopBody (exit : Label) (body : List (Emit (List Line))) : Emit (List Line) :=
  fun _ => block body (some exit)

/-! ### Conditions -/

/-- A tree of tests. -/
inductive Decision (τ : Type)
  | test (t : τ)
  | connect (op : Connective) (lhs rhs : Decision τ)

/-- A decision followed by further tests, each connected with all before it. -/
def Decision.extend {τ : Type} (d : Decision τ) : List Connective → List τ → Decision τ
  | op :: ops, t :: ts => Decision.extend (.connect op d (.test t)) ops ts
  | _, _ => d

/-- The decision of tests with connectives between them, if their numbers fit. -/
def Decision.ofTests? {τ : Type} : List τ → List Connective → Option (Decision τ)
  | [], _ => none
  | t :: ts, ops => if ops.length = ts.length then some (Decision.extend (.test t) ops ts) else none

mutual

/-- Jumps to the target if the decision comes out false, and goes on otherwise. -/
def branchFalse (target : Label) : Decision (Test Emit (List Line)) → Emit (List Line)
  | .test t => do
    return (← t.code) ++ [.branch t.op.negate target]
  | .connect op lhs rhs =>
    if op = .ofJunction .and_ then do
      let first ← branchFalse target lhs
      return first ++ (← branchFalse target rhs)
    else do
      let pass ← freshLabel
      let first ← branchTrue pass lhs
      let second ← branchFalse target rhs
      return first ++ second ++ [.label pass]

/-- Jumps to the target if the decision comes out true, and goes on otherwise. -/
def branchTrue (target : Label) : Decision (Test Emit (List Line)) → Emit (List Line)
  | .test t => do
    return (← t.code) ++ [.branch t.op target]
  | .connect op lhs rhs =>
    if op = .ofJunction .or_ then do
      let first ← branchTrue target lhs
      return first ++ (← branchTrue target rhs)
    else do
      let stop ← freshLabel
      let first ← branchFalse stop lhs
      let second ← branchTrue target rhs
      return first ++ second ++ [.label stop]

end

/-- The lines that test conditions and jump to the target unless they hold. -/
def guardLines (tests : List (Test Emit (List Line))) (ops : List Connective) (target : Label) :
    Emit (List Line) :=
  match Decision.ofTests? tests ops with
  | some d => branchFalse target d
  | none => do
    fail (.malformedCondition tests.length ops.length)
    return []

/-! ### The generator -/

/-- The line of a constant. -/
def constantLine (v : Variable) : Line := .constant v.name v.value

/-- The lines of a variable: a memory operand, or a declaration. -/
def variableLines (v : Variable) : List Line :=
  if !v.isDeclaration then [.bare ("[" ++ v.name ++ "]")]
  else if v.value = [] then [.zero v.name]
  else [.word v.name v.value]

/-- The template code generator. -/
def template : Generator Emit (List Line) where
  data declarations := do
    return .dataHead :: (← block declarations)
  code instructions := do
    return .codeHead :: (← block instructions)
  label name := pure [.label (.named name)]
  exit value := pure [.exit (render value)]
  assign op target source := pure [.assign op (render target) (render source)]
  leave := do
    match ← read with
    | some exit => return [.jump exit]
    | none =>
      fail .misplacedBreak
      return []
  jump target := pure [.jump (.named target)]
  enum _ members := pure (members.map constantLine)
  whileLoop tests ops body := do
    let top ← freshLabel
    let done ← freshLabel
    let guardPart ← guardLines tests ops done
    let bodyPart ← loopBody done body
    return [.label top] ++ guardPart ++ bodyPart ++ [.jump top, .label done]
  forLoop counter limit increment body := do
    let top ← freshLabel
    let done ← freshLabel
    let counter ← counter
    let limit ← limit
    let bodyPart ← loopBody done body
    let increment ← increment
    return [.label top, .compare (render counter) (render limit),
        .branch (.ofRelation .ge) done] ++ bodyPart ++
      [.assign .add (render counter) (render increment), .jump top, .label done]
  loop body := do
    let top ← freshLabel
    let done ← freshLabel
    let bodyPart ← loopBody done body
    return [.label top] ++ bodyPart ++ [.jump top, .label done]
  choice tests ops thenBody elseBody := do
    let done ← freshLabel
    if elseBody.isEmpty then
      let guardPart ← guardLines tests ops done
      let thenPart ← block thenBody
      return guardPart ++ thenPart ++ [.label done]
    else
      let otherwise ← freshLabel
      let guardPart ← guardLines tests ops otherwise
      let thenPart ← block thenBody
      let elsePart ← block elseBody
      return guardPart ++ thenPart ++ [.jump done, .label otherwise] ++ elsePart ++ [.label done]
  compare _ lhs rhs := pure [.compare (render lhs) (render rhs)]
  var v := pure (variableLines v)
  operand t := bareLines t

/-- The lines of a node outside of all loops, and the progress after it. -/
def compile (n : Node) (p : Progress) : List Line × Progress :=
  ((n.generate template).run none).run p

/-- The listing of a program, each section followed by a line break, or the first error. -/
def ofProgram (p : Program) : Except Error Text :=
  let (data, progress) := compile (.data p.data) .initial
  -- labels are numbered on from one section to the other
  let (code, progress) := compile (.code p.code) progress
  match progress.error? with
  | some e => .error e
  | none => .ok (render data ++ "\n" ++ render code ++ "\n")

end XtAsm.Listing
