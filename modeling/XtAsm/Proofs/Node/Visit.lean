import XtAsm.Proofs.Node.Guards

/-!
# The order of visits

A code generator visits the nodes of a tree in a fixed order, and knows of each whether it lies in
the body of a loop.  Only a `break` and the guard of a loop or a choice can be complained about.

* `Visit`: a node where it is visited;
* `Node.visits`, `Program.visits`: the visits of a tree, in order;
* `Visit.complaint?`: what is said about a misplaced `break` and about a malformed condition.
-/

namespace XtAsm

/-- A node where it is visited: in the body of a loop, or not. -/
structure Visit where
  inLoop : Bool
  node : Node

namespace Node

mutual

/-- The visits of a node, from the node itself on.  The conditions of a loop or a choice are visited
only if there are as many connectives as they take.  What a loop tests or adds lies around its body,
and the increment is visited after the body. -/
def visits (inLoop : Bool) : Node → List Visit
  | .data declarations => ⟨inLoop, .data declarations⟩ :: visitsAll inLoop declarations
  | .code instructions => ⟨inLoop, .code instructions⟩ :: visitsAll inLoop instructions
  | .label name => [⟨inLoop, .label name⟩]
  | .exit value => ⟨inLoop, .exit value⟩ :: visits inLoop value
  | .assign op target source =>
    ⟨inLoop, .assign op target source⟩ :: (visits inLoop target ++ visits inLoop source)
  | .leave => [⟨inLoop, .leave⟩]
  | .jump target => [⟨inLoop, .jump target⟩]
  | .enum name members => [⟨inLoop, .enum name members⟩]
  | .whileLoop conds ops body =>
    ⟨inLoop, .whileLoop conds ops body⟩ ::
      ((if Guard.IsMatched ⟨conds.length, ops.length⟩ then visitsOf inLoop conds else []) ++
        visitsAll true body)
  | .forLoop counter limit increment body =>
    ⟨inLoop, .forLoop counter limit increment body⟩ ::
      (visits inLoop counter ++ visits inLoop limit ++ visitsAll true body ++
        visits inLoop increment)
  | .loop body => ⟨inLoop, .loop body⟩ :: visitsAll true body
  | .choice conds ops thenBody elseBody =>
    ⟨inLoop, .choice conds ops thenBody elseBody⟩ ::
      ((if Guard.IsMatched ⟨conds.length, ops.length⟩ then visitsOf inLoop conds else []) ++
        visitsAll inLoop thenBody ++ visitsAll inLoop elseBody)
  | .condition c => ⟨inLoop, .condition c⟩ :: visitsIn inLoop c
  | .var v => [⟨inLoop, .var v⟩]
  | .register name => [⟨inLoop, .register name⟩]
  | .literal value => [⟨inLoop, .literal value⟩]

/-- The visits within a comparison. -/
def visitsIn (inLoop : Bool) : Condition → List Visit
  | .mk _ lhs rhs => visits inLoop lhs ++ visits inLoop rhs

/-- The visits of several nodes. -/
def visitsAll (inLoop : Bool) : List Node → List Visit
  | [] => []
  | n :: ns => visits inLoop n ++ visitsAll inLoop ns

/-- The visits within several comparisons. -/
def visitsOf (inLoop : Bool) : List Condition → List Visit
  | [] => []
  | c :: cs => visitsIn inLoop c ++ visitsOf inLoop cs

end

end Node

/-- The visits of a program: its data, and then its code. -/
def Program.visits (p : Program) : List Visit := Node.visitsAll false p.nodes

/-- What is said about a node where it is visited. -/
def Visit.complaint? (v : Visit) : Option Text :=
  match v.node with
  | .leave => if v.inLoop then none else some "break outside of loop"
  | .whileLoop conds ops _ | .choice conds ops _ _ =>
    if Guard.IsMatched ⟨conds.length, ops.length⟩ then none
    else
      some ("malformed condition (" ++ Text.ofNat conds.length ++ " comparisons, " ++
        Text.ofNat ops.length ++ " connectives)")
  | _ => none

end XtAsm
