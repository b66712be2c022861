import XtAsm.Proofs.Node.Induction
import XtAsm.Proofs.Stateful.Action
import XtAsm.Wire.Encode

/-!
# An encoder with a buffer

An encoder that walks through a program and appends the bytes of every node to a buffer.

* `putNode`, `encode`: the encoder;
* `Writes`: an action that appends given bytes, whatever is in the buffer;
* `exists_runs_encode`: for every program the encoder comes to an end, meets all preconditions, and
  yields the bytes that `Wire.encode` yields.
-/

namespace XtAsm.Wire.Encoder

/-- Appends some bytes. -/
def put (bytes : Text) : Action Text Unit := modify (· ++ bytes)

/-- Appends a number. -/
def putNumber (n : Nat) : Action Text Unit := put (varint n)

/-- Appends a text after its length. -/
def putText (t : Text) : Action Text Unit := do
  putNumber t.length
  put t

/-- Appends a variable with its tag. -/
def putVariable (v : Variable) : Action Text Unit := do
  put [16]
  putText v.name
  putText v.value
  put (bool v.isDeclaration)

/-- Appends several variables. -/
def putVariables : List Variable → Action Text Unit
  | [] => pure ⟨⟩
  | v :: vs => do
    putVariable v
    putVariables vs

/-- Appends operators after their number. -/
def putConnectives (ops : List Connective) : Action Text Unit := do
  putNumber ops.length
  put (ops.map (·.code))

mutual

/-- Appends a node with its tag. -/
def putNode : Node → Action Text Unit
  | .data declarations => do
    put [1]
    putNumber declarations.length
    putNodes declarations
  | .code instructions => do
    put [2]
    putNumber instructions.length
    putNodes instructions
  | .label name => do
    put [3]
    putText name
  | .exit value => do
    put [4]
    putNode value
  | .assign op target source => do
    put [mnemonicTag op]
    putNode target
    putNode source
  | .leave => put [8]
  | .jump target => do
    put [9]
    putText target
  | .enum name members => do
    put [10]
    putText name
    putNumber members.length
    putVariables members
  | .whileLoop conds ops body => do
    put [11]
    putNumber conds.length
    putConditions conds
    putConnectives ops
    putNumber body.length
    putNodes body
  | .forLoop counter limit increment body => do
    put [12]
    putNode counter
    putNode limit
    putNode increment
    putNumber body.length
    putNodes body
  | .loop body => do
    put [13]
    putNumber body.length
    putNodes body
  | .choice conds ops thenBody elseBody => do
    put [14]
    putNumber conds.length
    putConditions conds
    putConnectives ops
    putNumber thenBody.length
    putNodes thenBody
    putNumber elseBody.length
    putNodes elseBody
  | .condition c => putCondition c
  | .var v => putVariable v
  | .register name => do
    put [17]
    putText name
    put (bool true)
  | .literal value => do
    put [17]
    putText value
    put (bool false)

/-- Appends a comparison with its tag. -/
def putCondition : Condition → Action Text Unit
  | .mk op lhs rhs => do
    put [15]
    put [op.code]
    putNode lhs
    putNode rhs

/-- Appends several nodes. -/
def putNodes : List Node → Action Text Unit
  | [] => pure ⟨⟩
  | n :: ns => do
    putNode n
    putNodes ns

/-- Appends several comparisons. -/
def putConditions : List Condition → Action Text Unit
  | [] => pure ⟨⟩
  | c :: cs => do
    putCondition c
    putConditions cs

end

/-- Appends a program. -/
def putProgram (p : Program) : Action Text Unit := do
  put identifier
  put [version]
  putNodes p.nodes

/-- The binary form of a program, made in an empty buffer. -/
def encode (p : Program) : Action Text Text := do
  set ([] : Text)
  putProgram p
  get

/-! ### What is written -/

/-- The action appends the given bytes. -/
def Writes (x : Action Text Unit) (bytes : Text) : Prop :=
  ∀ buffer, Runs x buffer ⟨⟩ (buffer ++ bytes)

section Writes

variable {x y : Action Text Unit} {a b : Text}

theorem writes_pure : Writes (pure ⟨⟩) [] := fun buffer => by
  rw [List.append_nil]
  exact runs_pure _ _

theorem writes_put (bytes : Text) : Writes (put bytes) bytes := fun _ => runs_modify rfl

/-- What two actions write in a row. -/
theorem Writes.andThen (hx : Writes x a) (hy : Writes y b) :
    Writes (x >>= fun _ => y) (a ++ b) := fun buffer => by
  rw [← List.append_assoc]
  exact (hx buffer).bind (hy _)

theorem writes_putNumber (n : Nat) : Writes (putNumber n) (varint n) := writes_put _

theorem writes_putText (t : Text) : Writes (putText t) (text t) :=
  (writes_putNumber _).andThen (writes_put _)

theorem writes_putVariable (v : Variable) : Writes (putVariable v) (variableNode v) := by
  have fields := (writes_put [16]).andThen ((writes_putText v.name).andThen
    ((writes_putText v.value).andThen (writes_put (bool v.isDeclaration))))
  rwa [← List.append_assoc (text v.name)] at fields

theorem writes_putVariables (vs : List Variable) :
    Writes (putVariables vs) (vs.flatMap variableNode) := by
  induction vs with
  | nil => exact writes_pure
  | cons v vs ih =>
    rw [List.flatMap_cons]
    exact (writes_putVariable v).andThen ih

theorem writes_putConnectives (ops : List Connective) :
    Writes (putConnectives ops) (connectives ops) := (writes_putNumber _).andThen (writes_put _)

theorem writes_putNodes {ns : List Node} (h : ∀ n ∈ ns, Writes (putNode n) (node n)) :
    Writes (putNodes ns) (nodes ns) := by
  induction ns with
  | nil =>
    rw [putNodes, nodes_nil]
    exact writes_pure
  | cons n ns ih =>
    rw [putNodes, nodes_cons]
    exact (h n List.mem_cons_self).andThen (ih fun m hm => h m (List.mem_cons_of_mem n hm))

theorem writes_putCondition {c : Condition} (hl : Writes (putNode c.lhs) (node c.lhs))
    (hr : Writes (putNode c.rhs) (node c.rhs)) : Writes (putCondition c) (condition c) := by
  obtain ⟨op, lhs, rhs⟩ := c
  rw [putCondition, condition]
  exact (writes_put [15]).andThen ((writes_put [op.code]).andThen (hl.andThen hr))

theorem writes_putConditions {cs : List Condition}
    (h : ∀ c ∈ cs, Writes (putNode c.lhs) (node c.lhs) ∧ Writes (putNode c.rhs) (node c.rhs)) :
    Writes (putConditions cs) (conditions cs) := by
  induction cs with
  | nil =>
    rw [putConditions, conditions_nil]
    exact writes_pure
  | cons c cs ih =>
    rw [putConditions, conditions_cons]
    have hc := h c List.mem_cons_self
    exact (writes_putCondition hc.1 hc.2).andThen
      (ih fun d hd => h d (List.mem_cons_of_mem c hd))

theorem writes_node (n : Node) : Writes (putNode n) (node n) := by
  induction n using Node.induction with
  | data declarations h =>
    rw [putNode, node]
    exact (writes_put [1]).andThen ((writes_putNumber _).andThen (writes_putNodes h))
  | code instructions h =>
    rw [putNode, node]
    exact (writes_put [2]).andThen ((writes_putNumber _).andThen (writes_putNodes h))
  | label name =>
    rw [putNode, node]
    exact (writes_put [3]).andThen (writes_putText name)
  | exit value h =>
    rw [putNode, node]
    exact (writes_put [4]).andThen h
  | assign op target source ht hs =>
    rw [putNode, node]
    exact (writes_put [mnemonicTag op]).andThen (ht.andThen hs)
  | leave =>
    rw [putNode, node]
    exact writes_put [8]
  | jump target =>
    rw [putNode, node]
    exact (writes_put [9]).andThen (writes_putText target)
  | enum name members =>
    rw [putNode, node]
    have fields := (writes_put [10]).andThen ((writes_putText name).andThen
      ((writes_putNumber members.length).andThen (writes_putVariables members)))
    rwa [← List.append_assoc (text name)] at fields
  | whileLoop conds ops body hc hb =>
    rw [putNode, node]
    have fields := (writes_put [11]).andThen ((writes_putNumber conds.length).andThen
      ((writes_putConditions hc).andThen ((writes_putConnectives ops).andThen
        ((writes_putNumber body.length).andThen (writes_putNodes hb)))))
    simpa only [List.append_assoc, List.singleton_append] using fields
  | forLoop counter limit increment body hc hl hi hb =>
    rw [putNode, node]
    have fields := (writes_put [12]).andThen (hc.andThen (hl.andThen (hi.andThen
      ((writes_putNumber body.length).andThen (writes_putNodes hb)))))
    simpa only [List.append_assoc, List.singleton_append] using fields
  | loop body hb =>
    rw [putNode, node]
    exact (writes_put [13]).andThen ((writes_putNumber _).andThen (writes_putNodes hb))
  | choice conds ops thenBody elseBody hc ht he =>
    rw [putNode, node]
    have fields := (writes_put [14]).andThen ((writes_putNumber conds.length).andThen
      ((writes_putConditions hc).andThen ((writes_putConnectives ops).andThen
        ((writes_putNumber thenBody.length).andThen ((writes_putNodes ht).andThen
          ((writes_putNumber elseBody.length).andThen (writes_putNodes he)))))))
    simpa only [List.append_assoc, List.singleton_append] using fields
  | condition c hl hr =>
    rw [putNode, node]
    exact writes_putCondition hl hr
  | var v =>
    rw [putNode, node]
    exact writes_putVariable v
  | register name =>
    rw [putNode, node]
    exact (writes_put [17]).andThen ((writes_putText name).andThen (writes_put _))
  | literal value =>
    rw [putNode, node]
    exact (writes_put [17]).andThen ((writes_putText value).andThen (writes_put _))

end Writes

theorem writes_putProgram (p : Program) : Writes (putProgram p) (Wire.encode p) := by
  have sections : Writes (putNodes p.nodes) (nodes p.nodes) :=
    writes_putNodes fun n _ => writes_node n
  rw [Program.nodes, nodes_cons, nodes_cons, nodes_nil, List.append_nil] at sections
  exact (writes_put identifier).andThen ((writes_put [version]).andThen sections)

/-- Whatever is in the buffer, the encoder comes to an end, meets all preconditions, and yields the
binary form of the program. -/
theorem exists_runs_encode (buffer : Text) (p : Program) :
    ∃ buffer', Runs (encode p) buffer (Wire.encode p) buffer' :=
  ⟨_, (runs_set rfl _).bind ((writes_putProgram p []).bind (runs_get _))⟩

end XtAsm.Wire.Encoder
