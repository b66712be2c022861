import XtAsm.Node.Basic

/-!
# Induction over syntax trees

The children of a node stand in lists, alone, or on the two sides of a condition.  `Node.induction`
gives the hypothesis for each of them, with membership in place of a recursion over lists.
-/

namespace XtAsm.Node

/-- A property of every node, given that it passes from the children of a node to the node. -/
@[elab_as_elim]
theorem induction {P : Node → Prop}
    (data : ∀ declarations, (∀ d ∈ declarations, P d) → P (.data declarations))
    (code : ∀ instructions, (∀ i ∈ instructions, P i) → P (.code instructions))
    (label : ∀ name, P (.label name))
    (exit : ∀ value, P value → P (.exit value))
    (assign : ∀ op target source, P target → P source → P (.assign op target source))
    (leave : P .leave)
    (jump : ∀ target, P (.jump target))
    (enum : ∀ name members, P (.enum name members))
    (whileLoop : ∀ conditions connectives body, (∀ c ∈ conditions, P c.lhs ∧ P c.rhs) →
      (∀ n ∈ body, P n) → P (.whileLoop conditions connectives body))
    (forLoop : ∀ counter limit increment body, P counter → P limit → P increment →
      (∀ n ∈ body, P n) → P (.forLoop counter limit increment body))
    (loop : ∀ body, (∀ n ∈ body, P n) → P (.loop body))
    (choice : ∀ conditions connectives thenBody elseBody,
      (∀ c ∈ conditions, P c.lhs ∧ P c.rhs) → (∀ n ∈ thenBody, P n) → (∀ n ∈ elseBody, P n) →
      P (.choice conditions connectives thenBody elseBody))
    (condition : ∀ c : Condition, P c.lhs → P c.rhs → P (.condition c))
    (var : ∀ v, P (.var v))
    (register : ∀ name, P (.register name))
    (literal : ∀ value, P (.literal value))
    (n : Node) : P n :=
  @Node.rec P (fun c => P c.lhs ∧ P c.rhs) (fun ns => ∀ n ∈ ns, P n)
    (fun cs => ∀ c ∈ cs, P c.lhs ∧ P c.rhs)
    data code label exit assign leave jump enum whileLoop forLoop loop choice
    (fun c h => condition c h.1 h.2) var register literal
    (fun _ _ _ hl hr => ⟨hl, hr⟩)
    (fun n hn => absurd hn (by simp))
    (fun _ _ head tail n hn => by
      rcases List.mem_cons.mp hn with rfl | hn
      · exact head
      · exact tail n hn)
    (fun c hc => absurd hc (by simp))
    (fun _ _ head tail c hc => by
      rcases List.mem_cons.mp hc with rfl | hc
      · exact head
      · exact tail c hc)
    n

end XtAsm.Node
