import XtAsm.Program
import XtAsm.Proofs.Node.Induction

/-!
# The guards of loops and choices

A loop or a choice has comparisons and connectives, which are counted separately.  Printing takes a
connective for every comparison but the first.

* `Guard`, `Node.guards`: the two counts of every loop and choice in a tree;
* `SucceedsIff`: a printer that succeeds under a condition and runs out of connectives otherwise;
* `Node.succeedsIff_render`, `Program.succeedsIff_render`: the condition for nodes and programs.
-/

namespace XtAsm

/-- How many comparisons and how many connectives guard a loop or a choice. -/
structure Guard where
  comparisons : Nat
  connectives : Nat
  deriving DecidableEq

namespace Guard

/-- A connective stands between any two neighbours, and nowhere else. -/
def IsMatched (g : Guard) : Prop := g.comparisons = g.connectives + 1

/-- No comparison lacks the connective before it. -/
def IsJoined (g : Guard) : Prop := g.comparisons ≤ g.connectives + 1

instance (g : Guard) : Decidable g.IsMatched := inferInstanceAs (Decidable (_ = _))

instance (g : Guard) : Decidable g.IsJoined := inferInstanceAs (Decidable (_ ≤ _))

theorem IsMatched.isJoined {g : Guard} (h : g.IsMatched) : g.IsJoined := Nat.le_of_eq h

end Guard

namespace Node

mutual

/-- The guards of a node, outermost first. -/
def guards : Node → List Guard
  | .data declarations => guardsAll declarations
  | .code instructions => guardsAll instructions
  | .exit value => guards value
  | .assign _ target source => guards target ++ guards source
  | .whileLoop conds ops body => ⟨conds.length, ops.length⟩ :: (guardsOf conds ++ guardsAll body)
  | .forLoop counter limit increment body =>
    guards counter ++ guards limit ++ guards increment ++ guardsAll body
  | .loop body => guardsAll body
  | .choice conds ops thenBody elseBody =>
    ⟨conds.length, ops.length⟩ :: (guardsOf conds ++ guardsAll thenBody ++ guardsAll elseBody)
  | .condition c => guardsIn c
  | .label _ | .leave | .jump _ | .enum _ _ | .var _ | .register _ | .literal _ => []

/-- The guards within a comparison. -/
def guardsIn : Condition → List Guard
  | .mk _ lhs rhs => guards lhs ++ guards rhs

/-- The guards of several nodes. -/
def guardsAll : List Node → List Guard
  | [] => []
  | n :: ns => guards n ++ guardsAll ns

/-- The guards within several comparisons. -/
def guardsOf : List Condition → List Guard
  | [] => []
  | c :: cs => guardsIn c ++ guardsOf cs

end

end Node

/-- The guards of a program. -/
def Program.guards (p : Program) : List Guard := Node.guardsAll p.nodes

/-! ### Printing -/

/-- The printer succeeds if the condition holds, and otherwise looks for a connective that is not
there. -/
def SucceedsIff {α : Type} (x : Except Fault α) (P : Prop) : Prop :=
  (P ∧ ∃ a, x = .ok a) ∨ (¬ P ∧ x = .error .outOfRange)

namespace SucceedsIff

variable {α β : Type} {x : Except Fault α} {P Q : Prop}

theorem congr (h : SucceedsIff x P) (iff : P ↔ Q) : SucceedsIff x Q := propext iff ▸ h

theorem ok (a : α) : SucceedsIff (.ok a) True := .inl ⟨trivial, a, rfl⟩

/-- Two printers in a row. -/
theorem bind {f : α → Except Fault β} (hx : SucceedsIff x P)
    (hf : ∀ a, x = .ok a → SucceedsIff (f a) Q) : SucceedsIff (x >>= f) (P ∧ Q) := by
  rcases hx with ⟨hp, a, rfl⟩ | ⟨hp, rfl⟩
  · exact (hf a rfl).congr (by simp [hp])
  · exact .inr ⟨fun both => hp both.1, rfl⟩

/-- A text made from what has been printed. -/
theorem map (hx : SucceedsIff x P) (f : α → β) : SucceedsIff (x >>= fun a => pure (f a)) P :=
  (hx.bind fun a _ => .ok (f a)).congr (by simp)

theorem exists_iff (h : SucceedsIff x P) : (∃ a, x = .ok a) ↔ P := by
  rcases h with ⟨hp, done⟩ | ⟨hp, rfl⟩
  · exact ⟨fun _ => hp, fun _ => done⟩
  · simp [hp]

theorem error_iff (h : SucceedsIff x P) : x = .error .outOfRange ↔ ¬ P := by
  rcases h with ⟨hp, a, rfl⟩ | ⟨hp, failed⟩
  · simp [hp]
  · exact ⟨fun _ => hp, fun _ => failed⟩

end SucceedsIff

namespace Node

/-- Every comparison but the first takes a connective. -/
theorem succeedsIff_joinConditions (ts : List Text) (ops : List Connective) :
    SucceedsIff (joinConditions ts ops) (ts.length ≤ ops.length + 1) := by
  induction ts generalizing ops with
  | nil => exact (SucceedsIff.ok _).congr (by simp)
  | cons t ts ih =>
    cases ts with
    | nil => exact (SucceedsIff.ok _).congr (by simp)
    | cons u ts =>
      cases ops with
      | nil => exact .inr ⟨by simp, rfl⟩
      | cons op ops =>
        rw [joinConditions]
        · exact ((ih ops).map _).congr (by simp)
        · simp

theorem succeedsIff_renderAll {ns : List Node}
    (h : ∀ n ∈ ns, SucceedsIff n.render (∀ g ∈ n.guards, g.IsJoined)) :
    SucceedsIff (renderAll ns) (∀ g ∈ guardsAll ns, g.IsJoined) := by
  induction ns with
  | nil =>
    rw [renderAll, guardsAll]
    exact (SucceedsIff.ok _).congr (by simp)
  | cons n ns ih =>
    rw [List.forall_mem_cons] at h
    rw [renderAll, guardsAll]
    exact (h.1.bind fun _ _ => (ih h.2).map _).congr List.forall_mem_append.symm

theorem succeedsIff_renderCondition {c : Condition}
    (hl : SucceedsIff c.lhs.render (∀ g ∈ c.lhs.guards, g.IsJoined))
    (hr : SucceedsIff c.rhs.render (∀ g ∈ c.rhs.guards, g.IsJoined)) :
    SucceedsIff (renderCondition c) (∀ g ∈ guardsIn c, g.IsJoined) := by
  obtain ⟨op, l, r⟩ := c
  rw [renderCondition, guardsIn]
  exact (hl.bind fun _ _ => hr.map _).congr List.forall_mem_append.symm

theorem succeedsIff_renderConditions {cs : List Condition}
    (h : ∀ c ∈ cs, SucceedsIff c.lhs.render (∀ g ∈ c.lhs.guards, g.IsJoined) ∧
      SucceedsIff c.rhs.render (∀ g ∈ c.rhs.guards, g.IsJoined)) :
    SucceedsIff (renderConditions cs) (∀ g ∈ guardsOf cs, g.IsJoined) := by
  induction cs with
  | nil =>
    rw [renderConditions, guardsOf]
    exact (SucceedsIff.ok _).congr (by simp)
  | cons c cs ih =>
    rw [List.forall_mem_cons] at h
    rw [renderConditions, guardsOf]
    exact ((succeedsIff_renderCondition h.1.1 h.1.2).bind fun _ _ => (ih h.2).map _).congr
      List.forall_mem_append.symm

theorem length_renderConditions {cs : List Condition} {ts : List Text}
    (h : renderConditions cs = .ok ts) : ts.length = cs.length := by
  induction cs generalizing ts with
  | nil =>
    rw [renderConditions] at h
    cases h
    rfl
  | cons c cs ih =>
    rw [renderConditions] at h
    cases head : renderCondition c with
    | error f =>
      rw [head] at h
      cases h
    | ok t =>
      cases tail : renderConditions cs with
      | error f =>
        rw [head, tail] at h
        cases h
      | ok us =>
        rw [head, tail] at h
        cases h
        rw [List.length_cons, List.length_cons, ih tail]

/-- The head of a loop or choice: its own guard has to be joined, and those within it. -/
theorem succeedsIff_header {cs : List Condition} (ops : List Connective)
    (h : SucceedsIff (renderConditions cs) (∀ g ∈ guardsOf cs, g.IsJoined)) :
    SucceedsIff (renderConditions cs >>= fun ts => joinConditions ts ops)
      (Guard.IsJoined ⟨cs.length, ops.length⟩ ∧ ∀ g ∈ guardsOf cs, g.IsJoined) := by
  refine (h.bind fun ts rendered => ?_).congr and_comm
  rw [Guard.IsJoined, ← length_renderConditions rendered]
  exact succeedsIff_joinConditions ts ops

/-- A node has a source form exactly if all its guards are joined. -/
theorem succeedsIff_render (n : Node) : SucceedsIff n.render (∀ g ∈ n.guards, g.IsJoined) := by
  induction n using Node.induction with
  | data ds ih =>
    rw [render, guards]
    exact (succeedsIff_renderAll ih).map _
  | code is ih =>
    rw [render, guards]
    exact (succeedsIff_renderAll ih).map _
  | label name => exact (SucceedsIff.ok _).congr (by simp [guards])
  | exit value ih =>
    rw [render, guards]
    exact ih.map _
  | assign op target source ht hs =>
    rw [render, guards]
    exact (ht.bind fun _ _ => hs.map _).congr List.forall_mem_append.symm
  | leave => exact (SucceedsIff.ok _).congr (by simp [guards])
  | jump target => exact (SucceedsIff.ok _).congr (by simp [guards])
  | enum name members => exact (SucceedsIff.ok _).congr (by simp [guards])
  | whileLoop cs ops body hc hb =>
    have header := succeedsIff_header ops (succeedsIff_renderConditions hc)
    rw [render, guards, ← bind_assoc]
    refine (header.bind fun _ _ => (succeedsIff_renderAll hb).map _).congr ?_
    rw [List.forall_mem_cons, List.forall_mem_append, and_assoc]
  | forLoop counter limit increment body hc hl hi hb =>
    rw [render, guards]
    refine (hc.bind fun _ _ => hl.bind fun _ _ => hi.bind fun _ _ =>
      (succeedsIff_renderAll hb).map _).congr ?_
    simp only [List.forall_mem_append, and_assoc]
  | loop body hb =>
    rw [render, guards]
    exact (succeedsIff_renderAll hb).map _
  | choice cs ops thenBody elseBody hc ht he =>
    have header := succeedsIff_header ops (succeedsIff_renderConditions hc)
    rw [render, guards, ← bind_assoc]
    refine (header.bind fun _ _ => (succeedsIff_renderAll ht).bind fun _ _ =>
      (succeedsIff_renderAll he).bind (Q := True) fun _ _ => ?_).congr ?_
    · cases elseIf? elseBody with
      | some nested => exact SucceedsIff.ok _
      | none => exact SucceedsIff.ok _
    · simp only [List.forall_mem_cons, List.forall_mem_append, and_assoc, and_true]
  | condition c hl hr =>
    rw [render, guards]
    exact succeedsIff_renderCondition hl hr
  | var v => exact (SucceedsIff.ok _).congr (by simp [guards])
  | register name => exact (SucceedsIff.ok _).congr (by simp [guards])
  | literal value => exact (SucceedsIff.ok _).congr (by simp [guards])

end Node

/-- A program has a source form exactly if all its guards are joined. -/
theorem Program.succeedsIff_render (p : Program) :
    SucceedsIff p.render (∀ g ∈ p.guards, g.IsJoined) := by
  refine ((Node.data p.data).succeedsIff_render.bind fun _ _ =>
    (Node.code p.code).succeedsIff_render.map _).congr ?_
  simp only [Program.guards, Program.nodes, Node.guardsAll, List.append_nil,
    List.forall_mem_append]

end XtAsm
