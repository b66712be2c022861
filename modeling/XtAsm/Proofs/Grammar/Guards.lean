import XtAsm.Proofs.Grammar.Soundness
import XtAsm.Proofs.Node.Guards

/-!
# The guards of programs that have been read

The grammar puts a connective between any two neighbouring conditions, and nowhere else.

* `isMatched_of_isProgram`: so all guards of a program that has been read are matched;
* `exists_render_of_ofTokens`: hence it has a source form.
-/

namespace XtAsm.Grammar

/-- An operand has no guards. -/
theorem IsOperand.guards_eq {t : Token} {n : Node} (h : IsOperand t n) : n.guards = [] := by
  cases h <;> simp [Node.use, Node.guards]

theorem IsDestination.guards_eq {t : Token} {n : Node} (h : IsDestination t n) : n.guards = [] := by
  cases h <;> simp [Node.use, Node.guards]

theorem IsCondition.guardsIn_eq {ts : List Token} {c : Condition} (h : IsCondition ts c) :
    Node.guardsIn c = [] := by
  obtain ⟨hl, -, hr, -⟩ := h
  rw [Node.guardsIn, hl.guards_eq, hr.guards_eq, List.append_nil]

/-- Conditions are guarded by one connective fewer, and by nothing within them. -/
theorem IsConditions.guard {ts : List Token} {cs : List Condition} {ops : List Connective}
    (h : IsConditions ts cs ops) :
    Guard.IsMatched ⟨cs.length, ops.length⟩ ∧ Node.guardsOf cs = [] := by
  induction h with
  | single h =>
    rw [Node.guardsOf, Node.guardsOf, h.guardsIn_eq]
    exact ⟨rfl, rfl⟩
  | connect h _ _ ih =>
    rw [Node.guardsOf, h.guardsIn_eq]
    exact ⟨congrArg (· + 1) ih.1, ih.2⟩

mutual

theorem IsStatement.isMatched {ts : List Token} {n : Node} :
    IsStatement ts n → ∀ g ∈ n.guards, g.IsMatched
  | .label _ | .leave _ | .jump _ _ => by simp [Node.guards]
  | .exit _ h => by simp [Node.guards, h.guards_eq]
  | .assign _ hd hs => by simp [Node.guards, hd.guards_eq, hs.guards_eq]
  | .loop _ hb _ => by
    rw [Node.guards]
    exact hb.isMatched
  | .whileLoop _ hc _ hb _ => by
    rw [Node.guards, hc.guard.2, List.forall_mem_cons]
    exact ⟨hc.guard.1, hb.isMatched⟩
  | .forLoop _ hc _ hl _ hn _ hb _ => by
    rw [Node.guards, hc.guards_eq, hl.guards_eq, hn.guards_eq]
    exact hb.isMatched
  | .choice _ hc _ hb ht => by
    rw [Node.guards, hc.guard.2, List.forall_mem_cons, List.nil_append, List.forall_mem_append]
    exact ⟨hc.guard.1, hb.isMatched, ht.isMatched⟩

theorem IsBlock.isMatched {ts : List Token} {ns : List Node} :
    IsBlock ts ns → ∀ g ∈ Node.guardsAll ns, g.IsMatched
  | .nil => by simp [Node.guardsAll]
  | .cons h hs => by
    rw [Node.guardsAll, List.forall_mem_append]
    exact ⟨h.isMatched, hs.isMatched⟩

theorem IsTail.isMatched {ts : List Token} {ns : List Node} :
    IsTail ts ns → ∀ g ∈ Node.guardsAll ns, g.IsMatched
  | .close _ => by simp [Node.guardsAll]
  | .elseIf _ _ hc _ hb ht => by
    rw [Node.guardsAll, Node.guardsAll, List.append_nil, Node.guards, hc.guard.2,
      List.forall_mem_cons, List.nil_append, List.forall_mem_append]
    exact ⟨hc.guard.1, hb.isMatched, ht.isMatched⟩
  | .otherwise _ hb _ _ => hb.isMatched

end

/-- Declarations have no guards. -/
theorem IsDeclarations.guardsAll_eq {ts : List Token} {ns : List Node} (h : IsDeclarations ts ns) :
    Node.guardsAll ns = [] := by
  induction h with
  | nil => rw [Node.guardsAll]
  | cons h _ ih =>
    rw [Node.guardsAll, ih]
    cases h <;> simp [Node.declaration, Node.guards]

/-- All guards of a program that has been read are matched. -/
theorem isMatched_of_isProgram {ts : List Token} {p : Program} (h : IsProgram ts p) :
    ∀ g ∈ p.guards, g.IsMatched := by
  have sections : ∀ {us vs : List Token} {ds cs : List Node}, IsDeclarations us ds →
      IsBlock vs cs → ∀ g ∈ (Program.ofSections ds cs).guards, g.IsMatched := by
    intro us vs ds cs hd hc
    simp only [Program.guards, Program.nodes, Node.guardsAll, Node.guards,
      Program.data_ofSections, Program.code_ofSections, hd.guardsAll_eq, List.nil_append,
      List.append_nil]
    exact hc.isMatched
  cases h with
  | empty => exact sections .nil .nil
  | data hd =>
    obtain ⟨-, hd⟩ := hd
    exact sections hd .nil
  | code hc =>
    obtain ⟨-, hc⟩ := hc
    exact sections .nil hc
  | dataCode hd hc | codeData hc hd =>
    obtain ⟨-, hd⟩ := hd
    obtain ⟨-, hc⟩ := hc
    exact sections hd hc

/-- A program that has been read has a source form. -/
theorem exists_render_of_ofTokens {ts : List Token} {p : Program}
    (h : (Program.ofTokens ts).result = .ok p) : ∃ t, p.render = .ok t :=
  p.succeedsIff_render.exists_iff.mpr fun g hg =>
    (isMatched_of_isProgram (isProgram_of_accepts h) g hg).isJoined

end XtAsm.Grammar
