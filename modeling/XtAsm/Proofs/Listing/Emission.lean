import XtAsm.Listing.Template

/-!
# What emission does step by step

Vocabulary for statements about the template generator: which actions lead from one state of
progress to another, which labels they make up, and what a decision emits.

* `labelNumbers`, `Fresh`: the labels that lines place, and the numbers from one bound to another;
* `Emits`: what an action gives, and the progress it makes;
* `branchIf`: the two ways to lower a decision, in one definition.
-/

namespace XtAsm.Listing

/-! ### Labels -/

/-- The numbers of the labels that lines place. -/
def labelNumbers (ls : List Line) : List Nat :=
  ls.filterMap fun
    | .label (.fresh n) => some n
    | _ => none

@[simp] theorem labelNumbers_nil : labelNumbers [] = [] := rfl

@[simp] theorem labelNumbers_append (ls ms : List Line) :
    labelNumbers (ls ++ ms) = labelNumbers ls ++ labelNumbers ms := by
  simp [labelNumbers]

@[simp] theorem labelNumbers_label (n : Nat) (ls : List Line) :
    labelNumbers (.label (.fresh n) :: ls) = n :: labelNumbers ls := rfl

@[simp] theorem labelNumbers_jump (l : Label) (ls : List Line) :
    labelNumbers (.jump l :: ls) = labelNumbers ls := rfl

@[simp] theorem labelNumbers_compare (lhs rhs : Text) (ls : List Line) :
    labelNumbers (.compare lhs rhs :: ls) = labelNumbers ls := rfl

@[simp] theorem labelNumbers_branch (op : Comparator) (l : Label) (ls : List Line) :
    labelNumbers (.branch op l :: ls) = labelNumbers ls := rfl

@[simp] theorem labelNumbers_assign (op : Mnemonic) (target source : Text) (ls : List Line) :
    labelNumbers (.assign op target source :: ls) = labelNumbers ls := rfl

/-- All numbers above the first bound, up to the second one, in some order. -/
structure Fresh (a b : Nat) (ns : List Nat) : Prop where
  nodup : ns.Nodup
  bounds : ∀ n ∈ ns, a < n ∧ n ≤ b
  count : a + ns.length = b

namespace Fresh

variable {a b c : Nat} {ns ms : List Nat}

theorem le (h : Fresh a b ns) : a ≤ b := by
  rw [← h.count]
  exact Nat.le_add_right _ _

theorem nil : Fresh a a [] := ⟨by simp, by simp, rfl⟩

/-- The next number, used before all others. -/
theorem cons (h : Fresh (a + 1) b ns) : Fresh a b ((a + 1) :: ns) := by
  have le := h.le
  refine ⟨List.nodup_cons.2 ⟨fun mem => ?_, h.nodup⟩, ?_, ?_⟩
  · have := h.bounds _ mem
    omega
  · rw [List.forall_mem_cons]
    refine ⟨⟨by omega, le⟩, fun n hn => ?_⟩
    have := h.bounds n hn
    omega
  · rw [List.length_cons, ← h.count]
    omega

theorem append (h : Fresh a b ns) (h' : Fresh b c ms) : Fresh a c (ns ++ ms) := by
  have le := h.le
  have le' := h'.le
  refine ⟨List.nodup_append.2 ⟨h.nodup, h'.nodup, ?_⟩, ?_, ?_⟩
  · intro n hn m hm
    have := h.bounds n hn
    have := h'.bounds m hm
    omega
  · rw [List.forall_mem_append]
    refine ⟨fun n hn => ?_, fun n hn => ?_⟩
    · have := h.bounds n hn
      omega
    · have := h'.bounds n hn
      omega
  · rw [List.length_append, ← Nat.add_assoc, h.count, h'.count]

/-- The order in which labels are placed does not matter. -/
theorem perm (h : Fresh a b ns) (same : ns.Perm ms) : Fresh a b ms :=
  ⟨same.nodup_iff.1 h.nodup, fun n hn => h.bounds n (same.mem_iff.2 hn),
    by rw [← same.length_eq, h.count]⟩

end Fresh

/-! ### Actions -/

/-- The action gives the result and goes from one state of progress to another. -/
def Emits {α : Type} (x : Emit α) (exit? : Option Label) (p : Progress) (a : α) (q : Progress) :
    Prop :=
  (x.run exit?).run p = (a, q)

namespace Emits

variable {α β : Type} {x : Emit α} {f : α → Emit β} {exit? : Option Label} {p q r : Progress}
  {a : α} {b : β}

theorem pure : Emits (Pure.pure a) exit? p a p := rfl

theorem bind (h : Emits x exit? p a q) (h' : Emits (f a) exit? q b r) :
    Emits (x >>= f) exit? p b r := by
  unfold Emits at h h' ⊢
  rw [ReaderT.run_bind, StateT.run_bind, h]
  exact h'

theorem freshLabel :
    Emits freshLabel exit? p (.fresh (p.labels + 1)) { p with labels := p.labels + 1 } := rfl

theorem read : Emits read exit? p exit? p := rfl

/-- An action gives one result only. -/
theorem unique {a' : α} {q' : Progress} (h : Emits x exit? p a q) (h' : Emits x exit? p a' q') :
    a = a' ∧ q = q' :=
  Prod.mk.inj (h.symm.trans h')

end Emits

/-! ### Decisions -/

/-- A decision with other tests in the same places. -/
def Decision.map {τ υ : Type} (f : τ → υ) : Decision τ → Decision υ
  | .test t => .test (f t)
  | .connect op lhs rhs => .connect op (lhs.map f) (rhs.map f)

theorem Decision.map_extend {τ υ : Type} (f : τ → υ) (d : Decision τ) (ops : List Connective)
    (ts : List τ) : (d.extend ops ts).map f = (d.map f).extend ops (ts.map f) := by
  induction ops generalizing d ts with
  | nil => simp [extend]
  | cons op ops ih =>
    cases ts with
    | nil => simp [extend]
    | cons t ts => simp [extend, ih, Decision.map]

theorem Decision.ofTests?_map {τ υ : Type} (f : τ → υ) (ts : List τ) (ops : List Connective) :
    ofTests? (ts.map f) ops = (ofTests? ts ops).map (Decision.map f) := by
  cases ts with
  | nil => rfl
  | cons t ts =>
    simp only [List.map_cons, ofTests?, List.length_map]
    split
    · rw [Option.map_some, map_extend]
      rfl
    · rfl

/-- The test of a condition. -/
def testOf (c : Condition) : Test Emit (List Line) := ⟨c.op, Node.generateCondition template c⟩

theorem generateTests_eq_map (cs : List Condition) :
    Node.generateTests template cs = cs.map testOf := by
  induction cs with
  | nil => rfl
  | cons c cs ih => rw [Node.generateTests, ih, List.map_cons, testOf]

/-- The connective of which one side can decide that the whole comes out as expected. -/
def decisive (expected : Bool) : Junction := if expected then .or_ else .and_

/-- Jumps to the target if the decision comes out as expected. -/
def branchIf (expected : Bool) (target : Label) (d : Decision (Test Emit (List Line))) :
    Emit (List Line) :=
  if expected then branchTrue target d else branchFalse target d

theorem branchIf_test (expected : Bool) (target : Label) (t : Test Emit (List Line)) :
    branchIf expected target (.test t) = do
      return (← t.code) ++ [.branch (if expected then t.op else t.op.negate) target] := by
  cases expected <;> simp [branchIf, branchFalse, branchTrue]

theorem branchIf_direct (expected : Bool) (target : Label)
    (a b : Decision (Test Emit (List Line))) :
    branchIf expected target (.connect (.ofJunction (decisive expected)) a b) = do
      let first ← branchIf expected target a
      return first ++ (← branchIf expected target b) := by
  cases expected <;> simp [branchIf, branchFalse, branchTrue, decisive]

theorem branchIf_crossed {expected : Bool} {op : Connective}
    (h : op ≠ .ofJunction (decisive expected)) (target : Label)
    (a b : Decision (Test Emit (List Line))) :
    branchIf expected target (.connect op a b) = do
      let skip ← freshLabel
      let first ← branchIf (!expected) skip a
      let second ← branchIf expected target b
      return first ++ second ++ [.label skip] := by
  cases expected <;> simp_all [branchIf, branchFalse, branchTrue, decisive]

/-- The tests of a decision, from left to right. -/
def Decision.tests {τ : Type} : Decision τ → List τ
  | .test t => [t]
  | .connect _ lhs rhs => lhs.tests ++ rhs.tests

theorem Decision.tests_extend {τ : Type} (d : Decision τ) {ops : List Connective} {ts : List τ}
    (h : ops.length = ts.length) : (d.extend ops ts).tests = d.tests ++ ts := by
  induction ops generalizing d ts with
  | nil =>
    obtain rfl := List.length_eq_zero_iff.1 h.symm
    simp [extend]
  | cons op ops ih =>
    cases ts with
    | nil => cases h
    | cons t ts =>
      rw [extend, ih _ (by simpa using h)]
      simp [tests]

theorem Decision.tests_of_ofTests? {τ : Type} {ts : List τ} {ops : List Connective}
    {d : Decision τ} (h : ofTests? ts ops = some d) : d.tests = ts := by
  cases ts with
  | nil => cases h
  | cons t ts =>
    simp only [ofTests?] at h
    split at h
    · cases h
      exact tests_extend _ ‹_›
    · cases h

theorem Decision.isSome_ofTests? {τ : Type} (ts : List τ) (ops : List Connective) :
    (ofTests? ts ops).isSome = true ↔ ts.length = ops.length + 1 := by
  cases ts with
  | nil => simp [ofTests?]
  | cons t ts =>
    simp only [ofTests?, List.length_cons]
    split <;> simp_all [eq_comm]

end XtAsm.Listing
