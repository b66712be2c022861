import Mathlib.Data.List.Forall2
import XtAsm.Listing.Template
import XtAsm.Proofs.Node.Induction
import XtAsm.Proofs.Stateful.Action

/-!
# A template generator with a stack

A generator that keeps the exits of all loops around the node at hand on a stack.  Looking at the
stack, and picking the comparisons of a guard by their index, has a precondition.

* `Visitor`, `Visitor.template`: the stack, and the generator;
* `Follows`: an action on the stack does what an action below the innermost loop does;
* `exists_runs_ofProgram`: for every program the generator comes to an end, meets all preconditions,
  and makes the listing that `Listing.ofProgram` makes.
-/

namespace XtAsm.Listing

/-- The number of labels made up so far, the exits of the loops around the node at hand, innermost
last, and the first error, if any. -/
structure Visitor where
  labels : Nat
  exits : List Label
  error? : Option Error

namespace Visitor

/-- No labels, no loops and no error. -/
def initial : Visitor := ⟨0, [], none⟩

/-- A new label. -/
def freshLabel : Action Visitor Label := do
  let v ← get
  set { v with labels := v.labels + 1 }
  return .fresh (v.labels + 1)

/-- Notes an error, unless there was one before. -/
def fail (e : Error) : Action Visitor Unit :=
  modify fun v => { v with error? := v.error? <|> some e }

/-- The lines of several children. -/
def block : List (Action Visitor (List Line)) → Action Visitor (List Line)
  | [] => pure []
  | child :: children => do
    let lines ← child
    return lines ++ (← block children)

/-- The lines of a loop body, during which the exit of the loop is on the stack. -/
def loopBody (exit : Label) (body : List (Action Visitor (List Line))) :
    Action Visitor (List Line) := do
  modify fun v => { v with exits := v.exits ++ [exit] }
  let lines ← block body
  let v ← get
  let exits ← slice v.exits 0 ((v.exits.length : Int) - 1)
  set { v with exits }
  return lines

/-- A jump to the exit of the innermost loop. -/
def leave : Action Visitor (List Line) := do
  let v ← get
  if v.exits.length = 0 then
    fail .misplacedBreak
    return []
  else
    let exit ← element v.exits ((v.exits.length : Int) - 1)
    return [.jump exit]

/-! ### Conditions -/

/-- A tree of tests, or no tree at all. -/
inductive Tree (τ : Type)
  | absent
  | leaf (t : τ)
  | connect (op : Connective) (lhs rhs : Tree τ)

/-- A tree with further tests, of which the first one has the given index. -/
def extend {τ : Type} (tests : List τ) (tree : Tree τ) (index : Nat) :
    List Connective → Action Visitor (Tree τ)
  | [] => pure tree
  | op :: ops => do
    let t ← element tests index
    extend tests (.connect op tree (.leaf t)) (index + 1) ops

/-- The tree of tests with connectives between them; none if their numbers do not fit. -/
def chain {τ : Type} (tests : List τ) (ops : List Connective) : Action Visitor (Tree τ) := do
  if tests.length = 0 ∨ (ops.length : Int) ≠ (tests.length : Int) - 1 then
    fail (.malformedCondition tests.length ops.length)
    return .absent
  else
    let first ← element tests 0
    extend tests (.leaf first) 1 ops

mutual

/-- Jumps to the target if the tree comes out false.  Nothing has to be done for no tree. -/
def branchFalse (target : Label) : Tree (Test (Action Visitor) (List Line)) →
    Action Visitor (List Line)
  | .absent => pure []
  | .leaf t => do
    return (← t.code) ++ [.branch t.op.negate target]
  | .connect op lhs rhs =>
    if op = .ofJunction .and_ then do
      let first ← branchFalse target lhs
      return first ++ (← branchFalse target rhs)
    else do
      let pass ← freshLabel
      let first ← branchTrue pass lhs
      let second ← branchFalse target rhs
      return first ++ second ++ [.label pass]

/-- Jumps to the target if the tree comes out true.  The tree has to be there. -/
def branchTrue (target : Label) : Tree (Test (Action Visitor) (List Line)) →
    Action Visitor (List Line)
  | .absent => liftM (present (none : Option (List Line)))
  | .leaf t => do
    return (← t.code) ++ [.branch t.op target]
  | .connect op lhs rhs =>
    if op = .ofJunction .or_ then do
      let first ← branchTrue target lhs
      return first ++ (← branchTrue target rhs)
    else do
      let stop ← freshLabel
      let first ← branchFalse stop lhs
      let second ← branchTrue target rhs
      return first ++ second ++ [.label stop]

end

/-- The lines that test conditions and jump to the target unless they hold. -/
def guardLines (tests : List (Test (Action Visitor) (List Line))) (ops : List Connective)
    (target : Label) : Action Visitor (List Line) := do
  branchFalse target (← chain tests ops)

/-! ### The generator -/

/-- The template generator with a stack. -/
def template : Generator (Action Visitor) (List Line) where
  data declarations := do
    return .dataHead :: (← block declarations)
  code instructions := do
    return .codeHead :: (← block instructions)
  label name := pure [.label (.named name)]
  exit value := pure [.exit (render value)]
  assign op target source := pure [.assign op (render target) (render source)]
  leave := leave
  jump target := pure [.jump (.named target)]
  enum _ members := pure (members.map constantLine)
  whileLoop tests ops body := do
    let top ← freshLabel
    let done ← freshLabel
    let guardPart ← guardLines tests ops done
    let bodyPart ← loopBody done body
    return [.label top] ++ guardPart ++ bodyPart ++ [.jump top, .label done]
  forLoop counter limit increment body := do
    let top ← freshLabel
    let done ← freshLabel
    let counter ← counter
    let limit ← limit
    let bodyPart ← loopBody done body
    let increment ← increment
    return [.label top, .compare (render counter) (render limit),
        .branch (.ofRelation .ge) done] ++ bodyPart ++
      [.assign .add (render counter) (render increment), .jump top, .label done]
  loop body := do
    let top ← freshLabel
    let done ← freshLabel
    let bodyPart ← loopBody done body
    return [.label top] ++ bodyPart ++ [.jump top, .label done]
  choice tests ops thenBody elseBody := do
    let done ← freshLabel
    if elseBody.isEmpty then
      let guardPart ← guardLines tests ops done
      let thenPart ← block thenBody
      return guardPart ++ thenPart ++ [.label done]
    else
      let otherwise ← freshLabel
      let guardPart ← guardLines tests ops otherwise
      let thenPart ← block thenBody
      let elsePart ← block elseBody
      return guardPart ++ thenPart ++ [.jump done, .label otherwise] ++ elsePart ++ [.label done]
  compare _ lhs rhs := pure [.compare (render lhs) (render rhs)]
  var v := pure (variableLines v)
  operand t := bareLines t

/-- The listing of a program, or the first error. -/
def ofProgram (p : Program) : Action Visitor (Except Error Text) := do
  set initial
  let data ← (Node.data p.data).generate template
  let code ← (Node.code p.code).generate template
  match (← get).error? with
  | some e => return .error e
  | none => return .ok (render data ++ "\n" ++ render code ++ "\n")

/-! ### Agreement with the generator without a stack -/

/-- The stack of exits, with the labels and the error of some progress. -/
def withExits (exits : List Label) (p : Progress) : Visitor := ⟨p.labels, exits, p.error?⟩

/-- The action does what another one does below the innermost loop of the stack, and leaves the
stack as it was. -/
def Follows {α : Type} (x : Action Visitor α) (y : Emit α) : Prop :=
  ∀ exits p, Runs x (withExits exits p) (y exits.getLast? p).1
    (withExits exits (y exits.getLast? p).2)

section Follows

variable {α β : Type}

theorem follows_pure (a : α) : Follows (pure a) (pure a) := fun _ _ => runs_pure _ _

theorem Follows.bind {x : Action Visitor α} {y : Emit α} {f : α → Action Visitor β}
    {g : α → Emit β} (hx : Follows x y) (hf : ∀ a, Follows (f a) (g a)) :
    Follows (x >>= f) (y >>= g) := fun exits p => (hx exits p).bind (hf _ exits _)

theorem follows_freshLabel : Follows freshLabel Listing.freshLabel := fun _ _ =>
  (runs_get _).bind ((runs_set rfl _).bind (runs_pure _ _))

theorem follows_fail (e : Error) : Follows (fail e) (Listing.fail e) := fun _ _ => runs_modify rfl

theorem follows_block {xs : List (Action Visitor (List Line))} {ys : List (Emit (List Line))}
    (h : List.Forall₂ Follows xs ys) : Follows (block xs) (Listing.block ys) := by
  induction h with
  | nil => exact follows_pure _
  | cons hx _ ih => exact hx.bind fun _ => ih.bind fun _ => follows_pure _

/-- During the body of a loop its exit is the last one on the stack, and afterwards it is gone. -/
theorem follows_loopBody (exit : Label) {xs : List (Action Visitor (List Line))}
    {ys : List (Emit (List Line))} (h : List.Forall₂ Follows xs ys) :
    Follows (loopBody exit xs) (Listing.loopBody exit ys) := by
  intro exits p
  have inner := follows_block h (exits ++ [exit]) p
  rw [List.getLast?_concat] at inner
  have popped : slice (exits ++ [exit]) 0 (((exits ++ [exit]).length : Int) - 1) = .ok exits := by
    have := slice_append [] exits [exit] rfl rfl
    simpa using this
  exact (runs_modify rfl).bind (inner.bind ((runs_get _).bind ((runs_lift popped _).bind
    ((runs_set rfl _).bind (runs_pure _ _)))))

theorem follows_leave : Follows leave Listing.template.leave := by
  intro exits p
  obtain rfl | ⟨before, exit, rfl⟩ := List.eq_nil_or_concat' exits
  · exact (runs_get _).bind ((follows_fail .misplacedBreak [] p).bind (runs_pure _ _))
  · have last : element (before ++ [exit]) (((before ++ [exit]).length : Int) - 1) = .ok exit :=
      element_append before [] exit (by simp)
    refine (runs_get _).bind ?_
    rw [if_neg (by simp [withExits]), List.getLast?_concat]
    exact (runs_lift last _).bind (runs_pure _ _)

/-! ### Guards -/

/-- The tests compare alike, and their lines are made alike. -/
structure Tests (t : Test (Action Visitor) (List Line))
    (u : Test Emit (List Line)) : Prop where
  op_eq : t.op = u.op
  code : Follows t.code u.code

/-- A tree of tests that are alike. -/
inductive Mirrors : Tree (Test (Action Visitor) (List Line)) →
    Decision (Test Emit (List Line)) → Prop
  | leaf {t : Test (Action Visitor) (List Line)} {u : Test Emit (List Line)}
      (h : Tests t u) : Mirrors (.leaf t) (.test u)
  | connect {l r : Tree (Test (Action Visitor) (List Line))}
      {l' r' : Decision (Test Emit (List Line))} (op : Connective) (hl : Mirrors l l')
      (hr : Mirrors r r') : Mirrors (.connect op l r) (.connect op l' r')

theorem follows_branch {tree : Tree (Test (Action Visitor) (List Line))}
    {d : Decision (Test Emit (List Line))} (h : Mirrors tree d) (target : Label) :
    Follows (branchFalse target tree) (Listing.branchFalse target d) ∧
      Follows (branchTrue target tree) (Listing.branchTrue target d) := by
  induction h generalizing target with
  | leaf h =>
    rw [branchFalse, branchTrue, Listing.branchFalse, Listing.branchTrue, h.op_eq]
    exact ⟨h.code.bind fun _ => follows_pure _, h.code.bind fun _ => follows_pure _⟩
  | connect op hl hr ihl ihr =>
    rw [branchFalse, branchTrue, Listing.branchFalse, Listing.branchTrue]
    constructor
    · split
      · exact (ihl target).1.bind fun _ => (ihr target).1.bind fun _ => follows_pure _
      · exact follows_freshLabel.bind fun pass => (ihl pass).2.bind fun _ =>
          (ihr target).1.bind fun _ => follows_pure _
    · split
      · exact (ihl target).2.bind fun _ => (ihr target).2.bind fun _ => follows_pure _
      · exact follows_freshLabel.bind fun stop => (ihl stop).1.bind fun _ =>
          (ihr target).2.bind fun _ => follows_pure _

/-- Further tests are picked in order. -/
theorem exists_runs_extend (before : List (Test (Action Visitor) (List Line)))
    {ts : List (Test (Action Visitor) (List Line))} {us : List (Test Emit (List Line))}
    {tree : Tree (Test (Action Visitor) (List Line))} {d : Decision (Test Emit (List Line))}
    (h : Mirrors tree d) (hs : List.Forall₂ Tests ts us) {ops : List Connective}
    (fits : ops.length = ts.length) (v : Visitor) :
    ∃ tree', Runs (extend (before ++ ts) tree before.length ops) v tree' v ∧
      Mirrors tree' (d.extend ops us) := by
  induction hs generalizing before tree d ops with
  | nil =>
    obtain rfl := List.eq_nil_of_length_eq_zero fits
    exact ⟨tree, runs_pure _ _, h⟩
  | @cons t u ts us ht _ ih =>
    cases ops with
    | nil => cases fits
    | cons op ops =>
      have picked := element_append before ts t rfl
      obtain ⟨tree', ran, mirrors⟩ :=
        ih (before ++ [t]) (.connect op h (.leaf ht)) (Nat.succ.inj fits)
      rw [List.append_assoc, List.length_append] at ran
      exact ⟨tree', (runs_lift picked v).bind ran, mirrors⟩

/-- The lines of a guard are made alike, whether or not its connectives fit. -/
theorem follows_guardLines {ts : List (Test (Action Visitor) (List Line))}
    {us : List (Test Emit (List Line))} (h : List.Forall₂ Tests ts us) (ops : List Connective)
    (target : Label) : Follows (guardLines ts ops target) (Listing.guardLines us ops target) := by
  have fails : Decision.ofTests? us ops = none → (ts.length = 0 ∨
      (ops.length : Int) ≠ (ts.length : Int) - 1) →
      Follows (guardLines ts ops target) (Listing.guardLines us ops target) := by
    intro none unfit
    rw [guardLines, Listing.guardLines, none, chain, if_pos unfit, h.length_eq]
    simp only [bind_assoc, pure_bind]
    exact (follows_fail _).bind fun _ => follows_pure _
  cases h with
  | nil => exact fails rfl (.inl rfl)
  | @cons t u ts us ht hs =>
    by_cases fits : ops.length = ts.length
    · intro exits p
      obtain ⟨tree, ran, mirrors⟩ := exists_runs_extend [t] (.leaf ht) hs fits (withExits exits p)
      have picked : element (t :: ts) 0 = .ok t := element_append [] ts t rfl
      have chained : Runs (chain (t :: ts) ops) (withExits exits p) tree (withExits exits p) := by
        rw [chain, if_neg (by simp [fits])]
        exact (runs_lift picked _).bind ran
      rw [Listing.guardLines, Decision.ofTests?, if_pos (fits.trans hs.length_eq)]
      exact chained.bind ((follows_branch mirrors target).1 exits p)
    · refine fails (if_neg (hs.length_eq ▸ fits)) (.inr ?_)
      simp only [List.length_cons]
      omega

/-! ### Nodes -/

theorem follows_generateAll {ns : List Node}
    (h : ∀ n ∈ ns, Follows (n.generate template) (n.generate Listing.template)) :
    List.Forall₂ Follows (Node.generateAll template ns) (Node.generateAll Listing.template ns) := by
  induction ns with
  | nil =>
    rw [Node.generateAll, Node.generateAll]
    exact .nil
  | cons n ns ih =>
    rw [Node.generateAll, Node.generateAll]
    exact .cons (h n List.mem_cons_self) (ih fun m hm => h m (List.mem_cons_of_mem n hm))

theorem follows_generateCondition {c : Condition}
    (hl : Follows (c.lhs.generate template) (c.lhs.generate Listing.template))
    (hr : Follows (c.rhs.generate template) (c.rhs.generate Listing.template)) :
    Follows (Node.generateCondition template c) (Node.generateCondition Listing.template c) := by
  obtain ⟨op, lhs, rhs⟩ := c
  rw [Node.generateCondition, Node.generateCondition]
  exact hl.bind fun _ => hr.bind fun _ => follows_pure _

theorem tests_generateTests {cs : List Condition}
    (h : ∀ c ∈ cs, Follows (c.lhs.generate template) (c.lhs.generate Listing.template) ∧
      Follows (c.rhs.generate template) (c.rhs.generate Listing.template)) :
    List.Forall₂ Tests (Node.generateTests template cs)
      (Node.generateTests Listing.template cs) := by
  induction cs with
  | nil =>
    rw [Node.generateTests, Node.generateTests]
    exact .nil
  | cons c cs ih =>
    rw [Node.generateTests, Node.generateTests]
    have hc := h c List.mem_cons_self
    exact .cons ⟨rfl, follows_generateCondition hc.1 hc.2⟩
      (ih fun d hd => h d (List.mem_cons_of_mem c hd))

/-- Whatever the node is, the two generators make the same of it. -/
theorem follows_generate (n : Node) :
    Follows (n.generate template) (n.generate Listing.template) := by
  induction n using Node.induction with
  | data declarations h | code instructions h =>
    rw [Node.generate, Node.generate]
    exact (follows_block (follows_generateAll h)).bind fun _ => follows_pure _
  | label name | jump target | enum name members | var v | register name | literal value =>
    rw [Node.generate, Node.generate]
    exact follows_pure _
  | exit value h =>
    rw [Node.generate, Node.generate]
    exact h.bind fun _ => follows_pure _
  | assign op target source ht hs =>
    rw [Node.generate, Node.generate]
    exact ht.bind fun _ => hs.bind fun _ => follows_pure _
  | leave =>
    rw [Node.generate, Node.generate]
    exact follows_leave
  | whileLoop conds ops body hc hb =>
    rw [Node.generate, Node.generate]
    exact follows_freshLabel.bind fun top => follows_freshLabel.bind fun done =>
      (follows_guardLines (tests_generateTests hc) ops done).bind fun _ =>
        (follows_loopBody done (follows_generateAll hb)).bind fun _ => follows_pure _
  | forLoop counter limit increment body hc hl hi hb =>
    rw [Node.generate, Node.generate]
    exact follows_freshLabel.bind fun top => follows_freshLabel.bind fun done =>
      hc.bind fun _ => hl.bind fun _ =>
        (follows_loopBody done (follows_generateAll hb)).bind fun _ => hi.bind fun _ =>
          follows_pure _
  | loop body hb =>
    rw [Node.generate, Node.generate]
    exact follows_freshLabel.bind fun top => follows_freshLabel.bind fun done =>
      (follows_loopBody done (follows_generateAll hb)).bind fun _ => follows_pure _
  | choice conds ops thenBody elseBody hc ht he =>
    rw [Node.generate, Node.generate]
    have tests := tests_generateTests hc
    have same : (Node.generateAll template elseBody).isEmpty =
        (Node.generateAll Listing.template elseBody).isEmpty := by
      cases elseBody <;> simp [Node.generateAll]
    refine follows_freshLabel.bind fun done => ?_
    rw [same]
    split
    · exact (follows_guardLines tests ops done).bind fun _ =>
        (follows_block (follows_generateAll ht)).bind fun _ => follows_pure _
    · exact follows_freshLabel.bind fun otherwise =>
        (follows_guardLines tests ops otherwise).bind fun _ =>
          (follows_block (follows_generateAll ht)).bind fun _ =>
            (follows_block (follows_generateAll he)).bind fun _ => follows_pure _
  | condition c hl hr =>
    rw [Node.generate, Node.generate]
    exact follows_generateCondition hl hr

/-- Outside of all loops. -/
theorem runs_compile (n : Node) (p : Progress) :
    Runs (n.generate template) (withExits [] p) (compile n p).1 (withExits [] (compile n p).2) :=
  follows_generate n [] p

/-- Whatever the stack holds, the generator comes to an end, meets all preconditions, and makes the
listing of the program or finds its first error. -/
theorem exists_runs_ofProgram (v : Visitor) (p : Program) :
    ∃ v', Runs (ofProgram p) v (Listing.ofProgram p) v' := by
  have data := runs_compile (.data p.data) .initial
  have code := runs_compile (.code p.code) (compile (.data p.data) .initial).2
  have listing : Listing.ofProgram p =
      match (compile (.code p.code) (compile (.data p.data) .initial).2).2.error? with
      | some e => .error e
      | none => .ok (render (compile (.data p.data) .initial).1 ++ Text.ofString "\n" ++
          render (compile (.code p.code) (compile (.data p.data) .initial).2).1 ++
          Text.ofString "\n") := rfl
  refine ⟨withExits [] (compile (.code p.code) (compile (.data p.data) .initial).2).2,
    (runs_set rfl v).bind (data.bind (code.bind ((runs_get _).bind ?_)))⟩
  rw [listing]
  show Runs (match (compile (.code p.code) (compile (.data p.data) .initial).2).2.error? with
    | some e => pure (Except.error e)
    | none => pure (Except.ok _)) _ _ _
  split <;> exact runs_pure _ _

end Follows

end Visitor

end XtAsm.Listing
