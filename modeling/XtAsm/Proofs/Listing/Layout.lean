import XtAsm.Proofs.Listing.Emission
import XtAsm.Proofs.Node.Induction
import XtAsm.Proofs.Node.Visit

/-!
# The layout of listings

The lines of any tree of nodes are described without reference to the generator: which comparisons,
jumps and labels stand where, whatever the numbers of the labels are.

* `Comparison`, `Branching`: the lines that jump to a label if comparisons come out as expected;
* `Lays`, `LaysAll`, `LaysGuard`: the lines of nodes, and the numbers of all labels within them;
* `defect?`: the error that a node is;
* `Advances`: progress that makes up labels and notes the first error of some visits;
* `yields_generate`: the generator emits such lines for every node, with fresh labels, and notes the
  first error of its visits;
* `freshLabels`, `exists_lines`: how many labels a program takes, and what comes of it.
-/

namespace XtAsm

namespace Listing

open Node

/-! ### Lines -/

/-- A comparison as it is emitted: its sign, the texts of its operands, and the numbers of the
labels within them. -/
structure Comparison where
  op : Comparator
  lhs : Text
  rhs : Text
  labels : List Nat

/-- The lines that jump to a label if comparisons come out as expected, and go on otherwise; and the
numbers of the labels that they place. -/
inductive Branching : Bool → Label → Decision Comparison → List Line → List Nat → Prop
  | test {expected : Bool} {target : Label} {c : Comparison} :
      Branching expected target (.test c)
        [.compare c.lhs c.rhs, .branch (if expected then c.op else c.op.negate) target] c.labels
  | direct {expected : Bool} {target : Label} {a b : Decision Comparison} {as bs : List Line}
      {ns ms : List Nat} (ha : Branching expected target a as ns)
      (hb : Branching expected target b bs ms) :
      Branching expected target (.connect (.ofJunction (decisive expected)) a b) (as ++ bs)
        (ns ++ ms)
  /-- The first side is skipped to the end if it decides against the expectation. -/
  | crossed {expected : Bool} {target : Label} {skip : Nat} {op : Connective}
      {a b : Decision Comparison} {as bs : List Line} {ns ms : List Nat}
      (h : op ≠ .ofJunction (decisive expected)) (ha : Branching (!expected) (.fresh skip) a as ns)
      (hb : Branching expected target b bs ms) :
      Branching expected target (.connect op a b) (as ++ bs ++ [.label (.fresh skip)])
        (ns ++ ms ++ [skip])

mutual

/-- The lines of a node, given the label after the innermost loop whose body it lies in, and the
numbers of the labels that they place.  A `break` outside of all loops has no lines. -/
inductive Lays : Option Label → Node → List Line → List Nat → Prop
  | data {exit? : Option Label} {declarations : List Node} {ls : List Line} {ns : List Nat}
      (h : LaysAll exit? declarations ls ns) : Lays exit? (.data declarations) (.dataHead :: ls) ns
  | code {exit? : Option Label} {instructions : List Node} {ls : List Line} {ns : List Nat}
      (h : LaysAll exit? instructions ls ns) : Lays exit? (.code instructions) (.codeHead :: ls) ns
  | label {exit? : Option Label} {name : Text} :
      Lays exit? (.label name) [.label (.named name)] []
  | exit {exit? : Option Label} {value : Node} {ls : List Line} {ns : List Nat}
      (h : Lays exit? value ls ns) : Lays exit? (.exit value) [.exit (render ls)] ns
  | assign {exit? : Option Label} {op : Mnemonic} {target source : Node} {ts ss : List Line}
      {ns ms : List Nat} (ht : Lays exit? target ts ns) (hs : Lays exit? source ss ms) :
      Lays exit? (.assign op target source) [.assign op (render ts) (render ss)] (ns ++ ms)
  | leave {done : Label} : Lays (some done) .leave [.jump done] []
  | stray : Lays none .leave [] []
  | jump {exit? : Option Label} {target : Text} :
      Lays exit? (.jump target) [.jump (.named target)] []
  | enum {exit? : Option Label} {name : Text} {members : List Variable} :
      Lays exit? (.enum name members) (members.map constantLine) []
  | whileLoop {exit? : Option Label} {cs : List Condition} {ops : List Connective}
      {body : List Node} {top done : Nat} {gs bs : List Line} {ns ms : List Nat}
      (hg : LaysGuard exit? (.fresh done) cs ops gs ns)
      (hb : LaysAll (some (.fresh done)) body bs ms) :
      Lays exit? (.whileLoop cs ops body)
        ([.label (.fresh top)] ++ gs ++ bs ++ [.jump (.fresh top), .label (.fresh done)])
        (top :: (ns ++ ms ++ [done]))
  | forLoop {exit? : Option Label} {counter limit increment : Node} {body : List Node}
      {top done : Nat} {cs ls bs is : List Line} {ks ns ms js : List Nat}
      (hc : Lays exit? counter cs ks) (hl : Lays exit? limit ls ns)
      (hb : LaysAll (some (.fresh done)) body bs ms) (hi : Lays exit? increment is js) :
      Lays exit? (.forLoop counter limit increment body)
        ([.label (.fresh top), .compare (render cs) (render ls),
            .branch (.ofRelation .ge) (.fresh done)] ++ bs ++
          [.assign .add (render cs) (render is), .jump (.fresh top), .label (.fresh done)])
        (top :: (ks ++ ns ++ ms ++ js ++ [done]))
  | loop {exit? : Option Label} {body : List Node} {top done : Nat} {bs : List Line}
      {ns : List Nat} (hb : LaysAll (some (.fresh done)) body bs ns) :
      Lays exit? (.loop body)
        ([.label (.fresh top)] ++ bs ++ [.jump (.fresh top), .label (.fresh done)])
        (top :: (ns ++ [done]))
  | choice {exit? : Option Label} {cs : List Condition} {ops : List Connective}
      {thenBody : List Node} {done : Nat} {gs ts : List Line} {ns ms : List Nat}
      (hg : LaysGuard exit? (.fresh done) cs ops gs ns) (ht : LaysAll exit? thenBody ts ms) :
      Lays exit? (.choice cs ops thenBody []) (gs ++ ts ++ [.label (.fresh done)])
        (ns ++ ms ++ [done])
  | choiceElse {exit? : Option Label} {cs : List Condition} {ops : List Connective}
      {thenBody elseBody : List Node} {done otherwise : Nat} {gs ts es : List Line}
      {ns ms ks : List Nat} (h : elseBody ≠ [])
      (hg : LaysGuard exit? (.fresh otherwise) cs ops gs ns) (ht : LaysAll exit? thenBody ts ms)
      (he : LaysAll exit? elseBody es ks) :
      Lays exit? (.choice cs ops thenBody elseBody)
        (gs ++ ts ++ [.jump (.fresh done), .label (.fresh otherwise)] ++ es ++
          [.label (.fresh done)])
        (ns ++ ms ++ [otherwise] ++ ks ++ [done])
  | condition {exit? : Option Label} {op : Comparator} {lhs rhs : Node} {ls rs : List Line}
      {ns ms : List Nat} (hl : Lays exit? lhs ls ns) (hr : Lays exit? rhs rs ms) :
      Lays exit? (.condition (.mk op lhs rhs)) [.compare (render ls) (render rs)] (ns ++ ms)
  | var {exit? : Option Label} {v : Variable} : Lays exit? (.var v) (variableLines v) []
  | register {exit? : Option Label} {name : Text} : Lays exit? (.register name) (bareLines name) []
  | literal {exit? : Option Label} {value : Text} : Lays exit? (.literal value) (bareLines value) []

/-- The lines of several nodes. -/
inductive LaysAll : Option Label → List Node → List Line → List Nat → Prop
  | nil {exit? : Option Label} : LaysAll exit? [] [] []
  | cons {exit? : Option Label} {n : Node} {ns : List Node} {ls ms : List Line} {ks js : List Nat}
      (h : Lays exit? n ls ks) (hs : LaysAll exit? ns ms js) :
      LaysAll exit? (n :: ns) (ls ++ ms) (ks ++ js)

/-- The comparisons of conditions, in the same places. -/
inductive LaysDecision : Option Label → Decision Condition → Decision Comparison → Prop
  | test {exit? : Option Label} {op : Comparator} {lhs rhs : Node} {ls rs : List Line}
      {ns ms : List Nat} (hl : Lays exit? lhs ls ns) (hr : Lays exit? rhs rs ms) :
      LaysDecision exit? (.test (.mk op lhs rhs)) (.test ⟨op, render ls, render rs, ns ++ ms⟩)
  | connect {exit? : Option Label} {op : Connective} {a b : Decision Condition}
      {a' b' : Decision Comparison} (ha : LaysDecision exit? a a') (hb : LaysDecision exit? b b') :
      LaysDecision exit? (.connect op a b) (.connect op a' b')

/-- The lines that jump to a label unless conditions hold.  Conditions that the connectives do not
fit have no lines. -/
inductive LaysGuard : Option Label → Label → List Condition → List Connective → List Line →
    List Nat → Prop
  | chain {exit? : Option Label} {target : Label} {cs : List Condition} {ops : List Connective}
      {d : Decision Condition} {d' : Decision Comparison} {gs : List Line} {ns : List Nat}
      (hd : Decision.ofTests? cs ops = some d) (ht : LaysDecision exit? d d')
      (hg : Branching false target d' gs ns) : LaysGuard exit? target cs ops gs ns
  | unmatched {exit? : Option Label} {target : Label} {cs : List Condition}
      {ops : List Connective} (h : ¬ Guard.IsMatched ⟨cs.length, ops.length⟩) :
      LaysGuard exit? target cs ops [] []

end

/-! ### Errors -/

/-- What is wrong with the guard of a loop or a choice. -/
def guardDefect? (cs : List Condition) (ops : List Connective) : Option Error :=
  if Guard.IsMatched ⟨cs.length, ops.length⟩ then none
  else some (.malformedCondition cs.length ops.length)

/-- What is wrong with a node where it is visited. -/
def defect? (v : Visit) : Option Error :=
  match v.node with
  | .leave => if v.inLoop then none else some .misplacedBreak
  | .whileLoop conds ops _ | .choice conds ops _ _ => guardDefect? conds ops
  | _ => none

/-- A complaint is the description of an error. -/
theorem complaint?_eq (v : Visit) : v.complaint? = (defect? v).map Error.message := by
  obtain ⟨inLoop, n⟩ := v
  cases n with
  | leave => cases inLoop <;> rfl
  | whileLoop | choice =>
    simp only [Visit.complaint?, defect?, guardDefect?]
    split <;> rfl
  | _ => rfl

/-- From one state of progress to another, labels with the given numbers are made up, and the first
error of the given visits is noted, unless there was one before. -/
structure Advances (p q : Progress) (ns : List Nat) (vs : List Visit) : Prop where
  fresh : Fresh p.labels q.labels ns
  noted : q.error? = p.error?.or (vs.findSome? defect?)

namespace Advances

variable {p q r : Progress} {ns ms : List Nat} {vs ws : List Visit}

theorem refl : Advances p p [] [] := ⟨.nil, by simp⟩

theorem freshLabel : Advances p { p with labels := p.labels + 1 } [p.labels + 1] [] :=
  ⟨Fresh.nil.cons, by simp⟩

theorem trans (h : Advances p q ns vs) (h' : Advances q r ms ws) :
    Advances p r (ns ++ ms) (vs ++ ws) := by
  refine ⟨h.fresh.append h'.fresh, ?_⟩
  rw [h'.noted, h.noted, Option.or_assoc, List.findSome?_append]

/-- A node that is no error is visited before others. -/
theorem visit {v : Visit} (h : Advances p q ns vs) (sound : defect? v = none) :
    Advances p q ns (v :: vs) :=
  ⟨h.fresh, by rw [h.noted, List.findSome?_cons, sound]⟩

/-- A node that is an error. -/
theorem fail {v : Visit} {e : Error} (h : defect? v = some e) :
    Advances p { p with error? := p.error? <|> some e } [] [v] :=
  ⟨.nil, by simp [h, Option.orElse_eq_or]⟩

/-- The order in which labels are placed does not matter. -/
theorem perm (h : Advances p q ns vs) (same : ns.Perm ms) : Advances p q ms vs :=
  ⟨h.fresh.perm same, h.noted⟩

end Advances

/-! ### Emission -/

/-- The action emits lines with the given property, whose labels are fresh, and notes the first
error of the given visits. -/
def Yields (x : Emit (List Line)) (exit? : Option Label) (p : Progress) (vs : List Visit)
    (R : List Line → List Nat → Prop) : Prop :=
  ∃ ls ns q, Emits x exit? p ls q ∧ R ls ns ∧ Advances p q ns vs

/-- The generator emits the lines of the node, from every state of progress. -/
def IsLaid (exit? : Option Label) (n : Node) : Prop :=
  ∀ p, Yields (n.generate template) exit? p (n.visits exit?.isSome) (Lays exit? n)

variable {exit? : Option Label}

/-- The lines of nodes, from the lines of each. -/
theorem yields_block {ns : List Node} (h : ∀ n ∈ ns, IsLaid exit? n) (p : Progress) :
    Yields (block (Node.generateAll template ns)) exit? p (visitsAll exit?.isSome ns)
      (LaysAll exit? ns) := by
  induction ns generalizing p with
  | nil => exact ⟨_, _, _, .pure, .nil, .refl⟩
  | cons n ns ih =>
    rw [List.forall_mem_cons] at h
    obtain ⟨ls, ks, q, emits, lays, advances⟩ := h.1 p
    obtain ⟨ms, js, r, emitsAll, laysAll, advancesAll⟩ := ih h.2 q
    exact ⟨_, _, r, .bind emits (.bind emitsAll .pure), .cons lays laysAll,
      advances.trans advancesAll⟩

/-- The lines of a loop body, whatever loop is around the loop. -/
theorem yields_loopBody {ns : List Node} {done : Label} (h : ∀ n ∈ ns, IsLaid (some done) n)
    (p : Progress) :
    Yields (loopBody done (Node.generateAll template ns)) exit? p (visitsAll true ns)
      (LaysAll (some done) ns) :=
  yields_block h p

/-- The line that compares two operands. -/
theorem yields_condition {c : Condition} (hl : IsLaid exit? c.lhs) (hr : IsLaid exit? c.rhs)
    (p : Progress) :
    Yields (Node.generateCondition template c) exit? p (visitsIn exit?.isSome c) fun ls ns =>
      ∃ c', LaysDecision exit? (.test c) (.test c') ∧ c'.op = c.op ∧
        ls = [.compare c'.lhs c'.rhs] ∧ ns = c'.labels := by
  obtain ⟨op, lhs, rhs⟩ := c
  obtain ⟨ls, ns, q, emitsLeft, left, advancesLeft⟩ := hl p
  obtain ⟨rs, ms, r, emitsRight, right, advancesRight⟩ := hr q
  exact ⟨_, _, r, .bind emitsLeft (.bind emitsRight .pure), ⟨_, .test left right, rfl, rfl, rfl⟩,
    advancesLeft.trans advancesRight⟩

theorem visitsOf_append (inLoop : Bool) (cs ds : List Condition) :
    visitsOf inLoop (cs ++ ds) = visitsOf inLoop cs ++ visitsOf inLoop ds := by
  induction cs with
  | nil => rfl
  | cons c cs ih => rw [List.cons_append, visitsOf, visitsOf, ih, List.append_assoc]

/-- The lines of a decision, whatever is expected of it. -/
theorem yields_branchIf {d : Decision Condition}
    (h : ∀ c ∈ d.tests, IsLaid exit? c.lhs ∧ IsLaid exit? c.rhs) (expected : Bool)
    (target : Label) (p : Progress) :
    Yields (branchIf expected target (d.map testOf)) exit? p (visitsOf exit?.isSome d.tests)
      fun ls ns => ∃ d', LaysDecision exit? d d' ∧ Branching expected target d' ls ns := by
  induction d generalizing expected target p with
  | test c =>
    rw [Decision.tests, List.forall_mem_singleton] at h
    obtain ⟨ls, ns, q, emits, ⟨c', lays, op, rfl, rfl⟩, advances⟩ := yields_condition h.1 h.2 p
    rw [Decision.map, branchIf_test, Decision.tests, visitsOf, visitsOf, List.append_nil]
    refine ⟨_, _, q, .bind emits .pure, ⟨.test c', lays, ?_⟩, advances⟩
    rw [testOf, ← op]
    exact .test
  | connect op a b iha ihb =>
    rw [Decision.tests, List.forall_mem_append] at h
    rw [Decision.map, Decision.tests, visitsOf_append]
    by_cases direct : op = .ofJunction (decisive expected)
    · subst direct
      rw [branchIf_direct]
      obtain ⟨as, ns, q, emitsA, ⟨a', laysA, branchingA⟩, advancesA⟩ := iha h.1 expected target p
      obtain ⟨bs, ms, r, emitsB, ⟨b', laysB, branchingB⟩, advancesB⟩ := ihb h.2 expected target q
      exact ⟨_, _, r, .bind emitsA (.bind emitsB .pure),
        ⟨_, .connect laysA laysB, .direct branchingA branchingB⟩, advancesA.trans advancesB⟩
    · -- the first side jumps over the second one if it decides against the expectation
      rw [branchIf_crossed direct]
      obtain ⟨as, ns, q, emitsA, ⟨a', laysA, branchingA⟩, advancesA⟩ :=
        iha h.1 (!expected) (.fresh (p.labels + 1)) { p with labels := p.labels + 1 }
      obtain ⟨bs, ms, r, emitsB, ⟨b', laysB, branchingB⟩, advancesB⟩ := ihb h.2 expected target q
      refine ⟨_, _, r, .bind .freshLabel (.bind emitsA (.bind emitsB .pure)),
        ⟨_, .connect laysA laysB, .crossed direct branchingA branchingB⟩, ?_⟩
      exact (Advances.freshLabel.trans (advancesA.trans advancesB)).perm
        (List.perm_append_singleton _ _).symm

theorem ofTests?_testOf (cs : List Condition) (ops : List Connective) :
    Decision.ofTests? (Node.generateTests template cs) ops =
      (Decision.ofTests? cs ops).map (Decision.map testOf) := by
  rw [generateTests_eq_map, Decision.ofTests?_map]

/-- The lines that skip a body unless its conditions hold. -/
theorem yields_guardLines {cs : List Condition}
    (h : ∀ c ∈ cs, IsLaid exit? c.lhs ∧ IsLaid exit? c.rhs) {ops : List Connective} {v : Visit}
    (hv : defect? v = guardDefect? cs ops) (target : Label) (p : Progress) :
    Yields (guardLines (Node.generateTests template cs) ops target) exit? p
      (v :: if Guard.IsMatched ⟨cs.length, ops.length⟩ then visitsOf exit?.isSome cs else [])
      (LaysGuard exit? target cs ops) := by
  rw [guardLines, ofTests?_testOf]
  have fits := Decision.isSome_ofTests? cs ops
  by_cases matched : Guard.IsMatched ⟨cs.length, ops.length⟩
  · obtain ⟨d, tests⟩ := Option.isSome_iff_exists.1 (fits.2 matched)
    rw [guardDefect?, if_pos matched] at hv
    rw [if_pos matched, tests]
    have same := Decision.tests_of_ofTests? tests
    rw [← same] at h
    obtain ⟨ls, ns, q, emits, ⟨d', lays, branching⟩, advances⟩ := yields_branchIf h false target p
    rw [same] at advances
    exact ⟨ls, ns, q, emits, .chain tests lays branching, advances.visit hv⟩
  · have unfit : Decision.ofTests? cs ops = none :=
      Option.not_isSome_iff_eq_none.1 (mt fits.1 matched)
    rw [guardDefect?, if_neg matched] at hv
    rw [if_neg matched, unfit]
    refine ⟨_, _, _, .bind rfl .pure, .unmatched matched, ?_⟩
    rw [generateTests_eq_map, List.length_map]
    exact .fail hv

namespace IsLaid

theorem leave : IsLaid exit? .leave := fun p => by
  cases exit? with
  | none => exact ⟨_, _, _, .bind .read (.bind rfl .pure), .stray, .fail rfl⟩
  | some done => exact ⟨_, _, _, .bind .read .pure, .leave, Advances.refl.visit rfl⟩

theorem exit {value : Node} (h : IsLaid exit? value) : IsLaid exit? (.exit value) := fun p => by
  obtain ⟨ls, ns, q, emits, lays, advances⟩ := h p
  exact ⟨_, _, q, .bind emits .pure, .exit lays, advances.visit rfl⟩

theorem assign {op : Mnemonic} {target source : Node} (ht : IsLaid exit? target)
    (hs : IsLaid exit? source) : IsLaid exit? (.assign op target source) := fun p => by
  obtain ⟨ts, ns, q, emitsTarget, laysTarget, advancesTarget⟩ := ht p
  obtain ⟨ss, ms, r, emitsSource, laysSource, advancesSource⟩ := hs q
  exact ⟨_, _, r, .bind emitsTarget (.bind emitsSource .pure), .assign laysTarget laysSource,
    (advancesTarget.trans advancesSource).visit rfl⟩

theorem condition {c : Condition} (hl : IsLaid exit? c.lhs) (hr : IsLaid exit? c.rhs) :
    IsLaid exit? (.condition c) := fun p => by
  obtain ⟨_, _, q, emits, ⟨c', lays, -, rfl, rfl⟩, advances⟩ := yields_condition hl hr p
  cases lays with
  | test left right => exact ⟨_, _, q, emits, .condition left right, advances.visit rfl⟩

theorem loop {body : List Node} (hb : ∀ done, ∀ n ∈ body, IsLaid (some done) n) :
    IsLaid exit? (.loop body) := fun p => by
  obtain ⟨bs, ns, q, emits, lays, advances⟩ :=
    yields_loopBody (hb (.fresh (p.labels + 2))) { p with labels := p.labels + 2 }
  refine ⟨_, _, q, .bind .freshLabel (.bind .freshLabel (.bind emits .pure)), .loop lays, ?_⟩
  exact ((Advances.freshLabel.trans (Advances.freshLabel.trans advances)).perm
    ((List.perm_append_singleton _ _).symm.cons _)).visit rfl

theorem whileLoop {cs : List Condition} {ops : List Connective} {body : List Node}
    (hc : ∀ c ∈ cs, IsLaid exit? c.lhs ∧ IsLaid exit? c.rhs)
    (hb : ∀ done, ∀ n ∈ body, IsLaid (some done) n) :
    IsLaid exit? (.whileLoop cs ops body) := fun p => by
  have sound : defect? ⟨exit?.isSome, .whileLoop cs ops body⟩ = guardDefect? cs ops := rfl
  obtain ⟨gs, ns, q, emitsGuard, laysGuard, advancesGuard⟩ :=
    yields_guardLines hc sound (.fresh (p.labels + 2)) { p with labels := p.labels + 2 }
  obtain ⟨bs, ms, r, emits, lays, advances⟩ := yields_loopBody (hb (.fresh (p.labels + 2))) q
  refine ⟨_, _, r, .bind .freshLabel (.bind .freshLabel (.bind emitsGuard (.bind emits .pure))),
    .whileLoop laysGuard lays, ?_⟩
  exact (Advances.freshLabel.trans (Advances.freshLabel.trans (advancesGuard.trans advances))).perm
    ((List.perm_append_singleton _ _).symm.cons _)

theorem forLoop {counter limit increment : Node} {body : List Node} (hc : IsLaid exit? counter)
    (hl : IsLaid exit? limit) (hi : IsLaid exit? increment)
    (hb : ∀ done, ∀ n ∈ body, IsLaid (some done) n) :
    IsLaid exit? (.forLoop counter limit increment body) := fun p => by
  obtain ⟨cs, ks, q, emitsCounter, laysCounter, advancesCounter⟩ :=
    hc { p with labels := p.labels + 2 }
  obtain ⟨ls, ns, r, emitsLimit, laysLimit, advancesLimit⟩ := hl q
  obtain ⟨bs, ms, s, emits, lays, advances⟩ := yields_loopBody (hb (.fresh (p.labels + 2))) r
  obtain ⟨is, js, t, emitsIncrement, laysIncrement, advancesIncrement⟩ := hi s
  refine ⟨_, _, t, .bind .freshLabel (.bind .freshLabel (.bind emitsCounter (.bind emitsLimit
    (.bind emits (.bind emitsIncrement .pure))))),
    .forLoop laysCounter laysLimit lays laysIncrement, ?_⟩
  have parts := ((advancesCounter.trans advancesLimit).trans advances).trans advancesIncrement
  exact ((Advances.freshLabel.trans (Advances.freshLabel.trans parts)).perm
    ((List.perm_append_singleton _ _).symm.cons _)).visit rfl

theorem choice {cs : List Condition} {ops : List Connective} {thenBody elseBody : List Node}
    (hc : ∀ c ∈ cs, IsLaid exit? c.lhs ∧ IsLaid exit? c.rhs)
    (ht : ∀ n ∈ thenBody, IsLaid exit? n) (he : ∀ n ∈ elseBody, IsLaid exit? n) :
    IsLaid exit? (.choice cs ops thenBody elseBody) := fun p => by
  have sound : defect? ⟨exit?.isSome, .choice cs ops thenBody elseBody⟩ = guardDefect? cs ops := rfl
  have guard := yields_guardLines hc sound
  cases elseBody with
  | nil =>
    obtain ⟨gs, ns, q, emitsGuard, laysGuard, advancesGuard⟩ :=
      guard (.fresh (p.labels + 1)) { p with labels := p.labels + 1 }
    obtain ⟨ts, ms, r, emits, lays, advances⟩ := yields_block ht q
    refine ⟨_, _, r, .bind .freshLabel (.bind emitsGuard (.bind emits .pure)),
      .choice laysGuard lays, ?_⟩
    rw [visits, visitsAll, List.append_nil]
    exact (Advances.freshLabel.trans (advancesGuard.trans advances)).perm
      (List.perm_append_singleton _ _).symm
  | cons n es =>
    obtain ⟨gs, ns, q, emitsGuard, laysGuard, advancesGuard⟩ :=
      guard (.fresh (p.labels + 2)) { p with labels := p.labels + 2 }
    obtain ⟨ts, ms, r, emitsThen, laysThen, advancesThen⟩ := yields_block ht q
    obtain ⟨es, ks, s, emitsElse, laysElse, advancesElse⟩ := yields_block he r
    refine ⟨_, _, s, .bind .freshLabel (.bind .freshLabel (.bind emitsGuard (.bind emitsThen
      (.bind emitsElse .pure)))), .choiceElse (by simp) laysGuard laysThen laysElse, ?_⟩
    -- the labels are numbered in the order `done`, `otherwise`, but placed the other way round
    have parts := (advancesGuard.trans advancesThen).trans advancesElse
    have placed : ((p.labels + 2) :: (ns ++ ms ++ ks)).Perm (ns ++ ms ++ [p.labels + 2] ++ ks) := by
      rw [List.append_assoc _ [p.labels + 2]]
      exact List.perm_middle.symm
    exact (Advances.freshLabel.trans ((Advances.freshLabel.trans parts).perm placed)).perm
      (List.perm_append_singleton _ _).symm

end IsLaid

/-- The generator emits the lines of every node. -/
theorem isLaid (exit? : Option Label) (n : Node) : IsLaid exit? n := by
  induction n using Node.induction generalizing exit? with
  | data declarations ih =>
    intro p
    obtain ⟨ls, ns, q, emits, lays, advances⟩ := yields_block (fun n hn => ih n hn exit?) p
    exact ⟨_, _, q, .bind emits .pure, .data lays, advances.visit rfl⟩
  | code instructions ih =>
    intro p
    obtain ⟨ls, ns, q, emits, lays, advances⟩ := yields_block (fun n hn => ih n hn exit?) p
    exact ⟨_, _, q, .bind emits .pure, .code lays, advances.visit rfl⟩
  | label => exact fun p => ⟨_, _, _, .pure, .label, Advances.refl.visit rfl⟩
  | exit value ih => exact .exit (ih exit?)
  | assign op target source iht ihs => exact .assign (iht exit?) (ihs exit?)
  | leave => exact .leave
  | jump => exact fun p => ⟨_, _, _, .pure, .jump, Advances.refl.visit rfl⟩
  | enum => exact fun p => ⟨_, _, _, .pure, .enum, Advances.refl.visit rfl⟩
  | whileLoop cs ops body ihc ihb =>
    exact .whileLoop (fun c hc => ⟨(ihc c hc).1 exit?, (ihc c hc).2 exit?⟩)
      fun done n hn => ihb n hn (some done)
  | forLoop counter limit increment body ihc ihl ihi ihb =>
    exact .forLoop (ihc exit?) (ihl exit?) (ihi exit?) fun done n hn => ihb n hn (some done)
  | loop body ih => exact .loop fun done n hn => ih n hn (some done)
  | choice cs ops thenBody elseBody ihc iht ihe =>
    exact .choice (fun c hc => ⟨(ihc c hc).1 exit?, (ihc c hc).2 exit?⟩)
      (fun n hn => iht n hn exit?) fun n hn => ihe n hn exit?
  | condition c ihl ihr => exact .condition (ihl exit?) (ihr exit?)
  | var => exact fun p => ⟨_, _, _, .pure, .var, Advances.refl.visit rfl⟩
  | register => exact fun p => ⟨_, _, _, .pure, .register, Advances.refl.visit rfl⟩
  | literal => exact fun p => ⟨_, _, _, .pure, .literal, Advances.refl.visit rfl⟩

/-! ### Programs -/

/-- How many labels are made up for a program. -/
def freshLabels (p : Program) : Nat :=
  (compile (.code p.code) (compile (.data p.data) .initial).2).2.labels

/-- What comes of a program, given the first error of its visits; all labels that are made up are
placed. -/
theorem exists_lines (p : Program) :
    ∃ data code ns ms, Lays none (.data p.data) data ns ∧ Lays none (.code p.code) code ms ∧
      Fresh 0 (freshLabels p) (ns ++ ms) ∧ ofProgram p = match p.visits.findSome? defect? with
        | some e => .error e
        | none => .ok (render data ++ "\n" ++ render code ++ "\n") := by
  obtain ⟨data, ns, q, emitsData, laysData, advancesData⟩ := isLaid none (.data p.data) .initial
  obtain ⟨code, ms, r, emitsCode, laysCode, advancesCode⟩ := isLaid none (.code p.code) q
  have advances := advancesData.trans advancesCode
  have dataLines : compile (.data p.data) .initial = (data, q) := emitsData
  have codeLines : compile (.code p.code) q = (code, r) := emitsCode
  have labels : freshLabels p = r.labels := by
    rw [freshLabels, dataLines, codeLines]
  refine ⟨data, code, ns, ms, laysData, laysCode, labels ▸ advances.fresh, ?_⟩
  have visits : p.visits =
      Node.visits false (.data p.data) ++ Node.visits false (.code p.code) := by
    simp [Program.visits, Program.nodes, visitsAll]
  have noted : r.error? = p.visits.findSome? defect? := by
    rw [visits]
    exact advances.noted
  cases found : p.visits.findSome? defect? with
  | none | some => simp only [ofProgram, dataLines, codeLines, noted, found]

/-- What comes of a program, whatever the numbers of its labels are. -/
theorem exists_ofProgram (p : Program) :
    ∃ data code ns ms, Lays none (.data p.data) data ns ∧ Lays none (.code p.code) code ms ∧
      (ns ++ ms).Nodup ∧ ofProgram p = match p.visits.findSome? defect? with
        | some e => .error e
        | none => .ok (render data ++ "\n" ++ render code ++ "\n") := by
  obtain ⟨data, code, ns, ms, laysData, laysCode, fresh, result⟩ := exists_lines p
  exact ⟨data, code, ns, ms, laysData, laysCode, fresh.nodup, result⟩

/-- **Errors and exits.**  A program has no listing if something is said about a node that is
visited, and the error is what is said first.  Every other program has a listing, whose lines are
laid out node by node: a `break` is a jump to the label after the innermost loop whose body it lies
in. -/
theorem ofProgram_complains_or_lays (p : Program) :
    (∀ m, (ofProgram p).mapError Error.message = .error m ↔
      p.visits.findSome? Visit.complaint? = some m) ∧
    (p.visits.findSome? Visit.complaint? = none ↔
      ∃ data code ns ms, ofProgram p = .ok (render data ++ "\n" ++ render code ++ "\n") ∧
        Lays none (.data p.data) data ns ∧ Lays none (.code p.code) code ms ∧
        (ns ++ ms).Nodup) := by
  obtain ⟨data, code, ns, ms, laysData, laysCode, nodup, result⟩ := exists_ofProgram p
  have first : p.visits.findSome? Visit.complaint? =
      (p.visits.findSome? defect?).map Error.message := by
    rw [List.map_findSome?]
    congr 1
    funext v
    exact complaint?_eq v
  rw [first]
  cases found : p.visits.findSome? defect? with
  | some e =>
    simp only [found] at result
    have failed : (ofProgram p).mapError Error.message = .error e.message := by
      rw [result]
      rfl
    rw [failed, result]
    simp
  | none =>
    simp only [found] at result
    have generated : (ofProgram p).mapError Error.message =
        .ok (render data ++ "\n" ++ render code ++ "\n") := by
      rw [result]
      rfl
    refine ⟨fun m => by simp [generated], fun _ => ?_, fun _ => rfl⟩
    exact ⟨data, code, ns, ms, result, laysData, laysCode, nodup⟩

/-- The body of a loop is visited before the increment. -/
example : (Program.ofSections [] [.forLoop (.use "i") (.literal "3") .leave
    [.whileLoop [] [.ofJunction .or_] []]]).visits.findSome? Visit.complaint? =
      some "malformed condition (0 comparisons, 1 connectives)" := rfl

end Listing

end XtAsm
