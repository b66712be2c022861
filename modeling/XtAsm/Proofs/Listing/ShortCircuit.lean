import Mathlib.Data.List.Forall2
import XtAsm.Proofs.Listing.Block

/-!
# Conditions are lowered to short-circuit evaluation

A chain of conditions is evaluated from the left: after a false value `&&` skips the next condition,
and after a true one `||` does.  The lines of a chain execute the comparisons that are consulted and
no others, and jump to their target exactly if the chain is false.

* `chainValue`, `consulted`: the value of a chain, and the conditions that are consulted;
* `Decision.value`, `Decision.consulted`: the same for trees of tests;
* `Branching.ends`: what executing the lines of a tree comes to;
* `guardLines_shortCircuits`: what executing the lines of a chain comes to.
-/

namespace XtAsm

/-- The truth of two connected conditions. -/
def Junction.join : Junction → Bool → Bool → Bool
  | .and_, a, b => a && b
  | .or_, a, b => a || b

/-- The connective has decided the value, whatever comes after it. -/
def Junction.decides : Junction → Bool → Bool
  | .and_, a => !a
  | .or_, a => a

/-- The value of conditions that are connected, one after the other, with a first one. -/
def chainValue (first : Bool) (rest : List (Junction × Bool)) : Bool :=
  rest.foldl (fun value x => x.1.join value x.2) first

/-- The numbers of the conditions that are consulted after conditions with the given value, if the
next one has the given number. -/
def consultedAfter (value : Bool) (next : Nat) : List (Junction × Bool) → List Nat
  | [] => []
  | (j, b) :: rest =>
    if j.decides value then consultedAfter value (next + 1) rest
    else next :: consultedAfter b (next + 1) rest

/-- The numbers of the conditions of a chain that are consulted. -/
def consulted (first : Bool) (rest : List (Junction × Bool)) : List Nat :=
  0 :: consultedAfter first 1 rest

theorem le_of_mem_consultedAfter {value : Bool} {next : Nat} {rest : List (Junction × Bool)} :
    ∀ n ∈ consultedAfter value next rest, next ≤ n := by
  induction rest generalizing value next with
  | nil => simp [consultedAfter]
  | cons x rest ih =>
    rw [consultedAfter]
    split
    · exact fun n mem => Nat.le_of_succ_le (ih n mem)
    · rw [List.forall_mem_cons]
      exact ⟨Nat.le_refl _, fun n mem => Nat.le_of_succ_le (ih n mem)⟩

/-- Conditions are consulted in order, and at most once each. -/
theorem pairwise_consulted (first : Bool) (rest : List (Junction × Bool)) :
    (consulted first rest).Pairwise (· < ·) := by
  have after (value : Bool) (next : Nat) (rest : List (Junction × Bool)) :
      (consultedAfter value next rest).Pairwise (· < ·) := by
    induction rest generalizing value next with
    | nil => simp [consultedAfter]
    | cons x rest ih =>
      rw [consultedAfter]
      split
      · exact ih _ _
      · exact List.pairwise_cons.2 ⟨le_of_mem_consultedAfter, ih _ _⟩
  exact List.pairwise_cons.2 ⟨le_of_mem_consultedAfter, after _ _ _⟩

example (b : Bool) : consulted true [(.or_, b), (.and_, false), (.or_, b)] = [0, 2, 3] := rfl

namespace Listing

/-! ### Trees -/

/-- The value of a tree of truth values. -/
def Decision.value : Decision Bool → Bool
  | .test b => b
  | .connect op lhs rhs => op.join lhs.value rhs.value

/-- The numbers of the tests that are consulted, if the first one has the given number.  The second
side is not consulted if it does not matter. -/
def Decision.consulted (first : Nat) : Decision Bool → List Nat
  | .test _ => [first]
  | .connect op lhs rhs =>
    lhs.consulted first ++
      if op.join lhs.value true = op.join lhs.value false then []
      else rhs.consulted (first + lhs.tests.length)

/-- All connectives of the tree have a meaning. -/
def Decision.IsJoined {τ : Type} : Decision τ → Prop
  | .test _ => True
  | .connect op lhs rhs => (∃ j, op = .ofJunction j) ∧ lhs.IsJoined ∧ rhs.IsJoined

/-- The truth of a comparison, given the integers that its operands stand for. -/
def Comparison.holds (value : Text → Int) (c : Comparison) : Bool :=
  c.op.holds (value c.lhs) (value c.rhs)

theorem consulted_decisive (expected : Bool) (first : Nat) (a b : Decision Bool) :
    (Decision.connect (.ofJunction (decisive expected)) a b).consulted first =
      a.consulted first ++
        if a.value = expected then [] else b.consulted (first + a.tests.length) := by
  rw [Decision.consulted]
  simp only [join_decisive]
  cases a.value <;> cases expected <;> rfl

theorem relation?_negate (op : Comparator) :
    op.negate.relation? = some (op.relation?.getD .ge).opposite := by
  rw [Comparator.negate]
  cases op.relation? with
  | none => rfl
  | some r => cases r <;> rfl

theorem holds_negate (op : Comparator) (a b : Int) : op.negate.holds a b = !op.holds a b := by
  rw [Comparator.holds, relation?_negate, Option.getD_some, holds_opposite, Comparator.holds]

/-- The jump after a comparison is taken if it comes out as expected. -/
theorem holds_branch (expected : Bool) (op : Comparator) (a b : Int) :
    (if expected then op else op.negate).holds a b = (op.holds a b == expected) := by
  cases expected <;> simp [holds_negate]

/-- The comparisons of a block are those of its decision, in order. -/
theorem Branching.comparisons {expected : Bool} {target : Label} {d : Decision Comparison}
    {ls : List Line} {ns : List Nat} (h : Branching expected target d ls ns) :
    comparisons ls = d.tests.map fun c => (c.lhs, c.rhs) := by
  induction h with
  | test => rfl
  | direct _ _ iha ihb =>
    simp only [Listing.comparisons, List.filterMap_append, Decision.tests, List.map_append] at *
    rw [iha, ihb]
  | crossed _ _ _ iha ihb =>
    simp only [Listing.comparisons, List.filterMap_append, Decision.tests, List.map_append] at *
    rw [iha, ihb]
    simp

/-- A block places fresh labels only. -/
theorem Branching.labelTexts {expected : Bool} {target : Label} {d : Decision Comparison}
    {ls : List Line} {ns : List Nat} (h : Branching expected target d ls ns) :
    (labelTexts ls).Sublist (ns.map fun n => (Label.fresh n).render) := by
  induction h with
  | test => exact List.nil_sublist _
  | direct _ _ iha ihb =>
    simp only [Listing.labelTexts, List.filterMap_append, List.map_append] at *
    exact iha.append ihb
  | crossed _ _ _ iha ihb =>
    simp only [Listing.labelTexts, List.filterMap_append, List.map_append] at *
    exact (iha.append ihb).append (List.Sublist.refl _)

theorem Decision.length_tests_map {τ υ : Type} (f : τ → υ) (d : Decision τ) :
    (d.map f).tests.length = d.tests.length := by
  induction d with
  | test => rfl
  | connect op a b iha ihb => simp only [map, tests, List.length_append, iha, ihb]

theorem At.take {code ls : List Line} {pc : Nat} (h : At code pc ls) :
    code.take (pc + ls.length) = code.take pc ++ ls := by
  obtain ⟨before, after, rfl, rfl⟩ := h
  rw [List.take_left' List.length_append, List.append_assoc, List.take_left]

/-- The number of the first comparison after the lines of a tree. -/
theorem Branching.number {block : List Line} {expected : Bool} {target : Label}
    {d : Decision Comparison} {ls : List Line} {ns : List Nat}
    (h : Branching expected target d ls ns) {pc : Nat} (here : At block pc ls)
    (value : Text → Int) :
    (Listing.comparisons (block.take (pc + ls.length))).length =
      (Listing.comparisons (block.take pc)).length +
        (d.map (Comparison.holds value)).tests.length := by
  have split (xs ys : List Line) :
      Listing.comparisons (xs ++ ys) = Listing.comparisons xs ++ Listing.comparisons ys :=
    List.filterMap_append
  rw [here.take, split, List.length_append, h.comparisons, List.length_map,
    Decision.length_tests_map]

open Block in
/-- What executing the lines of a tree comes to: a jump to the target if the tree comes out as
expected, and whatever follows the lines otherwise.  The comparisons that short-circuit evaluation
consults have been executed, and no others. -/
theorem Branching.ends {value : Text → Int} {block : List Line} {r : Result}
    (nodup : (Listing.labelTexts block).Nodup) {expected : Bool} {target : Label}
    {d : Decision Comparison} {ls : List Line} {ns : List Nat}
    (h : Branching expected target d ls ns) (joined : d.IsJoined) {pc first : Nat}
    (here : At block pc ls) (number : (Listing.comparisons (block.take pc)).length = first)
    {compared? : Option (Int × Int)} {consulted : List Nat}
    (taken : (d.map (Comparison.holds value)).value = expected → ∀ pc compared?,
      Ends value block (goTo block ⟨pc, compared?,
        consulted ++ (d.map (Comparison.holds value)).consulted first⟩ target.render) r)
    (passed : (d.map (Comparison.holds value)).value ≠ expected → ∀ compared?,
      Ends value block (.ok ⟨pc + ls.length, compared?,
        consulted ++ (d.map (Comparison.holds value)).consulted first⟩) r) :
    Ends value block (.ok ⟨pc, compared?, consulted⟩) r := by
  induction h generalizing pc first compared? consulted with
  | @test expected target c =>
    simp only [Decision.map, Decision.value, Decision.consulted, ne_eq] at taken passed
    refine ends_compare here ?_
    rw [number]
    refine ends_branch here.tail (fun jump => taken ?_ _ _) fun stay => passed ?_ _
    · rwa [holds_branch, beq_iff_eq] at jump
    · rwa [holds_branch, beq_eq_false_iff_ne] at stay
  | @direct expected target a b as bs ns ms ha _ iha ihb =>
    obtain ⟨-, joinedA, joinedB⟩ := joined
    simp only [Decision.map, Decision.value, join_decisive, consulted_decisive] at taken passed
    have next := ha.number here.left value
    rw [number] at next
    refine iha joinedA here.left number (fun decided pc f => ?_) fun undecided f => ?_
    · simp only [decided, if_true, List.append_nil, forall_const] at taken
      exact taken pc f
    · simp only [undecided, if_false, List.length_append, ← Nat.add_assoc,
        ← List.append_assoc] at taken passed
      exact ihb joinedB here.right next taken passed
  | @crossed expected target skip op a b as bs ns ms ne ha _ iha ihb =>
    obtain ⟨⟨j, rfl⟩, joinedA, joinedB⟩ := joined
    obtain rfl : j = decisive !expected :=
      (decisive_cases expected j).resolve_left fun same => ne (congrArg _ same)
    simp only [Decision.map, Decision.value, join_decisive, consulted_decisive] at taken passed
    have next := ha.number here.left.left value
    rw [number] at next
    have skipHere := here.right
    have length : pc + (as ++ bs).length + 1 =
        pc + (as ++ bs ++ [Line.label (.fresh skip)]).length := by
      simp only [List.length_append, List.length_singleton, Nat.add_assoc]
    refine iha joinedA here.left.left number (fun decided pc' f => ?_) fun undecided f => ?_
    · -- the first side has jumped to the label at the end
      have unexpected : (!expected) ≠ expected := by cases expected <;> decide
      simp only [decided, if_true, List.append_nil, unexpected, ne_eq, not_false_eq_true,
        forall_const] at passed
      rw [goTo_of_at nodup skipHere]
      refine ends_label skipHere ?_
      rw [length]
      exact passed f
    · simp only [undecided, if_false, ← List.append_assoc] at taken passed
      refine ihb joinedB here.left.right next taken fun unexpected f => ?_
      -- the second side has come to the label at the end
      rw [Nat.add_assoc, ← List.length_append]
      refine ends_label skipHere ?_
      rw [length]
      exact passed unexpected f

/-! ### Chains -/

theorem join_ofJunction (j : Junction) (a b : Bool) :
    (Connective.ofJunction j).join a b = j.join a b := by
  cases j <;> rfl

theorem decides_iff (j : Junction) (a : Bool) : j.join a true = j.join a false ↔ j.decides a := by
  cases j <;> cases a <;> decide

theorem join_eq (j : Junction) (a b : Bool) : j.join a b = if j.decides a then a else b := by
  cases j <;> cases a <;> rfl

/-- The decision of a chain, which continues the decision of its first condition. -/
abbrev Decision.chain {τ : Type} (d : Decision τ) (rest : List (Junction × τ)) : Decision τ :=
  d.extend (rest.map fun x => .ofJunction x.1) (rest.map Prod.snd)

theorem Decision.value_chain (d : Decision Bool) (rest : List (Junction × Bool)) :
    (d.chain rest).value = chainValue d.value rest := by
  induction rest generalizing d with
  | nil => rfl
  | cons x rest ih =>
    rw [chain, List.map_cons, List.map_cons, extend]
    refine (ih _).trans ?_
    rw [value, value, join_ofJunction]
    rfl

theorem Decision.consulted_chain (d : Decision Bool) (rest : List (Junction × Bool))
    (first : Nat) : (d.chain rest).consulted first =
      d.consulted first ++ consultedAfter d.value (first + d.tests.length) rest := by
  induction rest generalizing d with
  | nil => simp [chain, extend, consultedAfter]
  | cons x rest ih =>
    rw [chain, List.map_cons, List.map_cons, extend]
    refine (ih _).trans ?_
    rw [consulted, consulted, value, value, tests, List.length_append, join_ofJunction,
      join_ofJunction, join_ofJunction, consultedAfter, List.append_assoc]
    simp only [decides_iff]
    rw [join_eq]
    split <;> rfl

theorem Decision.isJoined_chain {τ : Type} (d : Decision τ) (h : d.IsJoined)
    (rest : List (Junction × τ)) : (d.chain rest).IsJoined := by
  induction rest generalizing d with
  | nil => exact h
  | cons x rest ih => exact ih _ ⟨⟨_, rfl⟩, h, trivial⟩

theorem Decision.map_chain {τ υ : Type} (f : τ → υ) (d : Decision τ)
    (rest : List (Junction × τ)) :
    (d.chain rest).map f = (d.map f).chain (rest.map fun x => (x.1, f x.2)) := by
  rw [chain, chain, map_extend, List.map_map, List.map_map, List.map_map]
  rfl

theorem Decision.tests_chain {τ : Type} (d : Decision τ) (rest : List (Junction × τ)) :
    (d.chain rest).tests = d.tests ++ rest.map Prod.snd :=
  tests_extend d (by rw [List.length_map, List.length_map])

open Block in
/-- What executing the lines of a chain comes to. -/
theorem Branching.ends_chain {target : Label} {t : Comparison} {ts : List (Junction × Comparison)}
    {block : List Line} {ns : List Nat}
    (h : Branching false target ((Decision.test t).chain ts) block ns)
    (nodup : (Listing.labelTexts block).Nodup)
    (absent : target.render ∉ Listing.labelTexts block) (value : Text → Int) :
    let first := t.holds value
    let others := ts.map fun x => (x.1, x.2.holds value)
    Ends value block (.ok .start)
      ⟨if chainValue first others then .fell else .jumped target.render,
        XtAsm.consulted first others⟩ := by
  intro first others
  have whole : At block 0 block := ⟨[], [], by simp, rfl⟩
  have joined : ((Decision.test t).chain ts).IsJoined :=
    Decision.isJoined_chain (.test t) trivial ts
  have same : ((Decision.test t).chain ts).map (Comparison.holds value) =
      (Decision.test first).chain others := Decision.map_chain _ _ _
  have truth : ((Decision.test first).chain others).value = chainValue first others :=
    Decision.value_chain _ _
  have trace : ((Decision.test first).chain others).consulted 0 = XtAsm.consulted first others :=
    Decision.consulted_chain _ _ _
  refine h.ends nodup joined whole rfl (fun fails pc f => ?_) fun holds f => ?_
  · rw [same, truth] at fails
    rw [same, goTo_of_not_mem absent, fails]
    exact trace ▸ .stop
  · rw [same, truth, ne_eq, Bool.not_eq_false] at holds
    rw [same, if_pos holds, ← trace]
    exact ends_end (by simp)

/-- The comparisons of a chain are those of its conditions. -/
theorem exists_chain_of_laysDecision {exit? : Option Label} {d : Decision Condition}
    {rest : List (Junction × Condition)} {e : Decision Comparison}
    (lays : LaysDecision exit? (d.chain rest) e) :
    ∃ d' ts, LaysDecision exit? d d' ∧
      List.Forall₂ (fun x t => LaysDecision exit? (.test x.2) (.test t)) rest ts ∧
      e = d'.chain ((rest.map Prod.fst).zip ts) := by
  induction rest generalizing d with
  | nil => exact ⟨e, [], lays, .nil, rfl⟩
  | cons x rest ih =>
    obtain ⟨j, op, lhs, rhs⟩ := x
    obtain ⟨d', ts, laysAll, forall₂, rfl⟩ := ih lays
    cases laysAll with
    | connect first second =>
      cases second with
      | test hl hr => exact ⟨_, _, first, .cons (.test hl hr) forall₂, rfl⟩

/-- **Short-circuit lowering.**  The lines of a chain of conditions fall through if the chain is
true and jump to the target if it is false, and execute exactly the comparisons that short-circuit
evaluation consults, in order. -/
theorem guardLines_shortCircuits (c : Condition) (rest : List (Junction × Condition))
    {target : Label} {exit? : Option Label} {p q : Progress} {lines : List Line}
    (emits : Emits (guardLines (Node.generateTests template (c :: rest.map Prod.snd))
      (rest.map fun x => .ofJunction x.1) target) exit? p lines q)
    (distinct : ∀ n, p.labels < n → n ≤ q.labels → target.render ≠ (Label.fresh n).render) :
    ∃ t ts, LaysDecision exit? (.test c) (.test t) ∧
      List.Forall₂ (fun x t => LaysDecision exit? (.test x.2) (.test t)) rest ts ∧
      comparisons lines = (t :: ts).map (fun t => (t.lhs, t.rhs)) ∧
      ∀ value : Text → Int,
        let first := t.holds value
        let others := (rest.map Prod.fst).zip (ts.map (Comparison.holds value))
        Block.Ends value lines (.ok .start)
          ⟨if chainValue first others then .fell else .jumped target.render,
            consulted first others⟩ ∧
        (consulted first others).Pairwise (· < ·) := by
  obtain ⟨op, lhs, rhs⟩ := c
  have sound : defect? ⟨exit?.isSome, .whileLoop (.mk op lhs rhs :: rest.map Prod.snd)
      (rest.map fun x => .ofJunction x.1) []⟩ = guardDefect? _ _ := rfl
  obtain ⟨lines, ns, q, emits', guard, advances⟩ := yields_guardLines
    (fun c _ => ⟨isLaid exit? c.lhs, isLaid exit? c.rhs⟩) sound target p
  obtain ⟨rfl, rfl⟩ := emits.unique emits'
  have tests : Decision.ofTests? (.mk op lhs rhs :: rest.map Prod.snd)
      (rest.map fun x => .ofJunction x.1) = some ((Decision.test (.mk op lhs rhs)).chain rest) :=
    if_pos (by rw [List.length_map, List.length_map])
  cases guard with
  | unmatched unmatched => exact absurd (by simp [Guard.IsMatched]) unmatched
  | chain tests' lays branching =>
    obtain rfl := Option.some.inj (tests.symm.trans tests')
    obtain ⟨d', ts, laysFirst, laysRest, rfl⟩ := exists_chain_of_laysDecision lays
    cases laysFirst with
    | test left right =>
      refine ⟨_, ts, .test left right, laysRest, ?_, fun value => ⟨?_, pairwise_consulted _ _⟩⟩
      · have length := Nat.le_of_eq laysRest.length_eq.symm
        rw [branching.comparisons, Decision.tests_chain, List.map_snd_zip (by simpa using length)]
        rfl
      · -- the labels of the block are fresh, so that the target is none of them
        have nodup : (ns.map fun n => (Label.fresh n).render).Nodup :=
          List.pairwise_map.2 (advances.fresh.nodup.imp fun ne same =>
            ne (render_fresh_injective same))
        have absent : target.render ∉ labelTexts lines := fun mem => by
          obtain ⟨n, hn, same⟩ := List.mem_map.1 (branching.labelTexts.subset mem)
          have := advances.fresh.bounds n hn
          exact distinct n this.1 this.2 same.symm
        have ends := branching.ends_chain (branching.labelTexts.nodup nodup) absent value
        rw [List.zip_map_right]
        exact ends

/-- The conditions of `.x == 1 || .y < 2 && .z >= 3` after the first one. -/
def mixedRest : List (Junction × Condition) :=
  [(.or_, .mk (.ofRelation .lt) (.use "y") (.literal "2")),
    (.and_, .mk (.ofRelation .ge) (.use "z") (.literal "3"))]

/-- Their lines. -/
def mixedLines : List Line :=
  [.compare "[x]" "1", .branch (.ofRelation .eq) (.fresh 1),
    .compare "[y]" "2", .branch (.ofRelation .ge) (.named "out"), .label (.fresh 1),
    .compare "[z]" "3", .branch (.ofRelation .lt) (.named "out")]

theorem guardLines_shortCircuits_mixed :
    let c : Condition := .mk (.ofRelation .eq) (.use "x") (.literal "1")
    (Emits (guardLines (Node.generateTests template (c :: mixedRest.map Prod.snd))
        (mixedRest.map fun x => .ofJunction x.1) (.named "out")) none .initial mixedLines
        ⟨1, none⟩ ∧
      ∀ n, 0 < n → n ≤ 1 → (Label.named "out").render ≠ (Label.fresh n).render) ∧
    ∃ t ts, LaysDecision none (.test c) (.test t) ∧
      List.Forall₂ (fun x t => LaysDecision none (.test x.2) (.test t)) mixedRest ts ∧
      comparisons mixedLines = (t :: ts).map (fun t => (t.lhs, t.rhs)) ∧
      ∀ value : Text → Int,
        let first := t.holds value
        let others := (mixedRest.map Prod.fst).zip (ts.map (Comparison.holds value))
        Block.Ends value mixedLines (.ok .start)
          ⟨if chainValue first others then .fell else .jumped (Label.named "out").render,
            consulted first others⟩ ∧
        (consulted first others).Pairwise (· < ·) := by
  intro c
  have emits : Emits (guardLines (Node.generateTests template (c :: mixedRest.map Prod.snd))
      (mixedRest.map fun x => .ofJunction x.1) (.named "out")) none .initial mixedLines
      ⟨1, none⟩ := rfl
  have distinct : ∀ n, 0 < n → n ≤ 1 → (Label.named "out").render ≠ (Label.fresh n).render := by
    intro n lower upper
    obtain rfl : n = 1 := by omega
    decide
  exact ⟨⟨emits, distinct⟩, guardLines_shortCircuits c mixedRest emits distinct⟩

end Listing

end XtAsm
