import XtAsm.Proofs.Listing.Lowering

/-!
# The lines of a statement do what the statement does

* `Leads`: the machine gets from one state to another in a number of steps;
* `At`, `place?`: where lines and labels stand in the whole code section;
* `Continues`: the machine does what the outcome of a statement says.  If the statement uses up
  its fuel, the machine is still running after as many steps;
* `Branches.leads`, `continues_rounds`: decisions and loops;
* `Lowers.simulates`, `LowersAll.simulates`: statements.
-/

namespace XtAsm.Listing

open Node Machine

section Runs

variable (literal : Text → Int) (code : List Line)

/-- The result of executing the lines, if the machine stops within the given number of steps. -/
abbrev runLines (n : Nat) (s : State) : Option Result :=
  Machine.run literal (code.map Line.instruction?) n s

/-- The machine gets from one state to another in the given number of steps. -/
def Leads (m : Nat) (s s' : State) : Prop :=
  ∀ k, runLines literal code (m + k) s = runLines literal code k s'

variable {literal code}

/-- A machine that has stopped gives the same result ever after. -/
theorem runLines_mono {n m : Nat} (h : n ≤ m) {s : State} {r : Result}
    (stopped : runLines literal code n s = some r) : runLines literal code m s = some r := by
  induction n generalizing m s with
  | zero => cases stopped
  | succ n ih =>
    obtain ⟨m, rfl⟩ : ∃ k, m = k + 1 := ⟨m - 1, by omega⟩
    simp only [runLines, run] at stopped ⊢
    split at stopped
    · exact ih (by omega) stopped
    · exact stopped

/-- A machine has one result, however long it is watched. -/
theorem eq_of_runLines {n m : Nat} {s : State} {r r' : Result}
    (h : runLines literal code n s = some r) (h' : runLines literal code m s = some r') :
    r = r' := by
  have late := runLines_mono (Nat.le_max_left n m) h
  rw [runLines_mono (Nat.le_max_right n m) h'] at late
  exact (Option.some.inj late).symm

/-- A machine that is still running was running before. -/
theorem runLines_eq_none_of_le {n m : Nat} (h : n ≤ m) {s : State}
    (running : runLines literal code m s = none) : runLines literal code n s = none := by
  cases stopped : runLines literal code n s with
  | none => rfl
  | some r =>
    rw [runLines_mono h stopped] at running
    cases running

namespace Leads

variable {m n : Nat} {s s' s'' : State}

theorem refl : Leads literal code 0 s s := fun k => by rw [Nat.zero_add]

theorem trans (h : Leads literal code m s s') (h' : Leads literal code n s' s'') :
    Leads literal code (m + n) s s'' := fun k => by
  rw [Nat.add_assoc, h, h']

/-- The same place, said differently. -/
theorem cast {pc pc' : Nat} {σ : Store} {f : Option (Int × Int)}
    (h : Leads literal code m s ⟨pc, σ, f⟩) (same : pc = pc') :
    Leads literal code m s ⟨pc', σ, f⟩ :=
  same ▸ h

theorem ofStep (h : step literal (code.map Line.instruction?) s = .ok s') :
    Leads literal code 1 s s' := fun k => by
  rw [Nat.add_comm, runLines, run, h]

end Leads

end Runs

/-! ### Places -/

/-- The lines stand at the given place of the code. -/
def At (code : List Line) (pc : Nat) (ls : List Line) : Prop :=
  ∃ before after, code = before ++ ls ++ after ∧ before.length = pc

/-- The place of a fresh label. -/
def place? (code : List Line) (n : Nat) : Option Nat :=
  position? (code.map Line.instruction?) (Label.fresh n).render

namespace At

variable {code ls ms : List Line} {pc : Nat} {l : Line}

theorem left (h : At code pc (ls ++ ms)) : At code pc ls := by
  obtain ⟨before, after, rfl, rfl⟩ := h
  exact ⟨before, ms ++ after, by simp, rfl⟩

theorem right (h : At code pc (ls ++ ms)) : At code (pc + ls.length) ms := by
  obtain ⟨before, after, rfl, rfl⟩ := h
  exact ⟨before ++ ls, after, by simp, by simp⟩

theorem tail (h : At code pc (l :: ls)) : At code (pc + 1) ls := by
  have first : At code pc ([l] ++ ls) := h
  exact first.right

/-- The same place, said differently. -/
theorem cast {pc' : Nat} (h : At code pc ls) (same : pc = pc') : At code pc' ls := same ▸ h

/-- The instruction at a place. -/
theorem get (h : At code pc (l :: ls)) :
    (code.map Line.instruction?)[pc]? = some l.instruction? := by
  obtain ⟨before, after, rfl, rfl⟩ := h
  simp

end At

theorem render_fresh_injective {n m : Nat} (h : (Label.fresh n).render = (Label.fresh m).render) :
    n = m :=
  Text.ofNat_injective (List.append_cancel_left h)

/-- Only a label is read as a label. -/
theorem mem_labelNumbers {ls : List Line} {l : Line} {n : Nat} (clean : IsClean l) (mem : l ∈ ls)
    (h : l.instruction? = some (.label (Label.fresh n).render)) : n ∈ labelNumbers ls := by
  cases clean with
  | @label m =>
    have same : m = n := by
      simp only [Line.instruction?, Option.some.injEq, Instruction.label.injEq] at h
      exact render_fresh_injective h
    exact List.mem_filterMap.2 ⟨_, mem, same ▸ rfl⟩
  | @branch r m =>
    rw [Line.instruction?, Comparator.relation?_ofRelation] at h
    cases h
  | _ => cases h

/-- A label that is placed once stands where it is placed. -/
theorem place?_of_at {code ls : List Line} {pc n : Nat} (clean : ∀ l ∈ code, IsClean l)
    (nodup : (labelNumbers code).Nodup) (h : At code pc (.label (.fresh n) :: ls)) :
    place? code n = some pc := by
  obtain ⟨before, after, rfl, rfl⟩ := h
  -- no line before is read as the label
  have absent : n ∉ labelNumbers before := by
    simp only [labelNumbers_append, List.cons_append, labelNumbers_label,
      List.append_assoc] at nodup
    exact fun mem => (List.nodup_append.1 nodup).2.2 n mem n (by simp) rfl
  have none : (before.map Line.instruction?).findIdx?
      (fun i => i = some (.label (Label.fresh n).render)) = none := by
    rw [List.findIdx?_eq_none_iff]
    intro i hi
    obtain ⟨l, mem, rfl⟩ := List.mem_map.1 hi
    refine decide_eq_false fun read => absent (mem_labelNumbers (clean l ?_) mem read)
    simp [mem]
  simp only [place?, position?, List.map_append, List.map_cons, List.append_assoc,
    List.cons_append, List.findIdx?_append, none, List.findIdx?_cons]
  simp [Line.instruction?]

/-! ### Single lines -/

theorem value_operandOf {n : Node} (h : IsSimple n) (literal : Text → Int) (σ : Store) :
    (operandOf n).value literal σ = n.value literal σ := by
  cases h <;> rfl

theorem operandOf_of_cell? {n : Node} {c : Cell} (h : n.cell? = some c) :
    operandOf n = .cell c := by
  cases n with
  | var v =>
    cases h
    rfl
  | register name =>
    cases h
    rfl
  | _ => cases h

section Lines

variable {literal : Text → Int} {code ls : List Line} {pc n target : Nat} (σ : Store)
  (f : Option (Int × Int))

theorem goTo_of_place (place : place? code n = some target) (s : State) :
    goTo (code.map Line.instruction?) s (Label.fresh n).render = .ok { s with pc := target } := by
  rw [goTo, show position? _ _ = some target from place]

theorem leads_label (h : At code pc (.label (.fresh n) :: ls)) :
    Leads literal code 1 ⟨pc, σ, f⟩ ⟨pc + 1, σ, f⟩ := by
  apply Leads.ofStep
  rw [step, h.get]
  rfl

theorem leads_jump (h : At code pc (.jump (.fresh n) :: ls))
    (place : place? code n = some target) :
    Leads literal code 1 ⟨pc, σ, f⟩ ⟨target, σ, f⟩ := by
  apply Leads.ofStep
  rw [step, h.get]
  exact goTo_of_place place _

theorem leads_assign {op : Mnemonic} {a b : Node} {c : Cell}
    (h : At code pc (.assign op (operandText a) (operandText b) :: ls)) (ha : IsSimple a)
    (hc : a.cell? = some c) (hb : IsSimple b) :
    Leads literal code 1 ⟨pc, σ, f⟩ ⟨pc + 1, assigned literal op a b σ, f⟩ := by
  apply Leads.ofStep
  rw [step, h.get]
  simp only [Line.instruction?, ha.readOperand, hb.readOperand, operandOf_of_cell? hc, execute,
    value_operandOf hb, assigned, hc]

theorem leads_compare {a b : Node} (h : At code pc (.compare (operandText a) (operandText b) :: ls))
    (ha : IsSimple a) (hb : IsSimple b) :
    Leads literal code 1 ⟨pc, σ, f⟩
      ⟨pc + 1, σ, some (a.value literal σ, b.value literal σ)⟩ := by
  apply Leads.ofStep
  rw [step, h.get]
  simp only [Line.instruction?, ha.readOperand, hb.readOperand, execute, value_operandOf ha,
    value_operandOf hb]

theorem leads_branch {r : Relation} (h : At code pc (.branch (.ofRelation r) (.fresh n) :: ls))
    (place : place? code n = some target) (a b : Int) :
    Leads literal code 1 ⟨pc, σ, some (a, b)⟩
      ⟨if r.holds a b then target else pc + 1, σ, some (a, b)⟩ := by
  apply Leads.ofStep
  rw [step, h.get]
  simp only [Line.instruction?, Comparator.relation?_ofRelation, Option.map_some, execute,
    goTo_of_place place]
  split <;> rfl

theorem run_exit {value : Node} (h : At code pc (.exit (operandText value) :: ls))
    (hv : IsSimple value) (k : Nat) :
    runLines literal code (1 + k) ⟨pc, σ, f⟩ =
      some (.ended (.exited (value.value literal σ) σ)) := by
  rw [Nat.add_comm, runLines, run, step, h.get]
  simp only [Line.instruction?, hv.readOperand, execute, value_operandOf hv]

end Lines

/-! ### Decisions -/

/-- The decision holds. -/
def Decision.holds (literal : Text → Int) (σ : Store) : Decision Condition → Bool
  | .test c => conditionHolds literal σ c
  | .connect op lhs rhs => op.join (lhs.holds literal σ) (rhs.holds literal σ)

theorem Decision.holds_extend (literal : Text → Int) (σ : Store) (d : Decision Condition)
    (ops : List Connective) (cs : List Condition) :
    (d.extend ops cs).holds literal σ =
      connected (conditionHolds literal σ) (d.holds literal σ) ops cs := by
  induction ops generalizing d cs with
  | nil => simp [extend, connected]
  | cons op ops ih =>
    cases cs with
    | nil => simp [extend, connected]
    | cons c cs =>
      rw [extend, ih, connected]
      rfl

/-- The decision of conditions holds if the conditions do. -/
theorem holds_of_ofTests? {cs : List Condition} {ops : List Connective} {d : Decision Condition}
    (h : Decision.ofTests? cs ops = some d) (literal : Text → Int) (σ : Store) :
    d.holds literal σ = conditionsHold literal σ cs ops := by
  cases cs with
  | nil => cases h
  | cons c cs =>
    simp only [Decision.ofTests?] at h
    split at h
    · cases h
      rw [Decision.holds_extend]
      rfl
    · cases h

theorem holds_opposite (r : Relation) (a b : Int) : r.opposite.holds a b = !r.holds a b := by
  rw [Bool.eq_iff_iff]
  cases r <;> simp only [Relation.holds, Relation.opposite, decide_eq_true_eq, Bool.not_eq_true',
    decide_eq_false_iff_not] <;> omega

theorem join_decisive (expected a b : Bool) :
    (Connective.ofJunction (decisive expected)).join a b =
      if a = expected then expected else b := by
  cases expected <;> cases a <;> cases b <;> rfl

/-- The lines of a decision jump to their target if it comes out as expected. -/
theorem Branches.leads (literal : Text → Int) {code : List Line} (clean : ∀ l ∈ code, IsClean l)
    (nodup : (labelNumbers code).Nodup) {expected : Bool} {n : Nat} {d : Decision Condition}
    {ls : List Line} (h : Branches expected n d ls) {pc target : Nat} (here : At code pc ls)
    (place : place? code n = some target) (σ : Store) (f : Option (Int × Int)) :
    ∃ m g, Leads literal code m ⟨pc, σ, f⟩
      ⟨if d.holds literal σ = expected then target else pc + ls.length, σ, g⟩ := by
  induction h generalizing pc target f with
  | @test expected n r lhs rhs hl hr =>
    have compared : Leads literal code 1 _ _ := leads_compare σ f here hl hr
    have jumped : Leads literal code 1 _ _ :=
      leads_branch σ here.tail place (lhs.value literal σ) (rhs.value literal σ)
    refine ⟨_, _, (compared.trans jumped).cast ?_⟩
    cases expected <;> simp [Decision.holds, conditionHolds, holds_opposite]
  | @direct expected n a b as bs _ _ iha ihb =>
    obtain ⟨m, g, first⟩ := iha here.left place f
    rw [Decision.holds, join_decisive]
    by_cases decided : a.holds literal σ = expected
    · simp only [decided, if_true] at first ⊢
      exact ⟨m, g, first⟩
    · simp only [decided, if_false] at first ⊢
      obtain ⟨k, g, second⟩ := ihb here.right place g
      rw [List.length_append, ← Nat.add_assoc]
      exact ⟨m + k, g, first.trans second⟩
  | @crossed expected n skip a b as bs _ _ iha ihb =>
    have skipHere := here.right
    have skipPlace := place?_of_at clean nodup skipHere
    obtain ⟨m, g, first⟩ := iha here.left.left skipPlace f
    rw [Decision.holds, join_decisive]
    by_cases decided : a.holds literal σ = !expected
    · -- the first side has jumped to the label at the end
      have unexpected : (!expected) ≠ expected := by cases expected <;> decide
      simp only [decided, if_true, unexpected, if_false] at first ⊢
      exact ⟨_, g, (first.trans (leads_label σ g skipHere)).cast (by simp [Nat.add_assoc])⟩
    · simp only [decided, if_false] at first ⊢
      obtain ⟨k, g, second⟩ := ihb here.left.right place g
      by_cases expectedB : b.holds literal σ = expected
      · simp only [expectedB, if_true] at second ⊢
        exact ⟨_, g, first.trans second⟩
      · simp only [expectedB, if_false] at second ⊢
        -- the second side has come to the label at the end
        have atSkip := (first.trans second).cast
          (show pc + as.length + bs.length = pc + (as ++ bs).length by
            rw [List.length_append, Nat.add_assoc])
        exact ⟨_, g, (atSkip.trans (leads_label σ g skipHere)).cast (by simp [Nat.add_assoc])⟩

/-! ### Outcomes -/

/-- From the given state the machine does what an outcome says: it goes on at the first place, it
goes on at the second place after leaving a loop, it ends, or it is still running when the fuel is
used up. -/
def Continues (literal : Text → Int) (code : List Line) (fuel : Nat) (s : State)
    (next left : Nat) : Option Outcome → Prop
  | none => runLines literal code fuel s = none
  | some (.next σ) => ∃ m f, Leads literal code m s ⟨next, σ, f⟩
  | some (.left σ) => ∃ m f, Leads literal code m s ⟨left, σ, f⟩
  | some (.exited value σ) =>
    ∃ m, ∀ k, runLines literal code (m + k) s = some (.ended (.exited value σ))

namespace Continues

variable {literal : Text → Int} {code : List Line} {fuel fuel' m next next' left : Nat}
  {s s' : State} {o : Option Outcome}

/-- What happens later happens after the steps before it, which take no fuel. -/
theorem ofLeads (h : Continues literal code fuel s' next left o)
    (before : Leads literal code m s s') (enough : fuel' ≤ m + fuel) :
    Continues literal code fuel' s next left o := by
  match o with
  | none =>
    have running : runLines literal code (m + fuel) s = none := by rw [before, h]
    exact runLines_eq_none_of_le enough running
  | some (.next σ) =>
    obtain ⟨k, f, after⟩ := h
    exact ⟨_, f, before.trans after⟩
  | some (.left σ) =>
    obtain ⟨k, f, after⟩ := h
    exact ⟨_, f, before.trans after⟩
  | some (.exited value σ) =>
    obtain ⟨k, after⟩ := h
    exact ⟨m + k, fun j => by rw [Nat.add_assoc, before, after]⟩

/-- Two statements one after the other. -/
theorem andThen {rest : Store → Option Outcome}
    (hr : ∀ σ f, Continues literal code fuel ⟨next, σ, f⟩ next' left (rest σ)) :
    Continues literal code fuel s next left o →
    Continues literal code fuel s next' left
      (match o with
        | some (.next σ) => rest σ
        | other => other) := by
  intro h
  match o with
  | none => exact h
  | some (.next σ) =>
    obtain ⟨m, f, before⟩ := h
    exact (hr σ f).ofLeads before (Nat.le_add_left _ _)
  | some (.left σ) => exact h
  | some (.exited value σ) => exact h

/-- A few more steps after a statement. -/
theorem andLeads (h : Continues literal code fuel s next left o)
    (hl : ∀ σ f, Leads literal code m ⟨next, σ, f⟩ ⟨next', σ, f⟩) :
    Continues literal code fuel s next' left o := by
  match o with
  | none => exact h
  | some (.next σ) =>
    obtain ⟨k, f, before⟩ := h
    exact ⟨_, f, before.trans (hl σ f)⟩
  | some (.left σ) => exact h
  | some (.exited value σ) => exact h

end Continues

/-- The rounds of a loop, of which each takes at least the step over the label at the top. -/
theorem continues_rounds {literal : Text → Int} {code : List Line} {fuel top done left : Nat}
    {round : Store → Option Outcome}
    (label : ∀ σ f, Leads literal code 1 ⟨top, σ, f⟩ ⟨top + 1, σ, f⟩)
    (hr : ∀ σ f, Continues literal code fuel ⟨top + 1, σ, f⟩ top done (round σ)) (n : Nat)
    (bound : n ≤ fuel) (σ : Store) (f : Option (Int × Int)) :
    Continues literal code n ⟨top, σ, f⟩ done left (rounds round n σ) := by
  induction n generalizing σ f with
  | zero => rfl
  | succ n ih =>
    -- the step over the label pays for the round
    have enough : n + 1 ≤ 1 + fuel := Nat.le_trans bound (Nat.le_add_left _ _)
    have here := hr σ f
    rw [rounds]
    cases h : round σ with
    | none =>
      rw [h] at here
      exact here.ofLeads (label σ f) enough
    | some outcome =>
      rw [h] at here
      cases outcome with
      | next σ' =>
        obtain ⟨m, g, before⟩ := here
        exact (ih (by omega) σ' g).ofLeads ((label σ f).trans before) (by omega)
      | left σ' => exact here.ofLeads (label σ f) enough
      | exited value σ' => exact here.ofLeads (label σ f) enough

/-! ### Statements -/

section Statements

variable {literal : Text → Int} {code : List Line} (clean : ∀ l ∈ code, IsClean l)
  (nodup : (labelNumbers code).Nodup) {fuel pc left : Nat} {exit? : Option Nat}

/-- The lines at a place do what the function says. -/
def Simulates (literal : Text → Int) (code : List Line) (fuel pc left : Nat) (ls : List Line)
    (run : Store → Option Outcome) : Prop :=
  ∀ σ f, Continues literal code fuel ⟨pc, σ, f⟩ (pc + ls.length) left (run σ)

include clean nodup

/-- A body that is skipped unless its conditions hold. -/
theorem continues_guard {cs : List Condition} {ops : List Connective} {d : Decision Condition}
    {n done next : Nat} {gs : List Line} {o o' : Option Outcome}
    (hd : Decision.ofTests? cs ops = some d) (hg : Branches false n d gs) (here : At code pc gs)
    (place : place? code n = some done) (σ : Store) (f : Option (Int × Int))
    (holds : ∀ g, Continues literal code fuel ⟨pc + gs.length, σ, g⟩ next left o)
    (fails : ∀ g, Continues literal code fuel ⟨done, σ, g⟩ next left o') :
    Continues literal code fuel ⟨pc, σ, f⟩ next left
      (if conditionsHold literal σ cs ops then o else o') := by
  obtain ⟨m, g, tested⟩ := hg.leads literal clean nodup here place σ f
  rw [holds_of_ofTests? hd] at tested
  by_cases h : conditionsHold literal σ cs ops = true
  · rw [if_pos h]
    simp only [h, Bool.true_eq_false, if_false] at tested
    exact (holds g).ofLeads tested (Nat.le_add_left _ _)
  · rw [if_neg h]
    simp only [h, if_true] at tested
    exact (fails g).ofLeads tested (Nat.le_add_left _ _)

/-- A loop: a label at the top, the lines of a round, a jump back and a label at the end. -/
theorem simulates_loop {top done : Nat} {rs : List Line} {round : Store → Option Outcome}
    (here : At code pc ([.label (.fresh top)] ++ rs ++ [.jump (.fresh top), .label (.fresh done)]))
    (hr : ∀ {next}, next = pc + 1 + rs.length → place? code done = some (next + 1) → ∀ σ f,
      Continues literal code fuel ⟨pc + 1, σ, f⟩ next (next + 1) (round σ)) :
    Simulates literal code fuel pc left
      ([.label (.fresh top)] ++ rs ++ [.jump (.fresh top), .label (.fresh done)])
      (rounds round fuel) := by
  intro σ f
  have topHere : At code pc [.label (.fresh top)] := here.left.left
  have topPlace := place?_of_at clean nodup topHere
  have back : At code (pc + 1 + rs.length) [.jump (.fresh top), .label (.fresh done)] :=
    here.right.cast (by simp only [List.length_append, List.length_singleton, Nat.add_assoc])
  have doneHere := back.tail
  have donePlace := place?_of_at clean nodup doneHere
  have ran : Continues literal code fuel ⟨pc, σ, f⟩ (pc + 1 + rs.length + 1) left
      (rounds round fuel σ) :=
    continues_rounds (fun σ f => leads_label σ f topHere)
      (fun σ f => (hr rfl donePlace σ f).andLeads fun σ f => leads_jump σ f back topPlace)
      fuel (Nat.le_refl _) σ f
  have length : pc + 1 + rs.length + 1 + 1 = pc + ([.label (.fresh top)] ++ rs ++
      [.jump (.fresh top), .label (.fresh done)] : List Line).length := by
    simp only [List.length_append, List.length_cons, List.length_nil]
    omega
  rw [← length]
  exact ran.andLeads fun σ f => leads_label σ f doneHere

/-- A loop with conditions. -/
theorem simulates_whileLoop {cs : List Condition} {ops : List Connective}
    {d : Decision Condition} {top done : Nat} {gs bs : List Line}
    {body : Store → Option Outcome} (hd : Decision.ofTests? cs ops = some d)
    (hg : Branches false done d gs)
    (hb : ∀ {pc left}, At code pc bs → place? code done = some left →
      Simulates literal code fuel pc left bs body)
    (here : At code pc ([.label (.fresh top)] ++ gs ++ bs ++
      [.jump (.fresh top), .label (.fresh done)])) :
    Simulates literal code fuel pc left
      ([.label (.fresh top)] ++ gs ++ bs ++ [.jump (.fresh top), .label (.fresh done)])
      (rounds (fun σ => if conditionsHold literal σ cs ops then body σ else some (.left σ))
        fuel) := by
  rw [List.append_assoc [_]] at here ⊢
  have guardHere : At code (pc + 1) gs := here.left.right.left
  have bodyHere : At code (pc + 1 + gs.length) bs := here.left.right.right
  -- a round is a test and the body
  refine simulates_loop clean nodup here fun {next} hn donePlace σ f => ?_
  have same : next = pc + 1 + gs.length + bs.length := by
    rw [hn, List.length_append, ← Nat.add_assoc]
  subst same
  exact continues_guard clean nodup hd hg guardHere donePlace σ f (hb bodyHere donePlace σ)
    fun g => ⟨0, g, .refl⟩

/-- A loop with a counter. -/
theorem simulates_forLoop {counter limit increment : Node} {c : Cell} {top done : Nat}
    {bs : List Line} {body : Store → Option Outcome} (hc : IsSimple counter)
    (cell : counter.cell? = some c) (hl : IsSimple limit) (hi : IsSimple increment)
    (hb : ∀ {pc left}, At code pc bs → place? code done = some left →
      Simulates literal code fuel pc left bs body)
    (here : At code pc ([.label (.fresh top), .compare (operandText counter) (operandText limit),
        .branch (.ofRelation .ge) (.fresh done)] ++ bs ++
      [.assign .add (operandText counter) (operandText increment), .jump (.fresh top),
        .label (.fresh done)])) :
    Simulates literal code fuel pc left
      ([.label (.fresh top), .compare (operandText counter) (operandText limit),
          .branch (.ofRelation .ge) (.fresh done)] ++ bs ++
        [.assign .add (operandText counter) (operandText increment), .jump (.fresh top),
          .label (.fresh done)])
      (rounds (countedRound literal counter limit increment body) fuel) := by
  have lines : ([.label (.fresh top), .compare (operandText counter) (operandText limit),
        .branch (.ofRelation .ge) (.fresh done)] ++ bs ++
      [.assign .add (operandText counter) (operandText increment), .jump (.fresh top),
        .label (.fresh done)] : List Line) =
      [.label (.fresh top)] ++ ([.compare (operandText counter) (operandText limit),
        .branch (.ofRelation .ge) (.fresh done)] ++ bs ++
          [.assign .add (operandText counter) (operandText increment)]) ++
        [.jump (.fresh top), .label (.fresh done)] := by
    simp
  have testHere := here.left.left.tail
  have bodyHere : At code (pc + 3) bs := here.left.right
  have addHere : At code (pc + 3 + bs.length) _ :=
    here.right.cast (by rw [List.length_append, Nat.add_assoc]; rfl)
  rw [lines] at here ⊢
  -- a round is a test, the body and an addition
  refine simulates_loop clean nodup here fun {next} hn donePlace σ f => ?_
  have same : next = pc + 3 + bs.length + 1 := by
    simp only [hn, List.length_append, List.length_cons, List.length_nil]
    omega
  subst same
  have compared : Leads literal code 1 _ _ := leads_compare σ f testHere hc hl
  have tested := compared.trans (leads_branch σ testHere.tail donePlace _ _)
  have opposite : Relation.ge.holds (counter.value literal σ) (limit.value literal σ) =
      !decide (counter.value literal σ < limit.value literal σ) :=
    holds_opposite .lt _ _
  rw [opposite] at tested
  rw [countedRound]
  by_cases below : counter.value literal σ < limit.value literal σ
  · simp only [below, decide_true, Bool.not_true, Bool.false_eq_true, if_false] at tested
    rw [if_pos below]
    have ran := (hb bodyHere donePlace σ _).ofLeads tested (Nat.le_add_left _ _)
    exact .andThen (fun σ f => ⟨1, f, leads_assign σ f addHere hc cell hi⟩) ran
  · simp only [below, decide_false, Bool.not_false, if_true] at tested
    rw [if_neg below]
    exact ⟨_, _, tested⟩

/-- A choice without a second body. -/
theorem simulates_choice {cs : List Condition} {ops : List Connective} {d : Decision Condition}
    {done : Nat} {gs ts : List Line} {thenRun : Store → Option Outcome}
    (hd : Decision.ofTests? cs ops = some d) (hg : Branches false done d gs)
    (ht : ∀ {pc}, At code pc ts → Simulates literal code fuel pc left ts thenRun)
    (here : At code pc (gs ++ ts ++ [.label (.fresh done)])) :
    Simulates literal code fuel pc left (gs ++ ts ++ [.label (.fresh done)]) fun σ =>
      if conditionsHold literal σ cs ops then thenRun σ else some (.next σ) := by
  intro σ f
  have thenHere := here.left.right
  have doneHere := here.right
  have donePlace := place?_of_at clean nodup doneHere
  rw [List.length_append, List.length_singleton, ← Nat.add_assoc]
  refine (continues_guard clean nodup hd hg here.left.left donePlace σ f (fun g => ?_)
    fun g => ?_).andLeads fun σ f => leads_label σ f doneHere
  · rw [List.length_append, ← Nat.add_assoc]
    exact ht thenHere σ g
  · exact ⟨0, g, .refl⟩

/-- A choice between two bodies. -/
theorem simulates_choiceElse {cs : List Condition} {ops : List Connective}
    {d : Decision Condition} {done otherwise : Nat} {gs ts es : List Line}
    {thenRun elseRun : Store → Option Outcome} (hd : Decision.ofTests? cs ops = some d)
    (hg : Branches false otherwise d gs)
    (ht : ∀ {pc}, At code pc ts → Simulates literal code fuel pc left ts thenRun)
    (he : ∀ {pc}, At code pc es → Simulates literal code fuel pc left es elseRun)
    (here : At code pc (gs ++ ts ++ [.jump (.fresh done), .label (.fresh otherwise)] ++ es ++
      [.label (.fresh done)])) :
    Simulates literal code fuel pc left
      (gs ++ ts ++ [.jump (.fresh done), .label (.fresh otherwise)] ++ es ++
        [.label (.fresh done)]) fun σ =>
      if conditionsHold literal σ cs ops then thenRun σ else elseRun σ := by
  intro σ f
  have doneHere := here.right
  have donePlace := place?_of_at clean nodup doneHere
  have thenHere := here.left.left.left.right
  have jumpHere : At code (pc + gs.length + ts.length) _ :=
    here.left.left.right.cast (by rw [List.length_append, Nat.add_assoc])
  have otherwisePlace := place?_of_at clean nodup jumpHere.tail
  have elseHere : At code (pc + gs.length + ts.length + 1 + 1) es :=
    here.left.right.cast (by simp [Nat.add_assoc])
  have length : pc + gs.length + ts.length + 1 + 1 + es.length = pc + (gs ++ ts ++
      [.jump (.fresh done), .label (.fresh otherwise)] ++ es : List Line).length := by
    simp only [List.length_append, List.length_cons, List.length_nil]
    omega
  rw [← length] at doneHere donePlace
  rw [List.length_append, List.length_singleton, ← Nat.add_assoc, ← length]
  refine (continues_guard clean nodup hd hg here.left.left.left.left otherwisePlace σ f
    (fun g => ?_) fun g => ?_).andLeads fun σ f => leads_label σ f doneHere
  · exact (ht thenHere σ g).andLeads fun σ f => leads_jump σ f jumpHere donePlace
  · exact (he elseHere σ g).ofLeads (leads_label σ g jumpHere.tail) (Nat.le_add_left _ _)

end Statements

mutual

/-- The lines of a statement do what the statement does. -/
theorem Lowers.simulates {literal : Text → Int} {code : List Line} (clean : ∀ l ∈ code, IsClean l)
    (nodup : (labelNumbers code).Nodup) {fuel pc left : Nat} {exit? : Option Nat} {n : Node}
    {ls : List Line} : Lowers exit? n ls → (∀ m ∈ exit?, place? code m = some left) →
    At code pc ls → Simulates literal code fuel pc left ls (exec literal fuel n)
  | .exit h, _, here => fun σ f => ⟨1, run_exit σ f here h⟩
  | .assign ht hc hs, _, here => fun σ f => ⟨1, f, leads_assign σ f here ht hc hs⟩
  | .leave, place, here => fun σ f => ⟨1, f, leads_jump σ f here (place _ rfl)⟩
  | .loop hb, _, here => by
    have bodyHere := here.left.right
    refine simulates_loop clean nodup here fun {next} hn donePlace σ f => ?_
    subst hn
    exact hb.simulates clean nodup (by simpa using donePlace) bodyHere σ f
  | .whileLoop hd hg hb, _, here =>
    simulates_whileLoop clean nodup hd hg
      (fun bodyHere donePlace => hb.simulates clean nodup (by simpa using donePlace) bodyHere) here
  | .forLoop hc cell hl hi hb, _, here =>
    simulates_forLoop clean nodup hc cell hl hi
      (fun bodyHere donePlace => hb.simulates clean nodup (by simpa using donePlace) bodyHere) here
  | .choice hd hg ht, place, here =>
    simulates_choice clean nodup hd hg (ht.simulates clean nodup place) here
  | .choiceElse hd hg ht he, place, here =>
    simulates_choiceElse clean nodup hd hg (ht.simulates clean nodup place)
      (he.simulates clean nodup place) here

/-- The lines of several statements do what the statements do. -/
theorem LowersAll.simulates {literal : Text → Int} {code : List Line}
    (clean : ∀ l ∈ code, IsClean l) (nodup : (labelNumbers code).Nodup) {fuel pc left : Nat}
    {exit? : Option Nat} {ns : List Node} {ls : List Line} :
    LowersAll exit? ns ls → (∀ m ∈ exit?, place? code m = some left) →
    At code pc ls → Simulates literal code fuel pc left ls (execAll literal fuel ns)
  | .nil, _, _ => fun σ f => ⟨0, f, .refl⟩
  | .cons h hs, place, here => fun σ f => by
    rw [execAll, List.length_append, ← Nat.add_assoc]
    exact .andThen (hs.simulates clean nodup place here.right)
      (h.simulates clean nodup place here.left σ f)

end

end XtAsm.Listing
