import XtAsm.Proofs.Listing.Block
import XtAsm.Proofs.Program.WellFormed

/-!
# What the lines of a program contain

The labels, jumps and changes in the lines of a program are those of its statements, apart from the
ones that loops and choices are made of.

* `Line.labelName?`, `Line.target?`, `Line.change?`: what a line places, jumps to, and changes;
* `Node.label?`, `Node.jump?`, `Node.change?`: the same for a statement;
* `IsTidy`: lines whose texts cannot be taken apart in another way;
* `Contains`: the lines contain what the statements say, and their own labels;
* `contains_of_isExpressible`, `contains_sections`: the lines of every statement of source text do,
  and those of whole programs.
-/

namespace XtAsm

open Lexer

/-! ### Statements -/

namespace Node

/-- The name of a label. -/
def label? : Node → Option Text
  | .label name => some name
  | _ => none

/-- Where a jump goes. -/
def jump? : Node → Option Text
  | .jump target => some target
  | _ => none

/-- The operand that a statement changes, and how.  A counting loop adds to its counter. -/
def change? : Node → Option (Mnemonic × Node)
  | .assign op target _ => some (op, target)
  | .forLoop counter _ _ _ => some (.add, counter)
  | _ => none

theorem IsDestination.isOperand {n : Node} (h : n.IsDestination) : n.IsOperand := by
  cases h with
  | var h => exact .var h
  | register h => exact .register h

end Node

namespace Listing

open Node

/-! ### Texts without spaces and line breaks -/

/-- The text contains no space and no line break. -/
def IsBare (t : Text) : Prop := 32 ∉ t ∧ Text.newline ∉ t

instance (t : Text) : Decidable (IsBare t) := inferInstanceAs (Decidable (_ ∧ _))

theorem IsBare.append {t u : Text} (ht : IsBare t) (hu : IsBare u) : IsBare (t ++ u) := by
  simp only [IsBare, List.mem_append, not_or]
  exact ⟨⟨ht.1, hu.1⟩, ht.2, hu.2⟩

theorem isBare_ofChars {cs : List Char} (space : ' ' ∉ cs) (newline : '\n' ∉ cs) :
    IsBare (Text.ofChars cs) :=
  ⟨Text.not_mem_ofChars (by decide) (by decide) space,
    Text.not_mem_ofChars (by decide) (by decide) newline⟩

theorem isBare_of_isIdentifier {t : Text} (h : t.IsIdentifier) : IsBare t :=
  ⟨fun mem => absurd (h.2 _ mem) (by decide), fun mem => absurd (h.2 _ mem) (by decide)⟩

theorem isBare_of_isBareName {t : Text} (h : t.IsBareName) : IsBare t :=
  ⟨h.2 32 (by decide), h.2 Text.newline (by decide)⟩

theorem isBare_of_isNumeral {t : Text} (h : t.IsNumeral) : IsBare t :=
  ⟨fun mem => absurd (h.2 _ mem) (by decide), fun mem => absurd (h.2 _ mem) (by decide)⟩

theorem isBare_ofNat (n : Nat) : IsBare (Text.ofNat n) := by
  have digits {c : Char} (hc : c.isDigit = false) : c ∉ Nat.toDigits 10 n := fun mem => by
    rw [Text.isDigit_of_mem_toDigits mem] at hc
    cases hc
  exact isBare_ofChars (digits rfl) (digits rfl)

theorem isBare_ofInt (value : Int) : IsBare (Text.ofInt value) := by
  cases value with
  | ofNat n => exact isBare_ofNat n
  | negSucc n => exact IsBare.append (by decide) (isBare_ofNat _)

theorem isBare_fresh (n : Nat) : IsBare (Label.fresh n).render :=
  IsBare.append (by decide) (isBare_ofNat n)

theorem isBare_operandText {n : Node} (h : n.IsOperand) : IsBare (operandText n) := by
  cases h with
  | var h =>
    have name := isBare_of_isIdentifier (Written.isIdentifier (.inl h))
    exact (IsBare.append (by decide) name).append (by decide)
  | register h => exact isBare_of_isBareName (Written.isBareName (.inl h))
  | literal h => exact isBare_of_isNumeral h.isNumeral

/-! ### Lines -/

/-- The name of the label that a line places, if it is one of the program. -/
def Line.labelName? : Line → Option Text
  | .label (.named name) => some name
  | _ => none

/-- The label that a line jumps to. -/
def Line.target? : Line → Option Label
  | .jump l | .branch _ l => some l
  | _ => none

/-- The operand that a line changes, and how. -/
def Line.change? : Line → Option (Mnemonic × Text)
  | .assign op target _ => some (op, target)
  | _ => none

/-- The name of a label of the program. -/
def Label.name? : Label → Option Text
  | .named name => some name
  | .fresh _ => none

/-- All texts of the line are free of spaces and line breaks.  Operands do not stand alone. -/
inductive IsTidy : Line → Prop
  | dataHead : IsTidy .dataHead
  | codeHead : IsTidy .codeHead
  | label {l : Label} (h : IsBare l.render) : IsTidy (.label l)
  | exit {value : Text} (h : IsBare value) : IsTidy (.exit value)
  | assign {op : Mnemonic} {target source : Text} (ht : IsBare target) (hs : IsBare source) :
      IsTidy (.assign op target source)
  | jump {l : Label} (h : IsBare l.render) : IsTidy (.jump l)
  | compare {lhs rhs : Text} (hl : IsBare lhs) (hr : IsBare rhs) : IsTidy (.compare lhs rhs)
  | branch {op : Comparator} {l : Label} (h : IsBare l.render) : IsTidy (.branch op l)
  | constant {name value : Text} (hn : IsBare name) (hv : IsBare value) :
      IsTidy (.constant name value)
  | zero {name : Text} (hn : IsBare name) : IsTidy (.zero name)
  | word {name value : Text} (hn : IsBare name) (hv : IsBare value) : IsTidy (.word name value)

/-- Lines contain the labels, the jumps and the changes of statements, and place labels with the
given numbers.  Every other jump goes to one of these labels, or to one of some outer labels. -/
structure Contains (outer : List Nat) (ns : List Node) (ls : List Line) (ks : List Nat) :
    Prop where
  tidy : ∀ l ∈ ls, IsTidy l
  numbers : labelNumbers ls = ks
  names : ls.filterMap Line.labelName? = ns.filterMap Node.label?
  jumps : (ls.filterMap Line.target?).filterMap Label.name? = ns.filterMap Node.jump?
  resolved : ∀ k, .fresh k ∈ ls.filterMap Line.target? → k ∈ ks ∨ k ∈ outer
  changes : (ls.filterMap Line.change?).Perm
    ((ns.filterMap Node.change?).map fun c => (c.1, operandText c.2))

namespace Contains

variable {outer outer' : List Nat} {ns ms : List Node} {ls rs : List Line} {ks js : List Nat}

theorem nil : Contains outer [] [] [] := ⟨by simp, rfl, rfl, rfl, by simp, .nil⟩

theorem append (h : Contains outer ns ls ks) (h' : Contains outer' ms rs js) :
    Contains (outer ++ outer') (ns ++ ms) (ls ++ rs) (ks ++ js) where
  tidy := by
    rw [List.forall_mem_append]
    exact ⟨h.tidy, h'.tidy⟩
  numbers := by rw [labelNumbers_append, h.numbers, h'.numbers]
  names := by rw [List.filterMap_append, List.filterMap_append, h.names, h'.names]
  jumps := by simp only [List.filterMap_append, h.jumps, h'.jumps]
  resolved := by
    intro k mem
    rw [List.filterMap_append, List.mem_append] at mem
    simp only [List.mem_append]
    rcases mem with mem | mem
    · exact (h.resolved k mem).imp .inl .inl
    · exact (h'.resolved k mem).imp .inr .inr
  changes := by
    simp only [List.filterMap_append, List.map_append]
    exact h.changes.append h'.changes

/-- Outer labels that the lines place are no outer labels. -/
theorem resolve (h : Contains outer ns ls ks) (outer' : List Nat)
    (inside : ∀ k ∈ outer, k ∈ ks ∨ k ∈ outer') : Contains outer' ns ls ks :=
  ⟨h.tidy, h.numbers, h.names, h.jumps,
    fun k mem => (h.resolved k mem).elim .inl (inside k), h.changes⟩

/-- Statements may be replaced by others that say the same. -/
theorem congr (h : Contains outer ns ls ks) (ms : List Node)
    (labels : ns.filterMap Node.label? = ms.filterMap Node.label?)
    (jumps : ns.filterMap Node.jump? = ms.filterMap Node.jump?)
    (changes : (ns.filterMap Node.change?).Perm (ms.filterMap Node.change?)) :
    Contains outer ms ls ks :=
  ⟨h.tidy, h.numbers, h.names.trans labels, h.jumps.trans jumps, h.resolved,
    h.changes.trans (changes.map _)⟩

/-- A statement that neither places a label nor jumps nor changes an operand. -/
theorem enclosed (h : Contains outer ns ls ks) {n : Node} (label : n.label? = none)
    (jump : n.jump? = none) (change : n.change? = none) : Contains outer (n :: ns) ls ks :=
  h.congr _ (by rw [List.filterMap_cons_none label]) (by rw [List.filterMap_cons_none jump])
    (by rw [List.filterMap_cons_none change])

/-- A line without a label, a jump and a change. -/
theorem silent {l : Line} (tidy : IsTidy l) (label : labelText? l = none)
    (target : l.target? = none) (change : l.change? = none) : Contains [] [] [l] [] := by
  refine ⟨by simpa using tidy, ?_, ?_, by simp [target], by simp [target], by simp [change]⟩
  · cases l with
    | label => cases label
    | _ => rfl
  · cases l with
    | label => cases label
    | _ => rfl

theorem label {name : Text} (h : IsBare name) :
    Contains [] [Node.label name] [.label (.named name)] [] :=
  ⟨by simpa using .label h, rfl, rfl, rfl, by simp [Line.target?], .nil⟩

theorem leap {target : Text} (h : IsBare target) :
    Contains [] [Node.jump target] [.jump (.named target)] [] :=
  ⟨by simpa using .jump h, rfl, rfl, rfl, by simp [Line.target?], .nil⟩

theorem fresh (n : Nat) : Contains [] [] [.label (.fresh n)] [n] :=
  ⟨by simpa using .label (isBare_fresh n), rfl, rfl, rfl, by simp [Line.target?], .nil⟩

theorem jump (n : Nat) : Contains [n] [] [.jump (.fresh n)] [] :=
  ⟨by simpa using .jump (isBare_fresh n), rfl, rfl, rfl, by simp [Line.target?], .nil⟩

theorem branch (op : Comparator) (n : Nat) : Contains [n] [] [.branch op (.fresh n)] [] :=
  ⟨by simpa using .branch (isBare_fresh n), rfl, rfl, rfl, by simp [Line.target?], .nil⟩

theorem compare {lhs rhs : Text} (hl : IsBare lhs) (hr : IsBare rhs) :
    Contains [] [] [.compare lhs rhs] [] :=
  silent (.compare hl hr) rfl rfl rfl

theorem assign {target source : Node} (ht : target.IsOperand) (hs : source.IsOperand)
    (op : Mnemonic) : Contains [] [.assign op target source]
      [.assign op (operandText target) (operandText source)] [] :=
  ⟨by simpa using .assign (isBare_operandText ht) (isBare_operandText hs), rfl, rfl, rfl,
    by simp [Line.target?], .refl _⟩

end Contains

/-! ### Operands and conditions -/

variable {exit? : Option Label}

/-- An operand of source text is laid out as its text, without labels. -/
theorem Lays.text {n : Node} (h : n.IsOperand) {ls : List Line} {ks : List Nat}
    (lays : Lays exit? n ls ks) : render ls = operandText n ∧ ks = [] := by
  cases h with
  | var h => exact lays.operand (.var h)
  | literal h => exact lays.operand (.literal h)
  | register =>
    -- whatever its name is
    cases lays
    exact ⟨render_bareLines _, rfl⟩

/-- A comparison of operands of source text, without labels. -/
def Comparison.IsTidy (c : Comparison) : Prop := IsBare c.lhs ∧ IsBare c.rhs ∧ c.labels = []

/-- The comparisons of conditions of source text are tidy. -/
theorem LaysDecision.isTidy {d : Decision Condition} {d' : Decision Comparison}
    (lays : LaysDecision exit? d d') (h : ∀ c ∈ d.tests, IsComparison c) :
    ∀ c ∈ d'.tests, c.IsTidy := by
  induction d generalizing d' with
  | test c =>
    cases lays with
    | test left right =>
      rw [Decision.tests, List.forall_mem_singleton] at h ⊢
      cases h with
      | mk hl hr =>
        obtain ⟨leftText, rfl⟩ := left.text hl
        obtain ⟨rightText, rfl⟩ := right.text hr
        refine ⟨?_, ?_, rfl⟩
        · rw [leftText]
          exact isBare_operandText hl
        · rw [rightText]
          exact isBare_operandText hr
  | connect op a b iha ihb =>
    cases lays with
    | connect laysA laysB =>
      rw [Decision.tests, List.forall_mem_append] at h ⊢
      exact ⟨iha laysA h.1, ihb laysB h.2⟩

/-- The lines of a decision jump to its target, or within themselves. -/
theorem Branching.contains {expected : Bool} {target : Nat} {d : Decision Comparison}
    {ls : List Line} {ks : List Nat} (h : Branching expected (.fresh target) d ls ks)
    (tidy : ∀ c ∈ d.tests, c.IsTidy) : Contains [target] [] ls ks := by
  induction d generalizing expected target ls ks with
  | test c =>
    rw [Decision.tests, List.forall_mem_singleton] at tidy
    cases h
    rw [tidy.2.2]
    exact (Contains.compare tidy.1 tidy.2.1).append (.branch _ target)
  | connect op a b iha ihb =>
    rw [Decision.tests, List.forall_mem_append] at tidy
    cases h with
    | direct ha hb =>
      exact ((iha ha tidy.1).append (ihb hb tidy.2)).resolve _ (by simp)
    | crossed _ ha hb =>
      exact (((iha ha tidy.1).append (ihb hb tidy.2)).append (.fresh _)).resolve _ (by simp)

/-- The lines of a guard jump to its target, or within themselves. -/
theorem LaysGuard.contains {cs : List Condition} {ops : List Connective} (h : IsChain cs ops)
    {target : Nat} {ls : List Line} {ks : List Nat}
    (lays : LaysGuard exit? (.fresh target) cs ops ls ks) : Contains [target] [] ls ks := by
  cases lays with
  | chain tests laysDecision branching =>
    refine branching.contains (laysDecision.isTidy ?_)
    rw [Decision.tests_of_ofTests? tests]
    exact h.isComparison
  | unmatched unmatched => exact absurd h.length_eq unmatched

/-! ### Statements -/

/-- The lines of a body, from those of each statement. -/
theorem LaysAll.contains {outer : List Nat} {ns : List Node} {ls : List Line} {ks : List Nat}
    (h : ∀ n ∈ ns, ∀ {ls ks}, Lays exit? n ls ks → Contains outer n.statements ls ks)
    (lays : LaysAll exit? ns ls ks) : Contains outer (statementsAll ns) ls ks := by
  induction ns generalizing ls ks with
  | nil =>
    cases lays
    exact .nil
  | cons n ns ih =>
    rw [List.forall_mem_cons] at h
    cases lays with
    | cons lays laysAll =>
      exact ((h.1 lays).append (ih h.2 laysAll)).resolve _ fun k hk => .inr (by simpa using hk)

/-- The lines of a statement of source text contain what it says.  They jump out of it only to the
label after the innermost loop around it. -/
theorem contains_of_isExpressible {n : Node} (h : n.IsExpressible) {done? : Option Nat}
    (same : exit? = done?.map .fresh) {ls : List Line} {ks : List Nat}
    (lays : Lays exit? n ls ks) : Contains done?.toList n.statements ls ks := by
  induction h generalizing exit? done? ls ks with
  | label h =>
    cases lays
    exact (Contains.label (isBare_of_isBareName (Written.isBareName (.inr h)))).resolve _ (by simp)
  | leave =>
    cases lays with
    | leave =>
      obtain ⟨done, rfl, rfl⟩ := Option.map_eq_some_iff.1 same.symm
      exact (Contains.jump done).enclosed rfl rfl rfl
    | stray => exact Contains.nil.enclosed rfl rfl rfl
  | jump h =>
    cases lays
    exact (Contains.leap (isBare_of_isBareName (Written.isBareName (.inr h)))).resolve _ (by simp)
  | exit h =>
    cases lays with
    | exit lays =>
      obtain ⟨text, rfl⟩ := lays.text h
      rw [text]
      exact ((Contains.silent (.exit (isBare_operandText h)) rfl rfl rfl).enclosed
        rfl rfl rfl).resolve _ (by simp)
  | assign ht hs =>
    cases lays with
    | assign laysTarget laysSource =>
      obtain ⟨targetText, rfl⟩ := laysTarget.text ht.isOperand
      obtain ⟨sourceText, rfl⟩ := laysSource.text hs
      rw [targetText, sourceText]
      exact (Contains.assign ht.isOperand hs _).resolve _ (by simp)
  | @loop body _ ih =>
    cases lays with
    | @loop _ _ top done _ _ laysBody =>
      have inside := laysBody.contains fun n hn => ih n hn (Option.map_some ..).symm
      have lines := (((Contains.fresh top).append inside).append (.jump top)).append (.fresh done)
      have closed := (lines.resolve done?.toList (by simp)).enclosed
        (n := .loop body) rfl rfl rfl
      simpa [statements] using closed
  | @whileLoop cs ops body hc _ ih =>
    cases lays with
    | @whileLoop _ _ _ _ top done _ _ _ _ guard laysBody =>
      have inside := laysBody.contains fun n hn => ih n hn (Option.map_some ..).symm
      have lines := ((((Contains.fresh top).append (guard.contains hc)).append inside).append
        (.jump top)).append (.fresh done)
      have closed := (lines.resolve done?.toList (by simp)).enclosed
        (n := .whileLoop cs ops body) rfl rfl rfl
      simpa [statements] using closed
  | @forLoop counter limit increment body hc hl hi _ ih =>
    cases lays with
    | @forLoop _ _ _ _ _ top done _ _ _ _ _ _ _ _ laysCounter laysLimit laysBody laysIncrement =>
      obtain ⟨counterText, rfl⟩ := laysCounter.text hc
      obtain ⟨limitText, rfl⟩ := laysLimit.text hl
      obtain ⟨incrementText, rfl⟩ := laysIncrement.text hi
      rw [counterText, limitText, incrementText]
      have inside := laysBody.contains fun n hn => ih n hn (Option.map_some ..).symm
      have test := Contains.compare (isBare_operandText hc) (isBare_operandText hl)
      have head := ((Contains.fresh top).append test).append (.branch (.ofRelation .ge) done)
      have tail := ((Contains.assign hc hi .add).append (.jump top)).append (.fresh done)
      have lines := ((head.append inside).append tail).resolve done?.toList (by simp)
      -- the increment is added after the body
      have counted : ((statementsAll body ++ [Node.assign .add counter increment]).filterMap
          Node.change?).Perm ((.add, counter) :: (statementsAll body).filterMap Node.change?) := by
        rw [List.filterMap_append]
        exact List.perm_append_singleton _ _
      have closed := lines.congr (Node.forLoop counter limit increment body).statements
        (by simp [statements, List.filterMap_cons, label?])
        (by simp [statements, List.filterMap_cons, jump?]) counted
      simpa using closed
  | @choice cs ops thenBody elseBody hc _ _ _ iht ihe =>
    cases lays with
    | @choice _ _ _ _ done _ _ _ _ guard laysThen =>
      have first := laysThen.contains fun n hn => iht n hn same
      have lines := ((guard.contains hc).append first).append (.fresh done)
      have closed := (lines.resolve done?.toList (by simp +contextual)).enclosed
        (n := .choice cs ops thenBody []) rfl rfl rfl
      simpa [statements, statementsAll] using closed
    | @choiceElse _ _ _ _ _ done otherwise _ _ _ _ _ _ _ guard laysThen laysElse =>
      have first := laysThen.contains fun n hn => iht n hn same
      have second := laysElse.contains fun n hn => ihe n hn same
      have lines := (((((guard.contains hc).append first).append (.jump done)).append
        (.fresh otherwise)).append second).append (.fresh done)
      have closed := (lines.resolve done?.toList (by simp; grind)).enclosed
        (n := .choice cs ops thenBody elseBody) rfl rfl rfl
      simpa [statements] using closed

/-! ### Declarations -/

/-- The lines of a declaration of source text place no labels. -/
theorem contains_of_isDeclared {n : Node} (h : n.IsDeclared) {ls : List Line} {ks : List Nat}
    (lays : Lays exit? n ls ks) : Contains [] [] ls ks := by
  cases h with
  | @var name value hn hv =>
    cases lays with
    | var =>
      have bare := isBare_of_isIdentifier (Written.isIdentifier (.inl hn))
      rcases hv with rfl | hv
      · exact .silent (.zero bare) rfl rfl rfl
      · have numeral := Written.isNumeral hv
        have initialised : value ≠ [] := fun empty => by
          obtain ⟨b, head, -⟩ := numeral.1
          rw [empty] at head
          cases head
        have lines : variableLines ⟨name, value, true⟩ = [.word name value] := by
          simp [variableLines, initialised]
        rw [lines]
        exact .silent (.word bare (isBare_of_isNumeral numeral)) rfl rfl rfl
  | @enum name members hn hm =>
    cases lays with
    | enum =>
      induction members with
      | nil => exact .nil
      | cons m members ih =>
        rw [List.forall_mem_cons] at hm
        obtain ⟨⟨text, value, written, rfl⟩, rest⟩ := hm
        have bare := isBare_of_isIdentifier (isIdentifier_qualified
          (Written.isIdentifier (.inr hn)) (Written.isIdentifier written))
        exact (Contains.silent (.constant bare (isBare_ofInt value)) rfl rfl rfl).append (ih rest)

/-- The lines of a data section of source text. -/
theorem contains_of_laysAll {ns : List Node} (h : ∀ n ∈ ns, n.IsDeclared) {ls : List Line}
    {ks : List Nat} (lays : LaysAll exit? ns ls ks) : Contains [] [] ls ks := by
  induction ns generalizing ls ks with
  | nil =>
    cases lays
    exact .nil
  | cons n ns ih =>
    rw [List.forall_mem_cons] at h
    cases lays with
    | cons lays laysAll => exact (contains_of_isDeclared h.1 lays).append (ih h.2 laysAll)

/-- The lines of both sections of a program of source text contain what its code section says. -/
theorem contains_sections {ds cs : List Node} (hd : ∀ n ∈ ds, n.IsDeclared)
    (hc : ∀ n ∈ cs, n.IsExpressible) {data code : List Line} {ns ms : List Nat}
    (laysData : Lays none (.data ds) data ns) (laysCode : Lays none (.code cs) code ms) :
    Contains [] (statementsAll cs) (data ++ code) (ns ++ ms) := by
  cases laysData with
  | data laysData =>
    cases laysCode with
    | code laysCode =>
      have top : (none : Option Label) = (none : Option Nat).map .fresh := rfl
      have dataLines := (Contains.silent .dataHead rfl rfl rfl).append
        (contains_of_laysAll hd laysData)
      have codeLines := (Contains.silent .codeHead rfl rfl rfl).append
        (laysCode.contains fun n hn => contains_of_isExpressible (hc n hn) top)
      exact dataLines.append codeLines

end Listing

end XtAsm
