import XtAsm.Proofs.Grammar.Soundness
import XtAsm.Proofs.Node.Reprint
import XtAsm.Proofs.Parser.CorrectPrefix
import XtAsm.Proofs.Text.Numeral

/-!
# The numbers of an enumeration's members

The parser counts the members of an enumeration, and an index sets the count anew.  The value of a
member is described here without the count: it is the last index at the member or before it, and
the distance from there on top.

* `EnumMember`, `Enumeration`: a member as it is written, and an enumeration from its keyword to
  its `end`;
* `Number`: the number of the member at a position, from the indices up to that position;
* `exists_enumMembers`: what the parser counts is what `Number` says, up to 64-bit arithmetic;
* `exists_reaches_of_enum`, `exists_enumeration`, `Enumeration.tokens_append_inj`: in a program
  every keyword of an enumeration starts one, and only one;
* `Program.enum_numbered`: the enumeration that a program declares in the place of its tokens.
-/

namespace XtAsm

open XtAsm.Parser

namespace Grammar

/-! ### Enumerations as they are written -/

/-- A member of an enumeration as it is written: a word, and the index that it may carry. -/
structure EnumMember where
  word : Token
  index? : Option Token
  isWord : word.kind = .var ∨ word.kind = .name
  isIndex : ∀ i ∈ index?, i.kind = .int

/-- The tokens of a member. -/
def EnumMember.tokens (x : EnumMember) : List Token := x.word :: x.index?.toList

/-- An enumeration as it is written, from its keyword to its `end`. -/
structure Enumeration where
  keyword : Token
  name : Token
  entries : List EnumMember
  close : Token
  isKeyword : keyword.kind = .word .enum
  isName : name.kind = .name
  isClose : close.kind = .word .end_

/-- The tokens of an enumeration. -/
def Enumeration.tokens (d : Enumeration) : List Token :=
  d.keyword :: d.name :: (d.entries.flatMap EnumMember.tokens ++ [d.close])

/-- After a member without an index there is no integer. -/
theorem EnumMember.not_int_of_flatMap {xs : List EnumMember} {e t : Token} {us vs : List Token}
    (he : e.kind = .word .end_) (h : xs.flatMap EnumMember.tokens ++ e :: us = t :: vs) :
    t.kind ≠ .int := by
  cases xs with
  | nil =>
    cases h
    simp [he]
  | cons x xs =>
    cases h
    rcases x.isWord with hk | hk <;> simp [hk]

/-- Up to an `end`, tokens are the members of an enumeration in at most one way. -/
theorem EnumMember.flatMap_append_inj {xs ys : List EnumMember} {e f : Token} {us vs : List Token}
    (he : e.kind = .word .end_) (hf : f.kind = .word .end_)
    (h : xs.flatMap EnumMember.tokens ++ e :: us = ys.flatMap EnumMember.tokens ++ f :: vs) :
    xs = ys ∧ e = f ∧ us = vs := by
  induction xs generalizing ys with
  | nil =>
    cases ys with
    | nil =>
      cases h
      exact ⟨rfl, rfl, rfl⟩
    | cons y ys =>
      cases h
      rcases y.isWord with hk | hk <;> simp [he] at hk
  | cons x xs ih =>
    cases ys with
    | nil =>
      cases h
      rcases x.isWord with hk | hk <;> simp [hf] at hk
    | cons y ys =>
      obtain ⟨m, i?, isWord, isIndex⟩ := x
      obtain ⟨n, j?, isWord', isIndex'⟩ := y
      simp only [List.flatMap_cons, EnumMember.tokens, List.cons_append, List.append_assoc] at h
      obtain ⟨rfl, rest⟩ := List.cons.inj h
      -- either both members carry an index, or neither does
      cases i? with
      | none =>
        cases j? with
        | none =>
          obtain ⟨rfl, same⟩ := ih rest
          exact ⟨rfl, same⟩
        | some j => exact absurd (isIndex' j rfl) (not_int_of_flatMap he rest)
      | some i =>
        cases j? with
        | none => exact absurd (isIndex i rfl) (not_int_of_flatMap hf rest.symm)
        | some j =>
          obtain ⟨rfl, more⟩ := List.cons.inj rest
          obtain ⟨rfl, same⟩ := ih more
          exact ⟨rfl, same⟩

/-- Tokens start with at most one enumeration. -/
theorem Enumeration.tokens_append_inj {d d' : Enumeration} {us vs : List Token}
    (h : d.tokens ++ us = d'.tokens ++ vs) : d = d' ∧ us = vs := by
  obtain ⟨k, n, xs, e, hk, hn, he⟩ := d
  obtain ⟨k', n', ys, f, hk', hn', hf⟩ := d'
  simp only [Enumeration.tokens, List.cons_append, List.append_assoc, List.nil_append,
    List.cons.injEq] at h
  obtain ⟨rfl, rfl, h⟩ := h
  obtain ⟨rfl, rfl, same⟩ := EnumMember.flatMap_append_inj he hf h
  exact ⟨rfl, same⟩

/-! ### Numbers -/

/-- The index that the member at a position carries. -/
def indexAt (xs : List EnumMember) (i : Nat) : Option Token := xs[i]?.bind EnumMember.index?

@[simp] theorem indexAt_cons_zero (x : EnumMember) (xs : List EnumMember) :
    indexAt (x :: xs) 0 = x.index? := rfl

@[simp] theorem indexAt_cons_succ (x : EnumMember) (xs : List EnumMember) (i : Nat) :
    indexAt (x :: xs) (i + 1) = indexAt xs i := by
  simp [indexAt]

/-- The number of the member at a position, where the first one has the given number unless it
carries an index. -/
inductive Number (first : Int) (xs : List EnumMember) (i : Nat) : Int → Prop
  /-- No member up to the position carries an index. -/
  | counted (none : ∀ l ≤ i, indexAt xs l = none) : Number first xs i (first + i)
  /-- The last member up to the position that carries an index stands at `j`. -/
  | indexed {j : Nat} {t : Token} {value : Int} (le : j ≤ i) (index : indexAt xs j = some t)
      (reads : Text.readInt t.text = .ok value) (last : ∀ l ≤ i, j < l → indexAt xs l = none) :
      Number first xs i (value + (i - j : Nat))

/-- Positions are shifted by a member in front. -/
theorem indexAt_cons_eq_none {x : EnumMember} {xs : List EnumMember} {j i : Nat}
    (h : ∀ l ≤ i, j ≤ l → indexAt xs l = none) :
    ∀ l ≤ i + 1, j < l → indexAt (x :: xs) l = none := by
  intro l le later
  cases l with
  | zero => exact absurd later (Nat.not_lt_zero j)
  | succ l =>
    rw [indexAt_cons_succ]
    exact h l (Nat.le_of_succ_le_succ le) (Nat.le_of_lt_succ later)

/-- After the first member the count goes on from its number. -/
theorem Number.cons {first v w : Int} {x : EnumMember} {xs : List EnumMember} {i : Nat}
    (head : Number first (x :: xs) 0 v) (tail : Number (v + 1) xs i w) :
    Number first (x :: xs) (i + 1) w := by
  cases tail with
  | @indexed j t value le index reads last =>
    rw [← Nat.add_sub_add_right i 1 j]
    exact .indexed (Nat.succ_le_succ le) index reads (indexAt_cons_eq_none last)
  | counted none =>
    have later := indexAt_cons_eq_none (x := x) (j := 0) fun l le _ => none l le
    cases head with
    | counted here =>
      have upTo : ∀ l ≤ i + 1, indexAt (x :: xs) l = Option.none := by
        intro l le
        cases l with
        | zero => exact here 0 (Nat.le_refl 0)
        | succ l => exact later (l + 1) le (Nat.succ_pos l)
      have total : first + (0 : Nat) + 1 + i = first + (i + 1 : Nat) := by omega
      rw [total]
      exact .counted upTo
    | @indexed j t value le index reads last =>
      obtain rfl := Nat.le_zero.mp le
      have total : value + (0 - 0 : Nat) + 1 + i = value + (i + 1 - 0 : Nat) := by omega
      rw [total]
      exact .indexed (Nat.zero_le (i + 1)) index reads later

theorem Number.head_of_none {first : Int} {x : EnumMember} {xs : List EnumMember}
    (absent : x.index? = none) : Number first (x :: xs) 0 first := by
  have here : ∀ l ≤ 0, indexAt (x :: xs) l = none := by
    intro l le
    obtain rfl := Nat.le_zero.mp le
    exact absent
  have number : Number first (x :: xs) 0 (first + (0 : Nat)) := .counted here
  simpa using number

theorem Number.head_of_some {first value : Int} {x : EnumMember} {xs : List EnumMember} {t : Token}
    (present : x.index? = some t) (reads : Text.readInt t.text = .ok value) :
    Number first (x :: xs) 0 value := by
  have last : ∀ l ≤ 0, 0 < l → indexAt (x :: xs) l = none := fun l le later =>
    absurd later (Nat.not_lt.mpr le)
  have number : Number first (x :: xs) 0 (value + (0 - 0 : Nat)) :=
    .indexed (Nat.le_refl 0) present reads last
  simpa using number

/-- The members are the ones that are written, in their order, with their numbers for values. -/
structure Numbered (name : Text) (first : Int) (xs : List EnumMember) (members : List Variable) :
    Prop where
  length : members.length = xs.length
  member : ∀ (i : Nat) (x : EnumMember), xs[i]? = some x → ∃ v, Number first xs i v ∧
    members[i]? = some ⟨name ++ "." ++ x.word.text, Text.ofInt (Text.wrap64 v), true⟩

theorem Numbered.nil (name : Text) (first : Int) : Numbered name first [] [] :=
  ⟨rfl, by simp⟩

theorem Numbered.cons {name : Text} {first v : Int} {x : EnumMember} {xs : List EnumMember}
    {members : List Variable} (head : Number first (x :: xs) 0 v)
    (tail : Numbered name (v + 1) xs members) :
    Numbered name first (x :: xs)
      (⟨name ++ "." ++ x.word.text, Text.ofInt (Text.wrap64 v), true⟩ :: members) := by
  refine ⟨by rw [List.length_cons, List.length_cons, tail.length], fun i y found => ?_⟩
  cases i with
  | zero =>
    obtain rfl : x = y := by simpa using found
    exact ⟨v, head, rfl⟩
  | succ i =>
    obtain ⟨w, number, member⟩ := tail.member i y (by simpa using found)
    exact ⟨w, head.cons number, by simpa using member⟩

/-- The count of the parser is the number of the next member, up to 64-bit arithmetic. -/
theorem exists_enumMembers {name : Text} {first next : Int} {ts : List Token}
    {members : List Variable} (h : IsMembers name next ts members)
    (count : next = Text.wrap64 first) :
    ∃ xs, ts = xs.flatMap EnumMember.tokens ∧ Numbered name first xs members := by
  induction h generalizing first with
  | nil => exact ⟨[], rfl, .nil name first⟩
  | @counted next m ts members hm hs ih =>
    have step : Text.wrap64 (next + 1) = Text.wrap64 (first + 1) := by
      rw [count, Text.wrap64_wrap64_add]
    obtain ⟨xs, rfl, numbered⟩ := ih step
    refine ⟨⟨m, none, hm, by simp⟩ :: xs, rfl, ?_⟩
    rw [count]
    exact .cons (.head_of_none rfl) numbered
  | @indexed next value m i ts members hm hi hv hs ih =>
    obtain ⟨xs, rfl, numbered⟩ := ih rfl
    refine ⟨⟨m, some i, hm, by simpa using hi⟩ :: xs, rfl, ?_⟩
    -- an index that is read is a word already
    rw [← Text.wrap64_of_readInt hv]
    exact .cons (.head_of_some rfl hv) numbered

/-! ### Enumerations in a program -/

/-- No statement has the keyword of an enumeration in it. -/
theorem acceptReading_enum_ne_ok {b : Blocks} {r : Reading} {k : Token}
    (hk : k.kind = .word .enum) (next : Blocks × Reading) : acceptReading b r k ≠ .ok next := by
  intro h
  have noOperand (slot : Slot) (o : Operand) : operandAt slot k ≠ .ok o := by
    simp [operandAt, operand?, hk]
  cases r with
  | statement => simp [acceptReading, acceptStatement, hk] at h
  | exitValue | target | source | left | counter | limit | increment =>
    obtain ⟨o, accepted, -⟩ := exists_of_bind_eq_ok h
    exact noOperand _ o accepted
  | right =>
    obtain ⟨_, accepted, -⟩ := exists_of_bind_eq_ok h
    obtain ⟨o, accepted, -⟩ := exists_of_bind_eq_ok accepted
    exact noOperand _ o accepted
  | jumpLabel | comparison | connective | firstSemicolon | secondSemicolon | rangeIn =>
    simp [acceptReading, hk] at h

/-- The keyword of an enumeration is accepted only where a declaration is due. -/
theorem inData_of_step_enum {s s' : State} {k : Token} (hk : k.kind = .word .enum)
    (h : s.step k = .ok s') :
    ∃ head ds, s = declaring s head ds .declaration ∧ s' = declaring s head ds (.enumName k) := by
  rcases settle_cases s k with same | outside
  · rw [State.step, same] at h
    obtain ⟨data?, code?, reports, phase⟩ := s
    cases phase with
    | outside => simp [State.accept, hk] at h
    | inData head ds d =>
      obtain ⟨next, accepted, eq⟩ := exists_of_bind_eq_ok h
      cases eq
      cases d with
      | declaration =>
        simp only [acceptDeclaring, hk] at accepted
        cases accepted
        exact ⟨head, ds, rfl, rfl⟩
      | value | enumName | member | index =>
        simp [acceptDeclaring, acceptMember, hk] at accepted
    | inCode head b r =>
      obtain ⟨next, accepted, -⟩ := exists_of_bind_eq_ok h
      exact absurd accepted (acceptReading_enum_ne_ok hk next)
  -- no section starts with the keyword
  · simp [State.step, State.accept, outside, hk] at h

/-- A data section that was read stays. -/
theorem data_of_accepts {s : State} {ts : List Token} {p : Program} {ds : List Node}
    (outside : s.phase = .outside) (data : s.data? = some ds) (h : Accepts s ts p) :
    p.data = ds := by
  rcases accepts_outside outside h with ⟨-, rfl⟩ | ⟨_, _, _, _, -, -, absent, -⟩ |
    ⟨head, _, vs, cs, -, -, -, h⟩
  · simp [State.program, data]
  · rw [data] at absent
    cases absent
  · obtain ⟨-, rfl⟩ := accepts_complete (s := s.finishCode head cs) rfl data rfl h
    rfl

/-- Declarations that were read stay, in front of the ones that follow. -/
theorem exists_later {s : State} {head : Token} {ts : List Token} {p : Program} {ds : List Node}
    (h : Accepts (declaring s head ds .declaration) ts p) : ∃ later, p.data = ds ++ later := by
  obtain ⟨_, vs, later, -, -, rest⟩ := split_declarations ts.length (Nat.le_refl _) h
  exact ⟨later, data_of_accepts rfl rfl rest⟩

/-- Tokens that are accepted as far as a keyword of an enumeration wait for declarations there. -/
theorem exists_reaches_of_enum {before ts : List Token} {k : Token} {p : Program}
    (hk : k.kind = .word .enum)
    (accepted : (Program.ofTokens (before ++ k :: ts)).result = .ok p) :
    ∃ s head ds, Reaches .initial before (declaring s head ds .declaration) ∧
      Accepts (declaring s head ds (.enumName k)) ts p := by
  rcases reaches_or_stops .initial before with ⟨last, reached⟩ |
    ⟨front, t, back, last, e, rfl, reached, stop⟩
  · rw [Program.ofTokens, reached.run_append] at accepted
    cases step : last.step k with
    | error e =>
      rw [run_cons_of_error ts step] at accepted
      cases accepted
    | ok next =>
      rw [run_cons_of_ok ts step] at accepted
      obtain ⟨head, ds, inData, rfl⟩ := inData_of_step_enum hk step
      rw [inData] at reached
      exact ⟨last, head, ds, reached, accepted⟩
  · rw [List.append_assoc, List.cons_append, reached.result_of_error stop] at accepted
    cases accepted

/-- Where a declaration is due, the section can end just as well. -/
theorem exists_program_of_reaches {s : State} {head : Token} {ds : List Node} {ts : List Token}
    (reached : Reaches .initial ts (declaring s head ds .declaration)) :
    ∃ q, (Program.ofTokens ts).result = .ok q ∧ q.data = ds := by
  refine ⟨(s.finishData head ds).program, ?_, rfl⟩
  rw [← List.append_nil ts, Program.ofTokens, reached.run_append]
  rfl

/-- The enumeration that a keyword starts. -/
theorem exists_enumeration {s : State} {head k : Token} {ds : List Node} {ts : List Token}
    {p : Program} (hk : k.kind = .word .enum)
    (h : Accepts (declaring s head ds (.enumName k)) ts p) :
    ∃ (d : Enumeration) (after : List Token) (members : List Variable),
      k :: ts = d.tokens ++ after ∧ Numbered d.name.text 0 d.entries members ∧
      Accepts (declaring s head (ds ++ [.enum d.name.text members]) .declaration) after p := by
  obtain ⟨us, after, n, rfl, declaration, rest⟩ := split_enum hk h
  generalize tokens : k :: us = ws at declaration
  cases declaration with
  | initialised ht | uninitialised ht =>
    cases tokens
    rw [hk] at ht
    cases ht
  | @enum k' name close ts members hk' hn hs he =>
    obtain ⟨xs, rfl, numbered⟩ := exists_enumMembers hs (show 0 = Text.wrap64 0 from rfl)
    refine ⟨⟨k', name, xs, close, hk', hn, he⟩, after, members, ?_, numbered, rest⟩
    rw [← List.cons_append, tokens]
    rfl

end Grammar

namespace Program

open Grammar

/-- **The numbers of an enumeration.**  An enumeration in the tokens of a program is declared as a
whole, after the declarations in front of it.  Its members are declared variables, in their order,
with qualified names and with their numbers as 64-bit words for values: the number of a member is
the last index up to it and the distance from there.  Without its qualifier the name of a member is
the word that was written. -/
theorem enum_numbered {before after : List Token} {d : Enumeration} {p : Program}
    (accepted : (ofTokens (before ++ (d.tokens ++ after))).result = .ok p) :
    ∃ q members later, (ofTokens before).result = .ok q ∧
      p.data = q.data ++ .enum d.name.text members :: later ∧
      members.length = d.entries.length ∧
      ∀ (i : Nat) (x : EnumMember), d.entries[i]? = some x → ∃ m v, members[i]? = some m ∧
        Number 0 d.entries i v ∧
        m = ⟨d.name.text ++ "." ++ x.word.text, Text.ofInt (Text.wrap64 v), true⟩ ∧
        Node.memberName d.name.text m = x.word.text := by
  obtain ⟨s, head, ds, reached, rest⟩ := exists_reaches_of_enum d.isKeyword accepted
  obtain ⟨q, parsed, rfl⟩ := exists_program_of_reaches reached
  obtain ⟨d', after', members, tokens, numbered, rest⟩ := exists_enumeration d.isKeyword rest
  obtain ⟨rfl, -⟩ : d = d' ∧ after = after' := Enumeration.tokens_append_inj tokens
  obtain ⟨later, data⟩ := exists_later rest
  rw [List.append_assoc, List.singleton_append] at data
  refine ⟨q, members, later, parsed, data, numbered.length, fun i x found => ?_⟩
  obtain ⟨v, number, member⟩ := numbered.member i x found
  exact ⟨_, v, member, number, rfl, Node.memberName_qualified _ _ _ _⟩

/-- An enumeration whose count runs over.  The first of its members has a dot in its name, and the
second one has the name of the enumeration. -/
def overrun : Enumeration where
  keyword := anyToken (.word .enum)
  name := { anyToken .name with text := "E" }
  entries :=
    [⟨{ anyToken .name with text := "E.a" },
      some { anyToken .int with text := "9223372036854775807" }, .inr rfl, by simp [anyToken]⟩,
     ⟨{ anyToken .name with text := "E" }, none, .inr rfl, by simp⟩]
  close := anyToken (.word .end_)
  isKeyword := rfl
  isName := rfl
  isClose := rfl

/-- Its declaration. -/
def overrunNode : Node :=
  .enum "E" [⟨"E.E.a", Text.ofInt 9223372036854775807, true⟩,
    ⟨"E.E", Text.ofInt (-9223372036854775808), true⟩]

theorem enum_numbered_overrun :
    (ofTokens ([anyToken .data] ++ (overrun.tokens ++ []))).result =
      .ok (.ofSections [overrunNode] []) ∧
    ∃ q members later, (ofTokens [anyToken .data]).result = .ok q ∧
      [overrunNode] = q.data ++ .enum "E" members :: later ∧ members.length = 2 ∧
      ∃ m v, members[1]? = some m ∧ Number 0 overrun.entries 1 v ∧
        m = ⟨"E.E", Text.ofInt (Text.wrap64 v), true⟩ ∧ Node.memberName "E" m = "E" := by
  have greatest : Text.ofString "9223372036854775807" = Text.ofNat 9223372036854775807 := by
    decide +kernel
  have index : Text.readInt "9223372036854775807" = .ok 9223372036854775807 := by
    rw [greatest]
    exact Text.readInt_ofNat (by decide)
  have wraps : Text.wrap64 (9223372036854775807 + 1) = -9223372036854775808 := by decide +kernel
  have second : IsMembers "E" (Text.wrap64 (9223372036854775807 + 1))
      [{ anyToken .name with text := "E" }]
      [⟨"E.E", Text.ofInt (-9223372036854775808), true⟩] := by
    rw [wraps]
    exact .counted (.inr rfl) .nil
  have declared : IsDeclaration overrun.tokens overrunNode :=
    .enum rfl rfl (.indexed (.inr rfl) rfl index second) rfl
  have all : IsDeclarations (overrun.tokens ++ []) [overrunNode] := .cons declared .nil
  have accepted : (ofTokens ([anyToken .data] ++ (overrun.tokens ++ []))).result =
      .ok (.ofSections [overrunNode] []) := accepts_of_isProgram (.data (.mk rfl all))
  obtain ⟨q, members, later, parsed, data, length, numbered⟩ := enum_numbered accepted
  exact ⟨accepted, q, members, later, parsed, data, length, numbered 1 _ rfl⟩

end Program

end XtAsm
