import XtAsm.Parser.Step

/-!
# Runs of the parser

What one token does to a state in the middle of a section, and what an accepted sequence of tokens
says about the state that it was read in.

* `coding`, `declaring`: states within the code section and within the data section;
* `Accepts`: the tokens complete the state to a program.
-/

namespace XtAsm.Parser

/-- The state within the code section with the given blocks and reading. -/
def coding (s : State) (head : Token) (b : Blocks) (r : Reading) : State :=
  { s with phase := .inCode head b r }

/-- The state within the data section with the given declarations. -/
def declaring (s : State) (head : Token) (ds : List Node) (d : Declaring) : State :=
  { s with phase := .inData head ds d }

/-- Reading the tokens in the given state yields the program. -/
def Accepts (s : State) (ts : List Token) (p : Program) : Prop := (run s ts).result = .ok p

/-- A step that succeeds is made of two that do. -/
theorem exists_of_bind_eq_ok {ε α β : Type} {x : Except ε α} {f : α → Except ε β} {c : β}
    (h : x >>= f = .ok c) : ∃ a, x = .ok a ∧ f a = .ok c := by
  cases x with
  | error e => exact absurd h (by simp [bind, Except.bind])
  | ok a => exact ⟨a, rfl, h⟩

section Code

variable {s : State} {head t : Token} {b b' : Blocks} {r r' : Reading} {ts : List Token}
  {p : Program}

/-- Within a statement no token ends the section. -/
theorem settle_of_missing (within : r.missing? ≠ none) :
    (coding s head b r).settle t = coding s head b r := by
  obtain ⟨body, frames⟩ := b
  cases r with
  | statement => exact absurd rfl within
  | _ => cases frames <;> rfl

/-- Between two statements only a data section ends the section, and only outside of all blocks. -/
theorem settle_statement (s : State) (head t : Token) (b : Blocks) :
    (coding s head b .statement).settle t =
      if b.frames = [] ∧ t.kind = .data then s.finishCode head b.body
      else coding s head b .statement := by
  obtain ⟨body, frames⟩ := b
  cases frames with
  | nil => by_cases data : t.kind = .data <;> simp [State.settle, coding, data, State.finishCode]
  | cons frame frames => rfl

theorem acceptStatement_data (data : t.kind = .data) :
    acceptStatement b t = .error (.atToken t (.notAnInstruction t.text)) := by
  simp only [acceptStatement, data]

/-- A token that the section accepts does not end it. -/
theorem settle_of_acceptReading (h : acceptReading b r t = .ok (b', r')) :
    (coding s head b r).settle t = coding s head b r := by
  cases r with
  | statement =>
    rw [settle_statement, if_neg]
    rintro ⟨-, data⟩
    rw [acceptReading, acceptStatement_data data] at h
    exact absurd h (by simp)
  | _ => exact settle_of_missing (by simp [Reading.missing?])

theorem accept_coding : (coding s head b r).accept t =
    (acceptReading b r t).map fun next => coding s head next.1 next.2 := by
  show (acceptReading b r t).bind _ = _
  cases acceptReading b r t <;> rfl

theorem run_coding (h : acceptReading b r t = .ok (b', r')) :
    run (coding s head b r) (t :: ts) = run (coding s head b' r') ts := by
  apply run_cons_of_ok
  rw [settle_of_acceptReading h, accept_coding, h]
  rfl

/-- Accepted tokens start with one that the section accepts, unless that one ends the section. -/
theorem Accepts.step (h : Accepts (coding s head b r) (t :: ts) p)
    (settled : (coding s head b r).settle t = coding s head b r) :
    ∃ b' r', acceptReading b r t = .ok (b', r') ∧ Accepts (coding s head b' r') ts p := by
  cases accepted : acceptReading b r t with
  | error e =>
    rw [Accepts, run_cons_of_error ts (e := e) (by rw [settled, accept_coding, accepted]; rfl)] at h
    exact absurd h (by simp)
  | ok next =>
    rw [Accepts, run_coding accepted] at h
    exact ⟨next.1, next.2, rfl, h⟩

/-- Within a statement there has to be a further token, and it has to fit. -/
theorem Accepts.uncons (h : Accepts (coding s head b r) ts p) (within : r.missing? ≠ none) :
    ∃ t us b' r', ts = t :: us ∧ acceptReading b r t = .ok (b', r') ∧
      Accepts (coding s head b' r') us p := by
  cases ts with
  | nil =>
    obtain ⟨e, he⟩ := Option.ne_none_iff_exists'.mp within
    simp [Accepts, State.finish, coding, he] at h
  | cons t us =>
    obtain ⟨b', r', accepted, rest⟩ := h.step (settle_of_missing within)
    exact ⟨t, us, b', r', rfl, accepted, rest⟩

/-- Between two statements the section ends, or the next token is accepted. -/
theorem Accepts.statement (h : Accepts (coding s head b .statement) ts p) :
    (b.frames = [] ∧ (∀ t ∈ ts.head?, t.kind = .data) ∧ Accepts (s.finishCode head b.body) ts p) ∨
    ∃ t us b' r', ts = t :: us ∧ acceptStatement b t = .ok (b', r') ∧
      Accepts (coding s head b' r') us p := by
  cases ts with
  | nil =>
    obtain ⟨body, frames⟩ := b
    cases frames with
    | nil => exact .inl ⟨rfl, by simp, h⟩
    | cons frame frames =>
      simp [Accepts, State.finish, coding, Reading.missing?, Blocks.missing?] at h
  | cons t us =>
    by_cases ends : b.frames = [] ∧ t.kind = .data
    · left
      refine ⟨ends.1, by simpa using ends.2, ?_⟩
      have settled := settle_statement s head t b
      rw [if_pos ends] at settled
      rw [Accepts, run, settled] at h
      exact h
    · right
      have settled := settle_statement s head t b
      rw [if_neg ends] at settled
      obtain ⟨b', r', accepted, rest⟩ := h.step settled
      exact ⟨t, us, b', r', rfl, accepted, rest⟩

/-- While a block is open, the tokens do not end. -/
theorem Accepts.inBlock {frame : Frame} {frames : List Frame}
    (inside : b.frames = frame :: frames) (h : Accepts (coding s head b .statement) ts p) :
    ∃ t us b' r', ts = t :: us ∧ acceptStatement b t = .ok (b', r') ∧
      Accepts (coding s head b' r') us p := by
  rcases h.statement with ⟨outside, -⟩ | h
  · rw [inside] at outside
    exact absurd outside (by simp)
  · exact h

end Code

section Data

variable {s : State} {head t : Token} {ds ds' : List Node} {d d' : Declaring} {ts : List Token}
  {p : Program}

/-- Within a declaration no token ends the section. -/
theorem settle_of_missing_declaring (within : d.missing? ≠ none) :
    (declaring s head ds d).settle t = declaring s head ds d := by
  cases d with
  | declaration => exact absurd rfl within
  | _ => rfl

/-- Between two declarations the section ends before everything that starts no declaration. -/
theorem settle_declaration (s : State) (head t : Token) (ds : List Node) :
    (declaring s head ds .declaration).settle t =
      if startsDeclaration t then declaring s head ds .declaration
      else s.finishData head ds := rfl

theorem startsDeclaration_of_accept {next : List Node × Declaring}
    (h : acceptDeclaring ds .declaration t = .ok next) : startsDeclaration t = true := by
  simp only [acceptDeclaring] at h
  split at h
  · next hk => simp [startsDeclaration, hk]
  · next hk => simp [startsDeclaration, hk]
  · exact absurd h (by simp)

theorem settle_of_acceptDeclaring (h : acceptDeclaring ds d t = .ok (ds', d')) :
    (declaring s head ds d).settle t = declaring s head ds d := by
  cases d with
  | declaration => rw [settle_declaration, if_pos (startsDeclaration_of_accept h)]
  | _ => exact settle_of_missing_declaring (by simp [Declaring.missing?])

theorem accept_declaring : (declaring s head ds d).accept t =
    (acceptDeclaring ds d t).map fun next => declaring s head next.1 next.2 := by
  show (acceptDeclaring ds d t).bind _ = _
  cases acceptDeclaring ds d t <;> rfl

theorem run_declaring (h : acceptDeclaring ds d t = .ok (ds', d')) :
    run (declaring s head ds d) (t :: ts) = run (declaring s head ds' d') ts := by
  apply run_cons_of_ok
  rw [settle_of_acceptDeclaring h, accept_declaring, h]
  rfl

/-- A member without an index is complete once any other token follows it. -/
theorem run_index {keyword name member : Token} {members : List Variable} {next : Int}
    (other : t.kind ≠ .int) :
    run (declaring s head ds (.index keyword name members next member)) (t :: ts) =
      run (declaring s head ds (.member keyword name
        (members ++ [memberVariable name member next]) (Text.wrap64 (next + 1)))) (t :: ts) := by
  have same : acceptDeclaring ds (.index keyword name members next member) t =
      acceptDeclaring ds (.member keyword name (members ++ [memberVariable name member next])
        (Text.wrap64 (next + 1))) t := by
    simp only [acceptDeclaring]
  simp only [run, settle_of_missing_declaring (d := .index keyword name members next member)
    (by simp [Declaring.missing?]), settle_of_missing_declaring (d := .member keyword name _ _)
    (by simp [Declaring.missing?]), accept_declaring, same]
  rfl

/-- Accepted tokens start with one that the section accepts, unless that one ends the section. -/
theorem Accepts.stepData (h : Accepts (declaring s head ds d) (t :: ts) p)
    (settled : (declaring s head ds d).settle t = declaring s head ds d) :
    ∃ ds' d', acceptDeclaring ds d t = .ok (ds', d') ∧ Accepts (declaring s head ds' d') ts p := by
  cases accepted : acceptDeclaring ds d t with
  | error e =>
    rw [Accepts, run_cons_of_error ts (e := e)
      (by rw [settled, accept_declaring, accepted]; rfl)] at h
    exact absurd h (by simp)
  | ok next =>
    rw [Accepts, run_declaring accepted] at h
    exact ⟨next.1, next.2, rfl, h⟩

/-- Within a declaration there has to be a further token, and it has to fit. -/
theorem Accepts.unconsData (h : Accepts (declaring s head ds d) ts p) (within : d.missing? ≠ none) :
    ∃ t us ds' d', ts = t :: us ∧ acceptDeclaring ds d t = .ok (ds', d') ∧
      Accepts (declaring s head ds' d') us p := by
  cases ts with
  | nil =>
    obtain ⟨e, he⟩ := Option.ne_none_iff_exists'.mp within
    simp [Accepts, State.finish, declaring, he] at h
  | cons t us =>
    obtain ⟨ds', d', accepted, rest⟩ := h.stepData (settle_of_missing_declaring within)
    exact ⟨t, us, ds', d', rfl, accepted, rest⟩

/-- Between two declarations the section ends, or the next token is accepted. -/
theorem Accepts.declaration (h : Accepts (declaring s head ds .declaration) ts p) :
    Accepts (s.finishData head ds) ts p ∨
    ∃ t us ds' d', ts = t :: us ∧ acceptDeclaring ds .declaration t = .ok (ds', d') ∧
      Accepts (declaring s head ds' d') us p := by
  cases ts with
  | nil => exact .inl h
  | cons t us =>
    have settled := settle_declaration s head t ds
    by_cases starts : startsDeclaration t = true
    · right
      rw [if_pos starts] at settled
      obtain ⟨ds', d', accepted, rest⟩ := h.stepData settled
      exact ⟨t, us, ds', d', rfl, accepted, rest⟩
    · left
      rw [if_neg starts] at settled
      rw [Accepts, run, settled] at h
      exact h

end Data

end XtAsm.Parser
