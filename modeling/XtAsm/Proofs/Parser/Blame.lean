import XtAsm.Proofs.Parser.CorrectPrefix

/-!
# The tokens that errors cover

Between two tokens the parser keeps some of those that it has read, so that an error can point at
them.

* `State.tokens`: the tokens that a state keeps;
* `tokens_step`, `Reaches.tokens_subset`: all of them have been read;
* `mem_of_ofTokens_error`: an error covers tokens of the input.
-/

namespace XtAsm.Parser

/-- The tokens that an error within a declaration can point at. -/
def Declaring.tokens : Declaring → List Token
  | .declaration => []
  | .value name => [name]
  | .enumName keyword => [keyword]
  | .member keyword _ _ _ => [keyword]
  | .index keyword _ _ _ _ => [keyword]

/-- The tokens that an error within a statement can point at, and the keyword of the block that it
may open. -/
def Reading.tokens : Reading → List Token
  | .statement => []
  | .exitValue keyword => [keyword]
  | .target _ keyword => [keyword]
  | .source _ _ first => [first.token]
  | .jumpLabel keyword => [keyword]
  | .left header previous => [header.keyword, previous]
  | .comparison header first => [header.keyword, first.token]
  | .right header first _ previous => [header.keyword, first.token, previous]
  | .connective header last => [header.keyword, last]
  | .counter keyword => [keyword]
  | .firstSemicolon keyword first => [keyword, first.token]
  | .limit keyword _ previous => [keyword, previous]
  | .secondSemicolon keyword _ second => [keyword, second.token]
  | .increment keyword _ _ previous => [keyword, previous]
  | .rangeIn keyword _ _ third => [keyword, third.token]

/-- The keywords of the open blocks. -/
def Blocks.tokens (b : Blocks) : List Token := b.frames.map (·.opener.keyword)

@[simp] theorem Blocks.tokens_push (b : Blocks) (n : Node) : (b.push n).tokens = b.tokens := rfl

@[simp] theorem Blocks.tokens_enter (b : Blocks) (o : Opener) :
    (b.enter o).tokens = o.keyword :: b.tokens := rfl

@[simp] theorem Blocks.tokens_cons (body : List Node) (frame : Frame) (frames : List Frame) :
    Blocks.tokens ⟨body, frame :: frames⟩ = frame.opener.keyword :: Blocks.tokens ⟨body, frames⟩ :=
  rfl

@[simp] theorem Header.keyword_opener (h : Header) : h.opener.keyword = h.keyword := by
  obtain ⟨form, keyword, chain⟩ := h
  cases form <;> rfl

/-- The tokens that an error can point at. -/
def State.tokens (s : State) : List Token :=
  match s.phase with
  | .outside => []
  | .inData _ _ declaring => declaring.tokens
  | .inCode _ blocks reading => reading.tokens ++ blocks.tokens

/-! ### Accepted tokens -/

section Accepted

variable {t : Token}

theorem tokens_acceptMember {ds ds' : List Node} {keyword name : Token} {members : List Variable}
    {next : Int} {d : Declaring}
    (h : acceptMember ds keyword name members next t = .ok (ds', d)) : d.tokens ⊆ [keyword] := by
  unfold acceptMember at h
  split at h <;> cases h <;> simp [Declaring.tokens]

theorem tokens_acceptDeclaring {ds ds' : List Node} {d d' : Declaring}
    (h : acceptDeclaring ds d t = .ok (ds', d')) : d'.tokens ⊆ t :: d.tokens := by
  cases d with
  | declaration | value | enumName =>
    simp only [acceptDeclaring] at h
    split at h <;> cases h <;> simp [Declaring.tokens]
  | member keyword name members next =>
    exact List.subset_cons_of_subset t (tokens_acceptMember h)
  | index keyword name members next member =>
    simp only [acceptDeclaring] at h
    split at h
    · split at h <;> cases h
      simp [Declaring.tokens]
    · exact List.subset_cons_of_subset t (tokens_acceptMember h)

theorem tokens_beginChoice (b : Blocks) :
    (beginChoice b t).2.tokens ++ (beginChoice b t).1.tokens ⊆ t :: b.tokens := by
  obtain ⟨body, frames⟩ := b
  unfold beginChoice
  split
  · -- the block of the `else` is given up
    next opened =>
    obtain rfl := opened
    grind [Reading.tokens, Blocks.tokens]
  · grind [Reading.tokens]

theorem tokens_acceptStatement {b b' : Blocks} {r : Reading}
    (h : acceptStatement b t = .ok (b', r)) : r.tokens ++ b'.tokens ⊆ t :: b.tokens := by
  unfold acceptStatement at h
  split at h
  case h_11 =>
    have chosen := tokens_beginChoice (t := t) b
    rwa [Except.ok.inj h] at chosen
  case h_12 | h_13 =>
    obtain ⟨body, frames⟩ := b
    split at h <;> cases h
    next opened =>
    obtain rfl := opened
    grind [Reading.tokens, Blocks.tokens, Opener.keyword]
  case h_14 => cases h
  all_goals
    cases h
    simp [Reading.tokens, Opener.keyword]

theorem tokens_acceptReading {b b' : Blocks} {r r' : Reading}
    (h : acceptReading b r t = .ok (b', r')) :
    r'.tokens ++ b'.tokens ⊆ t :: (r.tokens ++ b.tokens) := by
  cases r with
  | statement => exact tokens_acceptStatement h
  | connective header last =>
    simp only [acceptReading] at h
    split at h
    case h_3 => cases h
    all_goals
      cases h
      grind [Reading.tokens, Header.addConnective, Blocks.tokens_enter, Header.keyword_opener]
  | right header left op previous =>
    obtain ⟨next, found, eq⟩ := exists_of_bind_eq_ok h
    cases eq
    obtain ⟨operand, -, eq⟩ := exists_of_bind_eq_ok found
    split at eq
    · cases eq
    · cases eq
      grind [Reading.tokens, Header.addCondition]
  | exitValue | target | source | left | counter | limit | increment =>
    obtain ⟨operand, found, eq⟩ := exists_of_bind_eq_ok h
    cases eq
    grind [Reading.tokens, Blocks.tokens_push, token_of_operandAt]
  | jumpLabel | comparison | firstSemicolon | secondSemicolon | rangeIn =>
    simp only [acceptReading] at h
    split at h <;> cases h
    grind [Reading.tokens, Blocks.tokens_push, Blocks.tokens_enter, Opener.keyword]

end Accepted

/-! ### Steps -/

section Steps

variable {s s' : State} {t : Token}

theorem tokens_accept (h : s.accept t = .ok s') : s'.tokens ⊆ t :: s.tokens := by
  obtain ⟨data?, code?, reports, phase⟩ := s
  cases phase with
  | outside =>
    simp only [State.accept] at h
    split at h
    case h_3 => cases h
    all_goals
      split at h <;> cases h
      exact List.nil_subset _
  | inData head ds d =>
    obtain ⟨next, accepted, eq⟩ := exists_of_bind_eq_ok h
    cases eq
    exact tokens_acceptDeclaring accepted
  | inCode head b r =>
    obtain ⟨next, accepted, eq⟩ := exists_of_bind_eq_ok h
    cases eq
    exact tokens_acceptReading accepted

theorem tokens_settle (s : State) (t : Token) : (s.settle t).tokens ⊆ s.tokens := by
  rcases settle_cases s t with same | outside
  · rw [same]
    exact List.Subset.refl _
  · rw [State.tokens, outside]
    exact List.nil_subset _

/-- An accepted token is the only one that a state newly keeps. -/
theorem tokens_step (h : s.step t = .ok s') : s'.tokens ⊆ t :: s.tokens :=
  List.Subset.trans (tokens_accept h) (List.cons_subset_cons t (tokens_settle s t))

theorem Reaches.tokens_subset_append {ts : List Token} (h : Reaches s ts s') :
    s'.tokens ⊆ ts ++ s.tokens := by
  induction h with
  | refl s => exact List.Subset.refl _
  | cons h _ ih =>
    have step := tokens_step h
    grind

/-- All tokens that a state keeps have been read. -/
theorem Reaches.tokens_subset {ts : List Token} (h : Reaches .initial ts s) : s.tokens ⊆ ts := by
  have kept := h.tokens_subset_append
  rwa [show State.initial.tokens = [] from rfl, List.append_nil] at kept

theorem mem_of_step_error {e : ParseError} (h : s.step t = .error e) :
    e.first ∈ t :: s.tokens ∧ e.last ∈ t :: s.tokens := by
  rcases step_error h with ⟨fault, rfl, -⟩ |
    ⟨head, b, header, left, op, previous, inCode, -, -, rfl⟩
  · exact ⟨List.mem_cons_self, List.mem_cons_self⟩
  · rw [State.tokens, inCode]
    simp [Reading.tokens]

theorem mem_of_missing?_declaring {d : Declaring} {e : ParseError} (h : d.missing? = some e) :
    e.first ∈ d.tokens ∧ e.last ∈ d.tokens := by
  cases d <;> cases h <;> simp [Declaring.tokens, ParseError.atToken]

theorem mem_of_missing?_reading {r : Reading} {e : ParseError} (h : r.missing? = some e) :
    e.first ∈ r.tokens ∧ e.last ∈ r.tokens := by
  cases r <;> cases h <;> simp [Reading.tokens, ParseError.atToken]

theorem mem_of_missing?_blocks {b : Blocks} {e : ParseError} (h : b.missing? = some e) :
    e.first ∈ b.tokens ∧ e.last ∈ b.tokens := by
  obtain ⟨body, frames⟩ := b
  cases frames <;> cases h
  simp [ParseError.atToken]

theorem mem_of_finish_error {e : ParseError} (h : s.finish.result = .error e) :
    e.first ∈ s.tokens ∧ e.last ∈ s.tokens := by
  rw [State.tokens]
  rcases exists_missing?_of_finish_error h with ⟨_, _, d, phase, missing⟩ |
    ⟨_, b, r, phase, reading | blocks⟩ <;> rw [phase]
  · exact mem_of_missing?_declaring missing
  · exact (mem_of_missing?_reading reading).imp (List.mem_append_left _) (List.mem_append_left _)
  · exact (mem_of_missing?_blocks blocks).imp (List.mem_append_right _) (List.mem_append_right _)

end Steps

/-- An error covers tokens of the input. -/
theorem mem_of_ofTokens_error {ts : List Token} {e : ParseError}
    (h : (Program.ofTokens ts).result = .error e) : e.first ∈ ts ∧ e.last ∈ ts := by
  rcases reaches_or_stops .initial ts with ⟨last, reached⟩ |
    ⟨before, t, after, last, e', rfl, reached, stop⟩
  · have finished : last.finish.result = .error e := by
      rw [← run_nil, ← reached.run_append [], List.append_nil]
      exact h
    obtain ⟨first, last⟩ := mem_of_finish_error finished
    exact ⟨reached.tokens_subset first, reached.tokens_subset last⟩
  · have kept := reached.tokens_subset
    rw [reached.result_of_error stop] at h
    cases h
    obtain ⟨first, last⟩ := mem_of_step_error stop
    grind

end XtAsm.Parser
