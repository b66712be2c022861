import XtAsm.Proofs.Parser.CorrectPrefix

/-!
# The reports of the parser

The parser reports on a section when the section ends, and on nothing else.

* `sectionReports`: one report for every section head among some tokens, with the size of the
  section;
* `State.Announces`: what a state has reported, and will report, about the tokens read so far;
* `reports_ofTokens`: the reports of the parser are on its progress, and those on a program that has
  been read are on its sections.
-/

namespace XtAsm.Parser

/-- The report on a section with the given head, if the token is one. -/
def sectionReport? (data code : List Node) (t : Token) : Option Report :=
  match t.kind with
  | .data => some (State.sectionReport "#data" data.length "declarations" t)
  | .code => some (State.sectionReport "#code" code.length "instructions" t)
  | _ => none

/-- The reports on all sections that have their heads among some tokens. -/
def sectionReports (data code : List Node) (ts : List Token) : List Report :=
  ts.filterMap (sectionReport? data code)

theorem sectionReports_concat (data code : List Node) (ts : List Token) (t : Token) :
    sectionReports data code (ts ++ [t]) =
      sectionReports data code ts ++ (sectionReport? data code t).toList := by
  rw [sectionReports, List.filterMap_append]
  cases h : sectionReport? data code t <;> simp [sectionReports, h]

theorem severity_of_mem_sectionReports {data code : List Node} {ts : List Token} :
    ∀ r ∈ sectionReports data code ts, r.severity = .debug := by
  intro r hr
  obtain ⟨t, -, found⟩ := List.mem_filterMap.mp hr
  unfold sectionReport? at found
  split at found <;> cases found <;> rfl

/-! ### Tokens within a section -/

/-- The token is the head of a section. -/
def isHead (t : Token) : Bool := t.kind = .data || t.kind = .code

theorem sectionReport?_of_not_isHead {t : Token} (h : isHead t = false) (data code : List Node) :
    sectionReport? data code t = none := by
  unfold sectionReport?
  split
  · next kind => simp [isHead, kind] at h
  · next kind => simp [isHead, kind] at h
  · rfl

theorem not_isHead_of_acceptDeclaring {ds ds' : List Node} {d d' : Declaring} {t : Token}
    (h : acceptDeclaring ds d t = .ok (ds', d')) : isHead t = false := by
  refine Bool.eq_false_iff.mpr fun head => ?_
  have kind : t.kind = .data ∨ t.kind = .code := by simpa [isHead] using head
  rcases kind with kind | kind <;> cases d <;>
    simp [acceptDeclaring, acceptMember, kind] at h

theorem not_isHead_of_acceptReading {b b' : Blocks} {r r' : Reading} {t : Token}
    (h : acceptReading b r t = .ok (b', r')) : isHead t = false := by
  refine Bool.eq_false_iff.mpr fun head => ?_
  have kind : t.kind = .data ∨ t.kind = .code := by simpa [isHead] using head
  rcases kind with kind | kind <;> cases r <;>
    simp [acceptReading, acceptStatement, acceptRight, operandAt, operand?, kind, bind,
      Except.bind] at h

/-! ### Announcements -/

/-- The report that the end of the section at hand will make. -/
def Phase.pending (data code : List Node) : Phase → List Report
  | .outside => []
  | .inData head _ _ => [State.sectionReport "#data" data.length "declarations" head]
  | .inCode head _ _ => [State.sectionReport "#code" code.length "instructions" head]

/-- Whatever a section that has not ended yet will hold, the reports made so far, together with the
one that is pending, are those on the sections that have been started. -/
structure State.Announces (read : List Token) (s : State) : Prop where
  open_data : ∀ head ds d, s.phase = .inData head ds d → s.data? = none
  open_code : ∀ head b r, s.phase = .inCode head b r → s.code? = none
  reports : ∀ data code, (∀ ds ∈ s.data?, ds = data) → (∀ cs ∈ s.code?, cs = code) →
    s.reports ++ s.phase.pending data code = sectionReports data code read

namespace State.Announces

variable {read : List Token} {s s' : State} {head t : Token}

/-- Outside of all sections nothing is pending. -/
theorem of_outside (outside : s.phase = .outside)
    (h : ∀ data code, (∀ ds ∈ s.data?, ds = data) → (∀ cs ∈ s.code?, cs = code) →
      s.reports = sectionReports data code read) : s.Announces read := by
  constructor
  · rw [outside]
    exact fun _ _ _ inData => nomatch inData
  · rw [outside]
    exact fun _ _ _ inCode => nomatch inCode
  · intro data code hd hc
    rw [outside, Phase.pending, List.append_nil]
    exact h data code hd hc

theorem initial : State.initial.Announces [] := of_outside rfl fun _ _ _ _ => rfl

/-- At its end a data section gets the size that it has. -/
theorem finishData {ds : List Node} {d : Declaring} (h : s.Announces read)
    (inData : s.phase = .inData head ds d) : (s.finishData head ds).Announces read := by
  refine of_outside rfl fun data code hd hc => ?_
  obtain rfl : ds = data := hd ds rfl
  have absent : ∀ ds' ∈ s.data?, ds' = ds := by
    rw [h.open_data head ds d inData]
    exact fun _ none => nomatch none
  have announced := h.reports ds code absent hc
  rwa [inData] at announced

/-- At its end a code section gets the size that it has. -/
theorem finishCode {b : Blocks} {r : Reading} (h : s.Announces read)
    (inCode : s.phase = .inCode head b r) : (s.finishCode head b.body).Announces read := by
  refine of_outside rfl fun data code hd hc => ?_
  obtain rfl : b.body = code := hc b.body rfl
  have absent : ∀ cs ∈ s.code?, cs = b.body := by
    rw [h.open_code head b r inCode]
    exact fun _ none => nomatch none
  have announced := h.reports data b.body hd absent
  rwa [inCode] at announced

theorem settle (h : s.Announces read) (t : Token) : (s.settle t).Announces read := by
  unfold State.settle
  split
  · next inData =>
    split
    · exact h
    · exact h.finishData inData
  · next inCode =>
    split
    · exact h.finishCode inCode
    · exact h
  · exact h

/-- A head that has been accepted is the last one announced. -/
theorem starts {phase : Phase} (h : s.Announces read) (outside : s.phase = .outside)
    (pending : ∀ data code, phase.pending data code = (sectionReport? data code t).toList)
    (hd : ∀ head ds d, phase = .inData head ds d → s.data? = none)
    (hc : ∀ head b r, phase = .inCode head b r → s.code? = none) :
    State.Announces (read ++ [t]) { s with phase } := by
  refine ⟨hd, hc, fun data code dataIs codeIs => ?_⟩
  have announced := h.reports data code dataIs codeIs
  rw [outside, Phase.pending, List.append_nil] at announced
  rw [sectionReports_concat, ← announced, pending]

/-- A token within a section announces nothing. -/
theorem continues {phase : Phase} (h : s.Announces read) (other : isHead t = false)
    (pending : ∀ data code, phase.pending data code = s.phase.pending data code)
    (hd : ∀ head ds d, phase = .inData head ds d → s.data? = none)
    (hc : ∀ head b r, phase = .inCode head b r → s.code? = none) :
    State.Announces (read ++ [t]) { s with phase } := by
  refine ⟨hd, hc, fun data code dataIs codeIs => ?_⟩
  rw [sectionReports_concat, sectionReport?_of_not_isHead other, pending]
  simpa using h.reports data code dataIs codeIs

theorem accept (h : s.Announces read) (accepted : s.accept t = .ok s') :
    s'.Announces (read ++ [t]) := by
  unfold State.accept at accepted
  split at accepted
  · next outside =>
    split at accepted
    · next kind =>
      split at accepted <;> cases accepted
      next absent =>
      refine h.starts outside (fun data code => ?_) (fun _ _ _ _ => ?_) (by simp)
      · simp [Phase.pending, sectionReport?, kind]
      · simpa using absent
    · next kind =>
      split at accepted <;> cases accepted
      next absent =>
      refine h.starts outside (fun data code => ?_) (by simp) (fun _ _ _ _ => ?_)
      · simp [Phase.pending, sectionReport?, kind]
      · simpa using absent
    · cases accepted
  · next head ds d inData =>
    obtain ⟨⟨ds', d'⟩, declared, eq⟩ := exists_of_bind_eq_ok accepted
    cases eq
    exact h.continues (not_isHead_of_acceptDeclaring declared)
      (fun _ _ => by rw [inData]; rfl) (fun _ _ _ _ => h.open_data head ds d inData) (by simp)
  · next head b r inCode =>
    obtain ⟨⟨b', r'⟩, read, eq⟩ := exists_of_bind_eq_ok accepted
    cases eq
    exact h.continues (not_isHead_of_acceptReading read)
      (fun _ _ => by rw [inCode]; rfl) (by simp) (fun _ _ _ _ => h.open_code head b r inCode)

theorem step (h : s.Announces read) (accepted : s.step t = .ok s') :
    s'.Announces (read ++ [t]) := (h.settle t).accept accepted

end State.Announces

/-- What a state has reported, once every section that has ended has the size that it has. -/
theorem State.Announces.reports_append {read : List Token} {s : State} (h : s.Announces read) :
    s.reports ++ s.phase.pending s.program.data s.program.code =
      sectionReports s.program.data s.program.code read :=
  h.reports _ _ (fun ds found => by rw [program, found]; rfl)
    (fun cs found => by rw [program, found]; rfl)

theorem State.Announces.reports_of_outside {read : List Token} {s : State} (h : s.Announces read)
    (outside : s.phase = .outside) :
    s.reports = sectionReports s.program.data s.program.code read := by
  have announced := h.reports_append
  rwa [outside, Phase.pending, List.append_nil] at announced

theorem State.Announces.severity {read : List Token} {s : State} (h : s.Announces read) :
    ∀ r ∈ s.reports, r.severity = .debug := by
  intro r hr
  have mem := List.mem_append_left (s.phase.pending s.program.data s.program.code) hr
  rw [h.reports_append] at mem
  exact severity_of_mem_sectionReports r mem

/-- At the end of the tokens, the sections of the program are those that have been reported. -/
theorem State.Announces.finish {read : List Token} {s : State} (h : s.Announces read) :
    (∀ p, s.finish.result = .ok p → s.finish.reports = sectionReports p.data p.code read) ∧
      ∀ r ∈ s.finish.reports, r.severity = .debug := by
  unfold State.finish
  split
  · next outside =>
    refine ⟨fun p finished => ?_, h.severity⟩
    cases finished
    exact h.reports_of_outside outside
  · next head ds d inData =>
    split
    · exact ⟨fun _ finished => (nomatch finished), h.severity⟩
    · refine ⟨fun p finished => ?_, (h.finishData inData).severity⟩
      cases finished
      exact (h.finishData inData).reports_of_outside rfl
  · next head b r inCode =>
    split
    · exact ⟨fun _ finished => (nomatch finished), h.severity⟩
    · refine ⟨fun p finished => ?_, (h.finishCode inCode).severity⟩
      cases finished
      exact (h.finishCode inCode).reports_of_outside rfl

end XtAsm.Parser
