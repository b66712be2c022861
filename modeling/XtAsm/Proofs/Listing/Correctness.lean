import XtAsm.Proofs.Listing.Simulation
import XtAsm.Proofs.Program.RoundTrip

/-!
# Listings do what their programs do

* `Implements`: a listing and a program end the same way, or both run forever;
* `isEntry_of_isDeclared`: the data section of a listing, which the machine skips;
* `exists_load`: the code section of a listing, as the machine reads it;
* `exists_implements`: every structured program has a listing that implements it.
-/

namespace XtAsm.Listing

open Node Machine

/-- From every store, and whatever the literals mean, the listing ends as the program does, and
runs forever if the program does. -/
structure Implements (listing : Text) (p : Program) : Prop where
  ends : ∀ literal σ e, (∃ fuel, p.exec literal fuel σ = some e) ↔
    ∃ n, Machine.run literal (load listing) n (.start σ) = some (.ended e)
  continues : ∀ literal σ, (∀ fuel, p.exec literal fuel σ = none) ↔
    ∀ n, Machine.run literal (load listing) n (.start σ) = none

/-! ### The data section -/

/-- An indented line without a line break is no head of a section. -/
theorem isEntry_of_indented {l : Line} {t : Text} (text : l.render = Text.ofString "  " ++ t)
    (h : Text.newline ∉ t) : IsEntry l := by
  rw [IsEntry, text, List.mem_append, not_or]
  refine ⟨⟨by decide, h⟩, fun head => ?_⟩
  cases head

theorem isEntry_constantLine {name : Text} {m : Variable} (hn : Text.newline ∉ name)
    (hm : IsMember name m) : IsEntry (constantLine m) := by
  obtain ⟨text, value, written, rfl⟩ := hm
  have newline : Text.newline ∉ text := written.elim (·.newline_not_mem) (·.newline_not_mem)
  refine isEntry_of_indented (t := Text.ofString ".equ " ++ (name ++ Text.ofString "." ++ text) ++
    Text.ofString ", " ++ Text.ofInt value) rfl ?_
  simp only [List.mem_append, not_or]
  exact ⟨⟨⟨by decide, ⟨hn, by decide⟩, newline⟩, by decide⟩, Text.newline_not_mem_ofInt value⟩

theorem isEntry_variableLines {name value : Text} (hn : Text.newline ∉ name)
    (hv : Text.newline ∉ value) : ∀ l ∈ variableLines ⟨name, value, true⟩, IsEntry l := by
  simp only [variableLines, Bool.not_true, Bool.false_eq_true, if_false]
  split
  · rw [List.forall_mem_singleton]
    refine isEntry_of_indented (t := name ++ Text.ofString ": .zero") rfl ?_
    rw [List.mem_append, not_or]
    exact ⟨hn, by decide⟩
  · rw [List.forall_mem_singleton]
    refine isEntry_of_indented (t := name ++ Text.ofString ": .word " ++ value) rfl ?_
    simp only [List.mem_append, not_or]
    exact ⟨⟨hn, by decide⟩, hv⟩

/-- The lines of a declaration are entries. -/
theorem isEntry_of_isDeclared {exit? : Option Label} {n : Node} (h : n.IsDeclared)
    {ls : List Line} {ns : List Nat} (lays : Lays exit? n ls ns) : ∀ l ∈ ls, IsEntry l := by
  cases h with
  | var hn hv =>
    cases lays
    refine isEntry_variableLines hn.newline_not_mem ?_
    rcases hv with rfl | hv
    · simp
    · exact hv.newline_not_mem
  | enum hn hm =>
    cases lays
    rw [List.forall_mem_map]
    exact fun m mem => isEntry_constantLine hn.newline_not_mem (hm m mem)

theorem isEntry_of_forall {exit? : Option Label} {ns : List Node} (h : ∀ n ∈ ns, n.IsDeclared)
    {ls : List Line} {ks : List Nat} (lays : LaysAll exit? ns ls ks) : ∀ l ∈ ls, IsEntry l := by
  induction ns generalizing ls ks with
  | nil =>
    cases lays
    simp
  | cons n ns ih =>
    rw [List.forall_mem_cons] at h
    cases lays with
    | cons lays laysAll =>
      rw [List.forall_mem_append]
      exact ⟨isEntry_of_isDeclared h.1 lays, ih h.2 laysAll⟩

/-- A declaration is visited without an error. -/
theorem defect?_of_isDeclared {n : Node} (h : n.IsDeclared) (inLoop : Bool) :
    ∀ v ∈ n.visits inLoop, defect? v = none := by
  cases h <;> simp [declaration, visits, defect?]

/-- A program is visited without an error if its statements are. -/
theorem findSome?_defect? {ds cs : List Node} (hd : ∀ n ∈ ds, n.IsDeclared)
    (hc : ∀ n ∈ cs, ∀ v ∈ n.visits false, defect? v = none) :
    (Program.ofSections ds cs).visits.findSome? defect? = none := by
  simp only [List.findSome?_eq_none_iff, Program.visits, Program.nodes, visitsAll, visits,
    Program.data_ofSections, Program.code_ofSections, List.forall_mem_append,
    List.forall_mem_cons]
  exact ⟨⟨rfl, defect?_of_forall fun n hn => defect?_of_isDeclared (hd n hn) _⟩,
    ⟨rfl, defect?_of_forall hc⟩, by simp⟩

/-! ### The code section -/

/-- The code section of the listing of a structured program, as the machine reads it. -/
theorem exists_load {ds cs : List Node} (hd : ∀ n ∈ ds, n.IsDeclared)
    (hc : ∀ n ∈ cs, n.IsExpressible) (structured : ∀ n ∈ cs, n.IsStructured false) :
    ∃ listing code, ofProgram (.ofSections ds cs) = .ok listing ∧
      load listing = code.map Line.instruction? ∧ LowersAll none cs code ∧
      (labelNumbers code).Nodup := by
  obtain ⟨data, code, ns, ms, laysData, laysCode, nodup, result⟩ :=
    exists_ofProgram (.ofSections ds cs)
  rw [findSome?_defect? hd fun n hn => defect?_of_isStructured (structured n hn) (hc n hn)]
    at result
  cases laysData with
  | data laysData =>
    cases laysCode with
    | @code _ _ code _ laysCode =>
      obtain ⟨lowers, rfl⟩ := laysCode.lowers fun n hn =>
        lowers_of_isStructured (structured n hn) (hc n hn) (Option.map_none ..).symm (by simp)
      exact ⟨_, code, result, load_render (isEntry_of_forall hd laysData) lowers.isClean, lowers,
        (List.nodup_append.1 nodup).2.1⟩

/-- After the last line the machine stops. -/
theorem run_of_leads {literal : Text → Int} {code : List Line} {m : Nat} {s : State} {σ' : Store}
    {f : Option (Int × Int)} (h : Leads literal code m s ⟨code.length, σ', f⟩) :
    runLines literal code (m + 1) s = some (.ended (.finished σ')) := by
  rw [h, runLines, run, step, List.getElem?_eq_none (by simp)]

section Endings

variable {literal : Text → Int} {code : List Line} {cs : List Node}
  (lowers : LowersAll none cs code) (nodup : (labelNumbers code).Nodup) {fuel : Nat} {σ : Store}

include lowers nodup

/-- The whole code section does what its statements do.  A `break` that no loop takes up would end
the program, too. -/
theorem continues_code : Continues literal code fuel (.start σ) code.length code.length
    (execAll literal fuel cs σ) := by
  have whole : At code 0 code := ⟨[], [], by simp, rfl⟩
  have lines : Simulates literal code fuel 0 code.length code (execAll literal fuel cs) :=
    lowers.simulates lowers.isClean nodup (by simp) whole
  rw [Simulates, Nat.zero_add] at lines
  exact lines σ none

theorem exists_run_of_exec {o : Outcome} (h : execAll literal fuel cs σ = some o) :
    ∃ n, runLines literal code n (.start σ) = some (.ended o.ending) := by
  have ran : Continues literal code fuel (.start σ) code.length code.length _ :=
    continues_code lowers nodup
  rw [h] at ran
  cases o with
  | next σ' | left σ' =>
    obtain ⟨m, f, leads⟩ := ran
    exact ⟨_, run_of_leads leads⟩
  | exited value σ' =>
    obtain ⟨m, ended⟩ := ran
    exact ⟨_, ended 0⟩

theorem run_of_exec_eq_none (h : execAll literal fuel cs σ = none) :
    runLines literal code fuel (.start σ) = none := by
  have ran : Continues literal code fuel (.start σ) code.length code.length _ :=
    continues_code lowers nodup
  rw [h] at ran
  exact ran

theorem ends_iff (e : Ending) :
    (∃ fuel, (execAll literal fuel cs σ).map Outcome.ending = some e) ↔
      ∃ n, runLines literal code n (.start σ) = some (.ended e) := by
  constructor
  · rintro ⟨fuel, h⟩
    obtain ⟨o, ran, rfl⟩ := Option.map_eq_some_iff.1 h
    exact exists_run_of_exec lowers nodup ran
  · rintro ⟨n, stopped⟩
    -- the machine takes a step in every round, so as much fuel as there are steps is enough
    refine ⟨n, ?_⟩
    cases ran : execAll literal n cs σ with
    | none =>
      rw [run_of_exec_eq_none lowers nodup ran] at stopped
      cases stopped
    | some o =>
      obtain ⟨m, ended⟩ := exists_run_of_exec lowers nodup ran
      have same := eq_of_runLines ended stopped
      rw [Result.ended.injEq] at same
      rw [Option.map_some, same]

theorem continues_iff :
    (∀ fuel, (execAll literal fuel cs σ).map Outcome.ending = none) ↔
      ∀ n, runLines literal code n (.start σ) = none := by
  constructor
  · intro h n
    exact run_of_exec_eq_none lowers nodup (Option.map_eq_none_iff.1 (h n))
  · intro h fuel
    cases ran : execAll literal fuel cs σ with
    | none => rfl
    | some o =>
      obtain ⟨n, ended⟩ := exists_run_of_exec lowers nodup ran
      rw [h n] at ended
      cases ended

end Endings

/-- **Listings do what their programs do.**  A program that was read from source text and is
structured has a listing, which ends as the program does and runs forever if the program does. -/
theorem exists_implements {s : Source} {ts : List Token} {p : Program} (lexed : s.lex = .ok ts)
    (parsed : (Program.ofTokens ts).result = .ok p)
    (structured : ∀ n ∈ p.code, n.IsStructured false) :
    ∃ listing, ofProgram p = .ok listing ∧ Implements listing p := by
  have lexical : ∀ t ∈ ts, t.IsLexical := Lexer.spells_of_tokensFrom lexed
  obtain ⟨us, vs, ds, cs, rfl, hd, hc, inUs, inVs⟩ :=
    Program.exists_sections (Grammar.isProgram_of_accepts parsed)
  obtain ⟨listing, code, generated, loaded, lowers, nodup⟩ := exists_load
    (hd.expressible fun t ht => lexical t (inUs t ht))
    (hc.expressible fun t ht => lexical t (inVs t ht)) structured
  refine ⟨listing, generated, fun literal σ e => ?_, fun literal σ => ?_⟩
  · rw [loaded]
    exact ends_iff lowers nodup e
  · rw [loaded]
    exact continues_iff lowers nodup

/-- A file with a loop that is left in the middle. -/
def loopSource : Source :=
  .ofText "loop" "#code\nloop if .x>=3 in break end add .x 1 end exit .x"

/-- Its tokens. -/
def loopTokens : List Token :=
  [⟨.code, "#code", ⟨"loop", 1, 1⟩, Lexer.spanAt 0 5⟩,
   ⟨.word .loop, "loop", ⟨"loop", 2, 1⟩, Lexer.spanAt 6 4⟩,
   ⟨.word .if_, "if", ⟨"loop", 2, 6⟩, Lexer.spanAt 11 2⟩,
   ⟨.var, "x", ⟨"loop", 2, 9⟩, Lexer.spanAt 14 2⟩,
   ⟨.compare .ge, ">=", ⟨"loop", 2, 11⟩, Lexer.spanAt 16 2⟩,
   ⟨.int, "3", ⟨"loop", 2, 13⟩, Lexer.spanAt 18 1⟩,
   ⟨.word .in_, "in", ⟨"loop", 2, 15⟩, Lexer.spanAt 20 2⟩,
   ⟨.word .break_, "break", ⟨"loop", 2, 18⟩, Lexer.spanAt 23 5⟩,
   ⟨.word .end_, "end", ⟨"loop", 2, 24⟩, Lexer.spanAt 29 3⟩,
   ⟨.word .add, "add", ⟨"loop", 2, 28⟩, Lexer.spanAt 33 3⟩,
   ⟨.var, "x", ⟨"loop", 2, 32⟩, Lexer.spanAt 37 2⟩,
   ⟨.int, "1", ⟨"loop", 2, 35⟩, Lexer.spanAt 40 1⟩,
   ⟨.word .end_, "end", ⟨"loop", 2, 37⟩, Lexer.spanAt 42 3⟩,
   ⟨.word .exit, "exit", ⟨"loop", 2, 41⟩, Lexer.spanAt 46 4⟩,
   ⟨.var, "x", ⟨"loop", 2, 46⟩, Lexer.spanAt 51 2⟩]

/-- Its program. -/
def loopProgram : Program :=
  .ofSections []
    [.loop [.choice [.mk (.ofRelation .ge) (.use "x") (.literal "3")] [] [.leave] [],
        .assign .add (.use "x") (.literal "1")],
      .exit (.use "x")]

theorem exists_implements_loop :
    (loopSource.lex = .ok loopTokens ∧
      (Program.ofTokens loopTokens).result = .ok loopProgram ∧
      ∀ n ∈ loopProgram.code, n.IsStructured false) ∧
    ∃ listing, ofProgram loopProgram = .ok listing ∧ Implements listing loopProgram := by
  have lexed : loopSource.lex = .ok loopTokens := Lexer.lex_of_toOption (by decide +kernel)
  have parsed : (Program.ofTokens loopTokens).result = .ok loopProgram := rfl
  have structured : ∀ n ∈ loopProgram.code, n.IsStructured false := by
    have var : HasPlainName (.use "x") := by rintro name ⟨⟩
    have literal : ∀ value, HasPlainName (.literal value) := by rintro value name ⟨⟩
    simp only [loopProgram, Program.code_ofSections, List.forall_mem_cons]
    refine ⟨.loop ?_, .exit var, by simp⟩
    simp only [List.forall_mem_cons]
    refine ⟨.choice ?_ ?_ (by simp), .assign var (literal _), by simp⟩
    · rw [List.forall_mem_singleton]
      exact ⟨var, literal _⟩
    · rw [List.forall_mem_singleton]
      exact .leave
  exact ⟨⟨lexed, parsed, structured⟩, exists_implements lexed parsed structured⟩

end XtAsm.Listing
