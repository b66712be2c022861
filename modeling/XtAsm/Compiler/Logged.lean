import XtAsm.Failure

/-!
# Computations with reports

A stage of a compilation yields a value or fails, and makes reports on the way.  Stages in a row
make their reports in a row, up to the first failure.
-/

namespace XtAsm

/-- The reports of a stage, and its value or failure. -/
structure Logged (α : Type) where
  reports : List Report
  result : Except Failure α

namespace Logged

variable {α β : Type}

/-- A value without reports. -/
def ok (a : α) : Logged α := ⟨[], .ok a⟩

/-- A failure without reports. -/
def fail (f : Failure) : Logged α := ⟨[], .error f⟩

/-- A stage followed by another one that takes its value. -/
def andThen (x : Logged α) (next : α → Logged β) : Logged β :=
  match x.result with
  | .ok a =>
    let y := next a
    ⟨x.reports ++ y.reports, y.result⟩
  | .error f => ⟨x.reports, .error f⟩

instance : Monad Logged where
  pure := ok
  bind := andThen

theorem pure_eq (a : α) : (pure a : Logged α) = ⟨[], .ok a⟩ := rfl

theorem bind_ok (reports : List Report) (a : α) (next : α → Logged β) :
    (⟨reports, .ok a⟩ : Logged α) >>= next = ⟨reports ++ (next a).reports, (next a).result⟩ := rfl

theorem bind_error (reports : List Report) (f : Failure) (next : α → Logged β) :
    (⟨reports, .error f⟩ : Logged α) >>= next = ⟨reports, .error f⟩ := rfl

/-- A report of its own. -/
def note (r : Report) : Logged Unit := ⟨[r], .ok ()⟩

/-- A stage that also reports its failure. -/
def reporting (x : Logged α) : Logged α :=
  match x.result with
  | .ok _ => x
  | .error f => ⟨x.reports ++ [f.report], .error f⟩

/-- A value or failure without reports. -/
def ofExcept (x : Except Failure α) : Logged α := ⟨[], x⟩

end Logged

end XtAsm
