import XtAsm.Source.Position

/-!
# Reports

The stages of a compilation report on their progress, and on the defect that ends it.  Reports are
kept in the order in which they are made.
-/

namespace XtAsm

/-- How serious a report is; a higher level is more serious. -/
structure Severity where
  level : UInt8
  deriving DecidableEq

namespace Severity

/-- Progress of a stage. -/
def debug : Severity := ⟨0⟩

/-- Of general interest. -/
def info : Severity := ⟨1⟩

/-- Suspicious, but not fatal. -/
def warning : Severity := ⟨2⟩

/-- The defect that ended the compilation. -/
def error : Severity := ⟨3⟩

/-- The name of a severity. -/
def render (s : Severity) : Text :=
  if s = debug then "debug"
  else if s = info then "info"
  else if s = warning then "warning"
  else if s = error then "error"
  else "severity(" ++ Text.ofNat s.level.toNat ++ ")"

end Severity

/-- A message about a place in a file, or about no place at all. -/
structure Report where
  severity : Severity
  message : Text
  location : Position
  deriving DecidableEq

namespace Report

/-- A note on the progress of a stage. -/
def progress (message : Text) (location : Position) : Report := ⟨.debug, message, location⟩

/-- The reports that are at least as serious as the given level. -/
def filter (reports : List Report) (least : Severity) : List Report :=
  List.filter (fun r => least.level ≤ r.severity.level) reports

end Report

end XtAsm
