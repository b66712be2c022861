import XtAsm.Report
import XtAsm.Text.Quoted

/-!
# Log lines

A log shows the reports that are serious enough for its level, one on each line, as a sequence of
keys and values.
-/

namespace XtAsm.Log

/-- The levels of a log, from the most to the least severe.  The first two admit no report. -/
inductive Level
  | panic
  | fatal
  | error
  | warning
  | info
  | debug
  | trace
  deriving DecidableEq

/-- The place of a level in the order of severity. -/
def Level.rank : Level → Nat
  | .panic => 0
  | .fatal => 1
  | .error => 2
  | .warning => 3
  | .info => 4
  | .debug => 5
  | .trace => 6

/-- The name of a level. -/
def Level.render : Level → Text
  | .panic => "panic"
  | .fatal => "fatal"
  | .error => "error"
  | .warning => "warning"
  | .info => "info"
  | .debug => "debug"
  | .trace => "trace"

/-- The level at which reports of a severity are shown; unknown severities count as errors. -/
def levelOf (s : Severity) : Level :=
  if s = .debug then .debug
  else if s = .info then .info
  else if s = .warning then .warning
  else .error

/-- The byte needs no quotes. -/
def isPlain (b : UInt8) : Bool :=
  (97 ≤ b && b ≤ 122) || (65 ≤ b && b ≤ 90) || (48 ≤ b && b ≤ 57) ||
    (Text.ofString "-._/@^+").contains b

/-- A value, in quotes unless it is a nonempty sequence of plain bytes. -/
def value (t : Text) : Text := if t ≠ [] ∧ t.all isPlain then t else t.quoted

/-- The line of a report.  An empty message and an unknown location are left out. -/
def line (r : Report) : Text :=
  let message : Text := if r.message = [] then [] else " msg=" ++ value r.message
  let location : Text :=
    if r.location.isValid then " location=" ++ value r.location.render else []
  "level=" ++ (levelOf r.severity).render ++ message ++ location ++ "\n"

/-- What a log of some level shows of a report. -/
def entry (level : Level) (r : Report) : Text :=
  if (levelOf r.severity).rank ≤ level.rank then line r else []

/-- What a log of some level shows of several reports. -/
def entries (level : Level) (reports : List Report) : Text := reports.flatMap (entry level)

end XtAsm.Log
