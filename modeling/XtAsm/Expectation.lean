import XtAsm.Source.File
import XtAsm.Text.Integer
import XtAsm.Text.Quoted

/-!
# Annotations of expected errors

The first lines of a source file may announce the errors that it contains, in the form
`--error:LINE:START-END:MESSAGE`.  Line and columns count from 1, and the end is exclusive.

* `Expectation.ofLine`: the syntax error that a line announces;
* `Expectation.extract`: all leading annotations of a source file.
-/

namespace XtAsm.Expectation

/-- How every annotation starts. -/
def opening : Text := "--error"

/-- Why a number or a span is refused. -/
inductive Refusal
  | notANumber (text : Text) (e : Text.IntegerError)
  | lineZero
  | notASpan
  | columnZero
  | endsBeforeStart
  | noSuchLine
  | overflow

/-- The description of the refusal. -/
def Refusal.message : Refusal → Text
  | .notANumber text e => "strconv.Atoi: parsing " ++ text.quoted ++ ": " ++ e.message
  | .lineZero => "lines numbered from 1"
  | .notASpan => "malformed, should be X-Y"
  | .columnZero => "columns numbered from 1"
  | .endsBeforeStart => "ends before it starts"
  | .noSuchLine => "non-existent line"
  | .overflow => "overflows to following line"

/-- What can be wrong with an annotation. -/
inductive Error
  | malformed (contents : Text)
  | invalidSpan (span : Text) (refusal : Refusal)

/-- The description of the defect. -/
def Error.message : Error → Text
  | .malformed contents =>
    "malformed expected error \"" ++ contents ++ "\", should be e.g. \"--error:X:Y-Z:msg\""
  | .invalidSpan span refusal => "invalid span \"" ++ span ++ "\" (" ++ refusal.message ++ ")"

/-- A number of an annotation. -/
def number (span text : Text) : Except Error Int :=
  (Text.readInt text).mapError fun e => .invalidSpan span (.notANumber text e)

/-- The two columns of a span. -/
def columns (span : Text) : Except Error (Int × Int) :=
  match Text.splitOn 45 span with
  | [first, last] => do
    let start ← number span first
    if start = 0 then throw (.invalidSpan span .columnZero)
    let stop ← number span last
    if stop < start then throw (.invalidSpan span .endsBeforeStart)
    return (start, stop)
  | _ => .error (.invalidSpan span .notASpan)

/-- The number of a line. -/
def lineNumber (line span : Text) : Except Error Int := do
  let place := line ++ ":" ++ span
  let n ← number place line
  if n = 0 then throw (.invalidSpan place .lineZero)
  return n

/-- An annotation as written. -/
structure Expected where
  line : Int
  start : Int
  stop : Int
  message : Text
  deriving DecidableEq

/-- The parts of an annotation; colons may occur in its message. -/
def parse (contents : Text) : Except Error Expected :=
  match Text.splitOn 58 contents with
  | _ :: line :: span :: message :: rest => do
    let n ← lineNumber line span
    let (start, stop) ← columns span
    return ⟨n, start, stop, Text.join ":" (message :: rest)⟩
  | _ => .error (.malformed contents)

/-- An annotation that has to lie within an existing line, or just after it.  A line number below
zero leads outside of the list of lines. -/
def check (lines : List Line) (e : Expected) : Except Fault (Except Error Expected) :=
  let span := Text.ofInt e.line ++ ":" ++ Text.ofInt e.start ++ "-" ++ Text.ofInt e.stop
  if (lines.length : Int) < e.line then .ok (.error (.invalidSpan span .noSuchLine))
  else if e.line < 1 then .error .outOfRange
  else match lines[e.line.toNat - 1]? with
    | none => .error .outOfRange
    | some line =>
      if (line.length : Int) + 1 < e.start ∨ (line.length : Int) + 1 < e.stop then
        .ok (.error (.invalidSpan span .overflow))
      else .ok (.ok e)

/-- The announced error as a syntax error of a file. -/
def Expected.syntaxError (e : Expected) (file : Text) : SyntaxError :=
  ⟨⟨file, e.line, e.start⟩, e.stop - e.start, e.message⟩

/-- The syntax error that a line announces, if it announces one. -/
def ofLine (file : Text) (lines : List Line) (line : Line) :
    Except Fault (Option (Except Error SyntaxError)) :=
  if opening.isPrefixOf line.text then
    match parse line.text with
    | .error e => .ok (some (.error e))
    | .ok expected => do
      let checked ← check lines expected
      return some (checked.map (·.syntaxError file))
  else .ok none

/-- What the leading annotations announce, and what is wrong with them. -/
structure Extracted where
  items : List SyntaxError
  errors : List Error

/-- The annotations at the head of some of the lines, up to the first line that is none. -/
def extractFrom (file : Text) (lines : List Line) : List Line → Except Fault Extracted
  | [] => .ok ⟨[], []⟩
  | line :: rest => do
    match ← ofLine file lines line with
    | none => return ⟨[], []⟩
    | some (.ok item) =>
      let more ← extractFrom file lines rest
      return { more with items := item :: more.items }
    | some (.error e) =>
      let more ← extractFrom file lines rest
      return { more with errors := e :: more.errors }

/-- The leading annotations of a source file. -/
def extract (s : Source) : Except Fault Extracted := extractFrom s.file s.lines s.lines

/-- A syntax error with the columns that it covers. -/
def summary (e : SyntaxError) : Text :=
  e.position.render ++ "-" ++ Text.ofInt (e.position.column + e.length) ++ " " ++ e.message

end XtAsm.Expectation
