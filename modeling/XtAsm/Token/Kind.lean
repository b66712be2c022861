import XtAsm.Fault
import XtAsm.Operator
import XtAsm.Text.Integer

/-!
# Kinds of tokens

* `Keyword`, with `Keyword.ofText?`: the fourteen reserved words;
* `Kind`: the lexical classes, numbered by `Kind.number` and `Kind.ofNumber`.
-/

namespace XtAsm

/-- The reserved words. -/
inductive Keyword
  | exit
  | add
  | sub
  | mov
  | enum
  | if_
  | in_
  | else_
  | end_
  | while_
  | for_
  | loop
  | break_
  | jmp
  deriving DecidableEq

namespace Keyword

/-- The spelling of a reserved word. -/
def spelling : Keyword → String
  | .exit => "exit"
  | .add => "add"
  | .sub => "sub"
  | .mov => "mov"
  | .enum => "enum"
  | .if_ => "if"
  | .in_ => "in"
  | .else_ => "else"
  | .end_ => "end"
  | .while_ => "while"
  | .for_ => "for"
  | .loop => "loop"
  | .break_ => "break"
  | .jmp => "jmp"

/-- All reserved words. -/
def all : List Keyword :=
  [.exit, .add, .sub, .mov, .enum, .if_, .in_, .else_, .end_, .while_, .for_, .loop, .break_,
   .jmp]

theorem mem_all (w : Keyword) : w ∈ all := by
  cases w <;> decide

/-- The reserved word with the given spelling. -/
def ofChars? (cs : List Char) : Option Keyword := all.find? fun w => w.spelling.toList = cs

/-- Every reserved word is found by its spelling. -/
theorem ofChars?_spelling (w : Keyword) : ofChars? w.spelling.toList = some w := by
  cases w <;> decide

end Keyword

/-- The lexical class of a token. -/
inductive Kind
  /-- The head `#code` of the code section. -/
  | code
  /-- The head `#data` of the data section. -/
  | data
  /-- An integer literal. -/
  | int
  /-- A register `$name`. -/
  | reg
  /-- A variable `.name`. -/
  | var
  /-- Any other identifier. -/
  | name
  | semicolon
  | query
  /-- A label `:name`. -/
  | label
  | word (w : Keyword)
  | compare (r : Relation)
  | connect (j : Junction)
  /-- A number that belongs to no class; reading source text never yields one. -/
  | other (number : Nat)
  deriving DecidableEq

namespace Kind

/-- The number of a class. -/
def number : Kind → Nat
  | .code => 1
  | .data => 2
  | .int => 3
  | .reg => 4
  | .var => 5
  | .name => 6
  | .semicolon => 7
  | .query => 8
  | .word .if_ => 9
  | .word .in_ => 10
  | .word .else_ => 11
  | .word .end_ => 12
  | .word .while_ => 13
  | .word .for_ => 14
  | .word .loop => 15
  | .word .break_ => 16
  | .word .jmp => 17
  | .label => 18
  | .compare .eq => 19
  | .compare .ne => 20
  | .compare .gt => 21
  | .compare .ge => 22
  | .compare .lt => 23
  | .compare .le => 24
  | .connect .and_ => 25
  | .connect .or_ => 26
  | .word .exit => 27
  | .word .add => 28
  | .word .sub => 29
  | .word .mov => 30
  | .word .enum => 31
  | .other n => n

/-- The classes that source text can contain, in the order of their numbers. -/
def all : List Kind :=
  [.code, .data, .int, .reg, .var, .name, .semicolon, .query, .word .if_, .word .in_,
   .word .else_, .word .end_, .word .while_, .word .for_, .word .loop, .word .break_, .word .jmp,
   .label, .compare .eq, .compare .ne, .compare .gt, .compare .ge, .compare .lt, .compare .le,
   .connect .and_, .connect .or_, .word .exit, .word .add, .word .sub, .word .mov, .word .enum]

/-- The class with the given number. -/
def ofNumber (n : Nat) : Kind := (all.find? fun k => k.number = n).getD (.other n)

/-- Every class that source text can contain is found by its number. -/
theorem ofNumber_number (k : Kind) (h : k ∈ all) : ofNumber k.number = k := by
  simp only [all, List.mem_cons, List.not_mem_nil, or_false] at h
  rcases h with rfl | rfl | rfl | rfl | rfl | rfl | rfl | rfl | rfl | rfl | rfl | rfl | rfl | rfl |
    rfl | rfl | rfl | rfl | rfl | rfl | rfl | rfl | rfl | rfl | rfl | rfl | rfl | rfl | rfl | rfl |
    rfl <;> rfl

/-- What a class is called. -/
def spelling : Kind → Text
  | .code => "CODE"
  | .data => "DATA"
  | .int => "INT"
  | .reg => "REG"
  | .var => "VAR"
  | .name => "NAME"
  | .semicolon => "SEMICOLON"
  | .query => "QMARK"
  | .label => "LABEL"
  | .word w => Text.upper w.spelling
  | .compare .eq => "EQ"
  | .compare .ne => "NEQ"
  | .compare .gt => "GT"
  | .compare .ge => "GTE"
  | .compare .lt => "LT"
  | .compare .le => "LTE"
  | .connect .and_ => "AND"
  | .connect .or_ => "OR"
  | .other 0 => "INVALID"
  | .other n => "Kind(" ++ Text.ofNat n ++ ")"

/-- The name of a class.  Numbers beyond the signed 64-bit words have none. -/
def render (k : Kind) : Except Fault Text :=
  if k.number < Text.halfWords then .ok k.spelling else .error .outOfRange

/-- Every class that source text can contain has a name. -/
theorem render_of_mem_all {k : Kind} (h : k ∈ all) : k.render = .ok k.spelling := by
  have small : ∀ k ∈ all, k.number < Text.halfWords := by decide
  exact if_pos (small k h)

/-- The class is a comparison. -/
def isComparison : Kind → Bool
  | .compare _ => true
  | _ => false

/-- The class can stand as an operand: a variable, a register or a literal. -/
def isOperand : Kind → Bool
  | .var | .reg | .int => true
  | _ => false

end Kind

end XtAsm
