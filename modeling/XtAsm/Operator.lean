import XtAsm.Text.Basic

/-!
# Comparisons and connectives

Source text knows six comparisons and two connectives.  In a syntax tree an operator is a single
byte, of which only the first few values have a meaning; trees built by hand may hold others.

* `Relation`, `Junction`: the operators of source text;
* `Comparator`, `Connective`: the operator bytes of syntax trees.
-/

namespace XtAsm

/-- The comparisons that source text can express. -/
inductive Relation
  | eq
  | ne
  | gt
  | ge
  | lt
  | le
  deriving DecidableEq

/-- The connectives that source text can express. -/
inductive Junction
  | and_
  | or_
  deriving DecidableEq

/-- A comparison in a syntax tree. -/
structure Comparator where
  code : UInt8
  deriving DecidableEq

namespace Comparator

/-- The byte of each comparison. -/
def ofRelation : Relation → Comparator
  | .eq => ⟨0⟩
  | .ne => ⟨1⟩
  | .lt => ⟨2⟩
  | .le => ⟨3⟩
  | .gt => ⟨4⟩
  | .ge => ⟨5⟩

/-- The comparison that a byte stands for, if any. -/
def relation? (c : Comparator) : Option Relation :=
  match c.code with
  | 0 => some .eq
  | 1 => some .ne
  | 2 => some .lt
  | 3 => some .le
  | 4 => some .gt
  | 5 => some .ge
  | _ => none

@[simp] theorem relation?_ofRelation (r : Relation) : (ofRelation r).relation? = some r := by
  cases r <;> rfl

/-- The sign of a comparison. -/
def render (c : Comparator) : Text :=
  match c.relation? with
  | some .eq => "=="
  | some .ne => "!="
  | some .lt => "<"
  | some .le => "<="
  | some .gt => ">"
  | some .ge => ">="
  | none => "CondOp(" ++ Text.ofNat c.code.toNat ++ ")"

/-- The comparison that holds exactly when this one does not.  A byte without a meaning is taken
for "not less". -/
def negate (c : Comparator) : Comparator :=
  match c.relation? with
  | some .eq => ofRelation .ne
  | some .ne => ofRelation .eq
  | some .lt => ofRelation .ge
  | some .le => ofRelation .gt
  | some .gt => ofRelation .le
  | some .ge => ofRelation .lt
  | none => ofRelation .lt

/-- Negating twice leaves every comparison of source text as it is. -/
@[simp] theorem negate_negate_ofRelation (r : Relation) :
    (ofRelation r).negate.negate = ofRelation r := by
  cases r <;> rfl

end Comparator

/-- A connective in a syntax tree. -/
structure Connective where
  code : UInt8
  deriving DecidableEq

namespace Connective

/-- The byte of each connective. -/
def ofJunction : Junction → Connective
  | .and_ => ⟨0⟩
  | .or_ => ⟨1⟩

/-- The connective that a byte stands for, if any. -/
def junction? (c : Connective) : Option Junction :=
  match c.code with
  | 0 => some .and_
  | 1 => some .or_
  | _ => none

@[simp] theorem junction?_ofJunction (j : Junction) : (ofJunction j).junction? = some j := by
  cases j <;> rfl

/-- The sign of a connective. -/
def render (c : Connective) : Text :=
  match c.junction? with
  | some .and_ => "&&"
  | some .or_ => "||"
  | none => "BoolOp(" ++ Text.ofNat c.code.toNat ++ ")"

end Connective

end XtAsm
