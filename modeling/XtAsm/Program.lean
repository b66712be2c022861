import XtAsm.Node.Printer

/-!
# Programs

A program has a data section and a code section.  A program that has been handed on to a code
generator has neither any more.
-/

namespace XtAsm

/-- The two sections of a program; each may be absent. -/
structure Program where
  data? : Option (List Node)
  code? : Option (List Node)

namespace Program

/-- The program without sections. -/
def absent : Program := ⟨none, none⟩

/-- The program with the given declarations and statements. -/
def ofSections (data code : List Node) : Program := ⟨some data, some code⟩

/-- The program has no sections. -/
def isAbsent (p : Program) : Bool := p.data?.isNone && p.code?.isNone

/-- The declarations; an absent section holds none. -/
def data (p : Program) : List Node := p.data?.getD []

/-- The statements; an absent section holds none. -/
def code (p : Program) : List Node := p.code?.getD []

/-- The two sections as nodes. -/
def nodes (p : Program) : List Node := [.data p.data, .code p.code]

@[simp] theorem data_ofSections (data code : List Node) : (ofSections data code).data = data := rfl

@[simp] theorem code_ofSections (data code : List Node) : (ofSections data code).code = code := rfl

/-- The source form of a program. -/
def render (p : Program) : Except Fault Text := do
  let data ← (Node.data p.data).render
  let code ← (Node.code p.code).render
  return data ++ "\n" ++ code ++ "\n"

end Program

end XtAsm
