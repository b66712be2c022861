import XtAsm.Parser.Step

/-!
# The grammar of programs

Each production is a relation between a list of tokens and the tree that it denotes.  Only the
kinds and the texts of the tokens matter.

* `IsOperand`, `IsDestination`, `IsCondition`, `IsConditions`: the parts of statements;
* `IsStatement`, `IsBlock`, `IsTail`: statements, their lists, and the rest of a choice after its
  first body;
* `IsMembers`, `IsDeclaration`, `IsDeclarations`: the data section;
* `IsProgram`: at most one section of either sort, in any order.
-/

namespace XtAsm.Grammar

/-! ### Operands and conditions -/

/-- A variable, a register or a literal. -/
inductive IsOperand : Token → Node → Prop
  | var {t : Token} (h : t.kind = .var) : IsOperand t (.use t.text)
  | register {t : Token} (h : t.kind = .reg) : IsOperand t (.register t.text)
  | literal {t : Token} (h : t.kind = .int) : IsOperand t (.literal t.text)

/-- An operand that can be assigned to: a variable or a register. -/
inductive IsDestination : Token → Node → Prop
  | var {t : Token} (h : t.kind = .var) : IsDestination t (.use t.text)
  | register {t : Token} (h : t.kind = .reg) : IsDestination t (.register t.text)

/-- A comparison of two operands that are not both literals. -/
inductive IsCondition : List Token → Condition → Prop
  | mk {l c r : Token} {lhs rhs : Node} {op : Relation} (hl : IsOperand l lhs)
      (hc : c.kind = .compare op) (hr : IsOperand r rhs)
      (literals : ¬ (l.kind = .int ∧ r.kind = .int)) :
      IsCondition [l, c, r] (.mk (.ofRelation op) lhs rhs)

/-- Conditions with a connective between any two neighbours. -/
inductive IsConditions : List Token → List Condition → List Connective → Prop
  | single {ts : List Token} {c : Condition} (h : IsCondition ts c) : IsConditions ts [c] []
  | connect {ts us : List Token} {t : Token} {c : Condition} {j : Junction} {cs : List Condition}
      {ops : List Connective} (h : IsCondition ts c) (ht : t.kind = .connect j)
      (hs : IsConditions us cs ops) :
      IsConditions (ts ++ t :: us) (c :: cs) (.ofJunction j :: ops)

/-! ### Statements -/

/-- The reserved word of an instruction. -/
def keywordOf : Mnemonic → Keyword
  | .add => .add
  | .sub => .sub
  | .mov => .mov

mutual

/-- A single statement. -/
inductive IsStatement : List Token → Node → Prop
  | label {t : Token} (h : t.kind = .label) : IsStatement [t] (.label t.text)
  | leave {t : Token} (h : t.kind = .word .break_) : IsStatement [t] .leave
  | jump {k t : Token} (hk : k.kind = .word .jmp) (h : t.kind = .label) :
      IsStatement [k, t] (.jump t.text)
  | exit {k t : Token} {value : Node} (hk : k.kind = .word .exit) (h : IsOperand t value) :
      IsStatement [k, t] (.exit value)
  | assign {op : Mnemonic} {k d s : Token} {target source : Node}
      (hk : k.kind = .word (keywordOf op)) (hd : IsDestination d target) (hs : IsOperand s source) :
      IsStatement [k, d, s] (.assign op target source)
  | loop {k e : Token} {ts : List Token} {body : List Node} (hk : k.kind = .word .loop)
      (hb : IsBlock ts body) (he : e.kind = .word .end_) :
      IsStatement (k :: (ts ++ [e])) (.loop body)
  | whileLoop {k i e : Token} {cs ts : List Token} {conditions : List Condition}
      {connectives : List Connective} {body : List Node} (hk : k.kind = .word .while_)
      (hc : IsConditions cs conditions connectives) (hi : i.kind = .word .in_)
      (hb : IsBlock ts body) (he : e.kind = .word .end_) :
      IsStatement (k :: (cs ++ i :: (ts ++ [e]))) (.whileLoop conditions connectives body)
  | forLoop {k c s l u n i e : Token} {ts : List Token} {counter limit increment : Node}
      {body : List Node} (hk : k.kind = .word .for_) (hc : IsOperand c counter)
      (hs : s.kind = .semicolon) (hl : IsOperand l limit) (hu : u.kind = .semicolon)
      (hn : IsOperand n increment) (hi : i.kind = .word .in_) (hb : IsBlock ts body)
      (he : e.kind = .word .end_) :
      IsStatement (k :: c :: s :: l :: u :: n :: i :: (ts ++ [e]))
        (.forLoop counter limit increment body)
  | choice {k i : Token} {cs ts us : List Token} {conditions : List Condition}
      {connectives : List Connective} {thenBody elseBody : List Node} (hk : k.kind = .word .if_)
      (hc : IsConditions cs conditions connectives) (hi : i.kind = .word .in_)
      (hb : IsBlock ts thenBody) (ht : IsTail us elseBody) :
      IsStatement (k :: (cs ++ i :: (ts ++ us)))
        (.choice conditions connectives thenBody elseBody)

/-- Statements in a row. -/
inductive IsBlock : List Token → List Node → Prop
  | nil : IsBlock [] []
  | cons {ts us : List Token} {n : Node} {ns : List Node} (h : IsStatement ts n)
      (hs : IsBlock us ns) : IsBlock (ts ++ us) (n :: ns)

/-- What follows the first body of a choice, and the second body that it denotes. -/
inductive IsTail : List Token → List Node → Prop
  | close {e : Token} (he : e.kind = .word .end_) : IsTail [e] []
  /-- A nested choice right after `else` ends together with the choice around it. -/
  | elseIf {e k i : Token} {cs ts us : List Token} {conditions : List Condition}
      {connectives : List Connective} {thenBody elseBody : List Node}
      (he : e.kind = .word .else_) (hk : k.kind = .word .if_)
      (hc : IsConditions cs conditions connectives) (hi : i.kind = .word .in_)
      (hb : IsBlock ts thenBody) (ht : IsTail us elseBody) :
      IsTail (e :: k :: (cs ++ i :: (ts ++ us)))
        [.choice conditions connectives thenBody elseBody]
  | otherwise {e f : Token} {ts : List Token} {body : List Node} (he : e.kind = .word .else_)
      (hb : IsBlock ts body) (first : ∀ t ∈ ts.head?, t.kind ≠ .word .if_)
      (hf : f.kind = .word .end_) : IsTail (e :: (ts ++ [f])) body

end

/-! ### Declarations -/

/-- The members of an enumeration, of which the next one takes the given value unless it has an
index of its own.  Values are counted in 64-bit arithmetic. -/
inductive IsMembers (name : Text) : Int → List Token → List Variable → Prop
  | nil {next : Int} : IsMembers name next [] []
  | counted {next : Int} {m : Token} {ts : List Token} {members : List Variable}
      (hm : m.kind = .var ∨ m.kind = .name)
      (hs : IsMembers name (Text.wrap64 (next + 1)) ts members) :
      IsMembers name next (m :: ts) (⟨name ++ "." ++ m.text, Text.ofInt next, true⟩ :: members)
  | indexed {next value : Int} {m i : Token} {ts : List Token} {members : List Variable}
      (hm : m.kind = .var ∨ m.kind = .name) (hi : i.kind = .int)
      (hv : Text.readInt i.text = .ok value)
      (hs : IsMembers name (Text.wrap64 (value + 1)) ts members) :
      IsMembers name next (m :: i :: ts)
        (⟨name ++ "." ++ m.text, Text.ofInt value, true⟩ :: members)

/-- A single declaration. -/
inductive IsDeclaration : List Token → Node → Prop
  | initialised {t v : Token} (ht : t.kind = .var) (hv : v.kind = .int) :
      IsDeclaration [t, v] (.declaration t.text v.text)
  | uninitialised {t v : Token} (ht : t.kind = .var) (hv : v.kind = .query) :
      IsDeclaration [t, v] (.declaration t.text [])
  | enum {k name e : Token} {ts : List Token} {members : List Variable}
      (hk : k.kind = .word .enum) (hn : name.kind = .name) (hs : IsMembers name.text 0 ts members)
      (he : e.kind = .word .end_) :
      IsDeclaration (k :: name :: (ts ++ [e])) (.enum name.text members)

/-- Declarations in a row. -/
inductive IsDeclarations : List Token → List Node → Prop
  | nil : IsDeclarations [] []
  | cons {ts us : List Token} {n : Node} {ns : List Node} (h : IsDeclaration ts n)
      (hs : IsDeclarations us ns) : IsDeclarations (ts ++ us) (n :: ns)

/-! ### Programs -/

/-- The data section. -/
inductive IsData : List Token → List Node → Prop
  | mk {t : Token} {ts : List Token} {ns : List Node} (ht : t.kind = .data)
      (hs : IsDeclarations ts ns) : IsData (t :: ts) ns

/-- The code section. -/
inductive IsCode : List Token → List Node → Prop
  | mk {t : Token} {ts : List Token} {ns : List Node} (ht : t.kind = .code)
      (hs : IsBlock ts ns) : IsCode (t :: ts) ns

/-- A whole program.  A missing section is an empty one. -/
inductive IsProgram : List Token → Program → Prop
  | empty : IsProgram [] (.ofSections [] [])
  | data {ts : List Token} {ds : List Node} (hd : IsData ts ds) : IsProgram ts (.ofSections ds [])
  | code {ts : List Token} {cs : List Node} (hc : IsCode ts cs) : IsProgram ts (.ofSections [] cs)
  | dataCode {ts us : List Token} {ds cs : List Node} (hd : IsData ts ds) (hc : IsCode us cs) :
      IsProgram (ts ++ us) (.ofSections ds cs)
  | codeData {ts us : List Token} {ds cs : List Node} (hc : IsCode ts cs) (hd : IsData us ds) :
      IsProgram (ts ++ us) (.ofSections ds cs)

end XtAsm.Grammar
