import XtAsm.Listing.Template
import XtAsm.Proofs.Listing.Machine
import XtAsm.Proofs.Text.Numeral

/-!
# Reading listings back

The text of a listing is read as the instructions that its lines stand for.

* `Line.instruction?`: what a line tells the machine to do;
* `IsClean`: lines whose operands cannot be confused with the text around them;
* `readLine_render`: a clean line is read as what it stands for;
* `codeLines_render`, `load_render`: the code section of a listing is cut into its lines, and read
  line by line.
-/

namespace XtAsm.Listing

open Machine

/-- What a line of a code section tells the machine to do. -/
def Line.instruction? : Line → Option Instruction
  | .label l => some (.label l.render)
  | .exit value => some (.exit (readOperand value))
  | .assign op target source => some (.assign op (readOperand target) (readOperand source))
  | .jump target => some (.jump target.render)
  | .compare lhs rhs => some (.compare (readOperand lhs) (readOperand rhs))
  | .branch op target => op.relation?.map fun r => .branch r target.render
  | _ => none

/-- The text contains no line break and no comma. -/
def IsPlain (t : Text) : Prop := Text.newline ∉ t ∧ 44 ∉ t

/-- The line is an instruction on plain operands and fresh labels. -/
inductive IsClean : Line → Prop
  | label {n : Nat} : IsClean (.label (.fresh n))
  | exit {value : Text} (h : IsPlain value) : IsClean (.exit value)
  | assign {op : Mnemonic} {target source : Text} (ht : IsPlain target) (hs : IsPlain source) :
      IsClean (.assign op target source)
  | jump {n : Nat} : IsClean (.jump (.fresh n))
  | compare {lhs rhs : Text} (hl : IsPlain lhs) (hr : IsPlain rhs) : IsClean (.compare lhs rhs)
  | branch {r : Relation} {n : Nat} : IsClean (.branch (.ofRelation r) (.fresh n))

/-! ### One line -/

/-- The bytes before the first occurrence of a byte. -/
theorem takeWhile_ne_append {b : UInt8} {t : Text} (h : b ∉ t) (rest : Text) :
    (t ++ b :: rest).takeWhile (· ≠ b) = t := by
  rw [List.takeWhile_append_of_pos]
  · simp
  · intro c hc
    have : c ≠ b := by
      rintro rfl
      exact h hc
    simpa using this

/-- An indented line is read as an instruction. -/
theorem readLine_indented (word arguments : Text) (h : 32 ∉ word) :
    readLine (Text.ofString "  " ++ word ++ Text.ofString " " ++ arguments) =
      readInstruction word arguments := by
  have indentation : Text.ofString "  " = [32, 32] := rfl
  have space : Text.ofString " " = [32] := rfl
  simp only [indentation, space, List.append_assoc, List.cons_append, List.nil_append, readLine,
    takeWhile_ne_append h]
  simp

/-- Two operands are read one by one. -/
theorem readPair_append {a : Text} (h : IsPlain a) (b : Text) :
    readPair (a ++ Text.ofString ", " ++ b) = some (readOperand a, readOperand b) := by
  have comma : Text.ofString ", " = [44, 32] := rfl
  simp only [comma, List.append_assoc, List.cons_append, List.nil_append, readPair,
    takeWhile_ne_append h.2]
  simp

/-- A label is read as such. -/
theorem readLine_label (n : Nat) :
    readLine ((Label.fresh n).render ++ Text.ofString ":") =
      some (.label (Label.fresh n).render) := by
  have text : (Label.fresh n).render = 46 :: 76 :: Text.ofNat n := rfl
  have colon : Text.ofString ":" = [58] := rfl
  rw [colon]
  unfold readLine
  split
  · next h =>
    rw [text] at h
    cases h
  · simp

theorem readInstruction_mnemonic (op : Mnemonic) (arguments : Text) :
    readInstruction op.spelling arguments =
      (readPair arguments).map fun (target, source) => .assign op target source := by
  cases op <;> rfl

theorem readInstruction_branch (r : Relation) (arguments : Text) :
    readInstruction (jumpMnemonic (.ofRelation r)) arguments = some (.branch r arguments) := by
  cases r <;> rfl

/-- A clean line is read as what it stands for. -/
theorem readLine_render {l : Line} (h : IsClean l) : readLine l.render = l.instruction? := by
  cases h with
  | label => exact readLine_label _
  | exit h => exact readLine_indented "exit" _ (by decide)
  | @assign op target source ht hs =>
    have line := readLine_indented op.spelling (target ++ Text.ofString ", " ++ source)
      (by cases op <;> decide)
    rw [readInstruction_mnemonic, readPair_append ht] at line
    simp only [Line.render, List.append_assoc] at line ⊢
    exact line
  | jump => exact readLine_indented "jmp" _ (by decide)
  | @compare lhs rhs hl hr =>
    have line := readLine_indented "cmp" (lhs ++ Text.ofString ", " ++ rhs) (by decide)
    have pair : readInstruction "cmp" (lhs ++ Text.ofString ", " ++ rhs) =
        (readPair (lhs ++ Text.ofString ", " ++ rhs)).map fun (lhs, rhs) => .compare lhs rhs := rfl
    rw [pair, readPair_append hl] at line
    simp only [Line.render, List.append_assoc] at line ⊢
    exact line
  | @branch r n =>
    have line := readLine_indented (jumpMnemonic (.ofRelation r)) (Label.fresh n).render
      (by cases r <;> decide)
    rw [readInstruction_branch] at line
    rw [Line.render, line, Line.instruction?, Comparator.relation?_ofRelation]
    rfl

/-! ### Whole listings -/

/-- The first line of a text. -/
theorem cutLines_append {t : Text} (h : Text.newline ∉ t) (rest : Text) :
    Source.cutLines (t ++ Text.newline :: rest) = t :: Source.cutLines rest := by
  induction t with
  | nil => simp [Source.cutLines]
  | cons b t ih =>
    rw [List.mem_cons, not_or] at h
    simp only [List.cons_append, Source.cutLines, if_neg (Ne.symm h.1), ih h.2]

/-- The lines of a listing, each without a line break of its own. -/
theorem cutLines_render {lines : List Line} (ne : lines ≠ [])
    (h : ∀ l ∈ lines, Text.newline ∉ l.render) (rest : Text) :
    Source.cutLines (render lines ++ Text.ofString "\n" ++ rest) =
      lines.map Line.render ++ Source.cutLines rest := by
  have newline : Text.ofString "\n" = [Text.newline] := rfl
  induction lines with
  | nil => exact absurd rfl ne
  | cons l lines ih =>
    rw [List.forall_mem_cons] at h
    cases lines with
    | nil =>
      rw [render_singleton, newline, List.append_assoc, List.singleton_append,
        cutLines_append h.1]
      rfl
    | cons m lines =>
      have joined : render (l :: m :: lines) =
          l.render ++ Text.newline :: render (m :: lines) := by
        simp only [render, List.map_cons, Text.join_cons_cons, newline, List.append_assoc,
          List.singleton_append]
      rw [joined, List.append_assoc, List.append_assoc, List.cons_append, cutLines_append h.1,
        ← List.append_assoc, ih (by simp) h.2]
      rfl

/-- A line of a data section, which is not the head of a code section. -/
def IsEntry (l : Line) : Prop := Text.newline ∉ l.render ∧ l.render ≠ Text.ofString ".code"

theorem newline_not_mem_fresh (n : Nat) : Text.newline ∉ (Label.fresh n).render := by
  rw [Label.render, List.mem_append, not_or]
  exact ⟨by decide, Text.newline_not_mem_ofNat n⟩

/-- The texts that a line is put together from. -/
def Line.texts : Line → List Text
  | .dataHead | .codeHead => []
  | .label l | .jump l | .branch _ l => [l.render]
  | .exit value => [value]
  | .assign _ a b | .compare a b | .constant a b | .word a b => [a, b]
  | .zero name => [name]
  | .bare operand => [operand]

/-- A line of texts without line breaks is a single line. -/
theorem newline_not_mem_render {l : Line} (h : ∀ t ∈ l.texts, Text.newline ∉ t) :
    Text.newline ∉ l.render := by
  have mnemonic (op : Mnemonic) : Text.newline ∉ Text.ofString op.spelling := by
    cases op <;> decide
  have conditional (op : Comparator) : Text.newline ∉ Text.ofString (jumpMnemonic op) := by
    rw [jumpMnemonic]
    cases op.relation? with
    | none => decide
    | some r => cases r <;> decide
  cases l with
  | dataHead | codeHead => decide
  | assign op | branch op =>
    simp only [Line.texts, List.forall_mem_cons] at h
    simp only [Line.render, List.mem_append, h, mnemonic, conditional, or_false]
    decide
  | bare => exact h _ (List.mem_singleton.2 rfl)
  | _ =>
    simp only [Line.texts, List.forall_mem_cons] at h
    simp only [Line.render, List.mem_append, h, or_false, false_or]
    decide

/-- The texts of a clean line have no line breaks. -/
theorem IsClean.newline_not_mem {l : Line} (h : IsClean l) : Text.newline ∉ l.render := by
  refine newline_not_mem_render ?_
  cases h with
  | label | jump | branch => simpa [Line.texts] using newline_not_mem_fresh _
  | exit h => simpa [Line.texts] using h.1
  | assign ha hb | compare ha hb => simpa [Line.texts] using ⟨ha.1, hb.1⟩

/-- The lines of the code section of a listing. -/
theorem codeLines_render {data code : List Line} (hd : ∀ l ∈ data, IsEntry l)
    (hc : ∀ l ∈ code, Text.newline ∉ l.render) :
    codeLines (render (.dataHead :: data) ++ Text.ofString "\n" ++ render (.codeHead :: code) ++
      Text.ofString "\n") = code.map Line.render := by
  have dataLines : ∀ l ∈ Line.dataHead :: data, Text.newline ∉ l.render := by
    rw [List.forall_mem_cons]
    exact ⟨by decide, fun l hl => (hd l hl).1⟩
  have codeLines : ∀ l ∈ Line.codeHead :: code, Text.newline ∉ l.render := by
    rw [List.forall_mem_cons]
    exact ⟨by decide, hc⟩
  have cutCode := cutLines_render (by simp) codeLines []
  rw [List.append_nil] at cutCode
  have passed : ∀ t ∈ (Line.dataHead :: data).map Line.render,
      decide (t ≠ Text.ofString ".code") = true := by
    simp only [List.map_cons, List.forall_mem_cons, List.forall_mem_map, decide_eq_true_eq]
    exact ⟨by decide, fun l hl => (hd l hl).2⟩
  rw [Machine.codeLines, List.append_assoc, cutLines_render (by simp) dataLines, cutCode,
    List.dropWhile_append_of_pos passed]
  have head : Line.codeHead.render = Text.ofString ".code" := rfl
  simp only [List.map_cons, List.cons_append, List.dropWhile_cons, head]
  simp only [ne_eq, not_true_eq_false, decide_false, Bool.false_eq_true, if_false,
    List.drop_succ_cons, List.drop_zero, Source.cutLines, List.append_nil]

/-- The code section of a listing is read line by line. -/
theorem load_render {data code : List Line} (hd : ∀ l ∈ data, IsEntry l)
    (hc : ∀ l ∈ code, IsClean l) :
    load (render (.dataHead :: data) ++ Text.ofString "\n" ++ render (.codeHead :: code) ++
      Text.ofString "\n") = code.map Line.instruction? := by
  rw [load, codeLines_render hd fun l hl => (hc l hl).newline_not_mem, List.map_map]
  exact List.map_congr_left fun l hl => readLine_render (hc l hl)

end XtAsm.Listing
