import Mathlib.Data.List.Basic
import XtAsm.Proofs.Listing.Contents

/-!
# What the text of a listing contains

The labels, jumps and changes of a listing, read off its text line by line, in both sections.

* `placedLabels`, `jumpTargets`, `changes`: what a listing places, where it may jump to, and what it
  changes;
* `ReadsAs`: the text of a line is read as what the line says;
* `readsAs_render`: that of every tidy line is;
* `Program.exists_contents`: the listings of all programs that are read are read as lines that
  contain what the programs say.
-/

namespace XtAsm

namespace Machine

/-- The label that an instruction marks. -/
def Instruction.label? : Instruction → Option Text
  | .label name => some name
  | _ => none

/-- Where an instruction may go on other than at the next line. -/
def Instruction.target? : Instruction → Option Text
  | .jump target | .branch _ target => some target
  | _ => none

end Machine

namespace Listing

open Machine

/-! ### Reading lines -/

/-- The label that a line places. -/
def readLabel? (line : Text) : Option Text := (readLine line).bind Instruction.label?

/-- The label that a line may jump to. -/
def readTarget? (line : Text) : Option Text := (readLine line).bind Instruction.target?

/-- The operand that a line changes, and how: the first argument of an instruction, up to the comma
before the next space.  The operand itself may contain commas. -/
def readChange? (line : Text) : Option (Mnemonic × Text) :=
  match line with
  | 32 :: 32 :: rest =>
    let word := rest.takeWhile (· ≠ 32)
    (mnemonics.lookup word).map fun op =>
      (op, ((rest.drop (word.length + 1)).takeWhile (· ≠ 32)).dropLast)
  | _ => none

/-- All labels that a listing places, in order. -/
def placedLabels (listing : Text) : List Text := (Source.cutLines listing).filterMap readLabel?

/-- The labels that the jumps of a listing go to, in order. -/
def jumpTargets (listing : Text) : List Text := (Source.cutLines listing).filterMap readTarget?

/-- The operands that a listing changes, in order, and how. -/
def changes (listing : Text) : List (Mnemonic × Text) :=
  (Source.cutLines listing).filterMap readChange?

/-! ### Tidy lines -/

/-- The text of a line is read as what the line says. -/
structure ReadsAs (text : Text) (l : Line) : Prop where
  label : readLabel? text = labelText? l
  target : readTarget? text = l.target?.map Label.render
  change : readChange? text = l.change?

/-- No instruction is read as a label. -/
theorem label?_readInstruction (word arguments : Text) :
    (readInstruction word arguments).bind Instruction.label? = none := by
  simp only [readInstruction]
  split
  · rfl
  split
  · rfl
  split
  · cases readPair arguments <;> rfl
  split
  · cases readPair arguments <;> rfl
  · cases branches.lookup word <;> rfl

/-- What is read off an indented line. -/
theorem readsAs_indented (word arguments : Text) {l : Line} (bare : 32 ∉ word)
    (label : labelText? l = none)
    (target : (readInstruction word arguments).bind Instruction.target? =
      l.target?.map Label.render)
    (change : ((mnemonics.lookup word).map fun op =>
      (op, (arguments.takeWhile (· ≠ 32)).dropLast)) = l.change?) :
    ReadsAs (Text.ofString "  " ++ word ++ Text.ofString " " ++ arguments) l := by
  have line := readLine_indented word arguments bare
  refine ⟨?_, ?_, ?_⟩
  · rw [readLabel?, line, label?_readInstruction, label]
  · rw [readTarget?, line, target]
  · have indentation : Text.ofString "  " = [32, 32] := rfl
    have space : Text.ofString " " = [32] := rfl
    simp only [indentation, space, List.append_assoc, List.cons_append, List.nil_append,
      readChange?, takeWhile_ne_append bare]
    simpa using change

/-- No word with a colon after it is the name of an instruction. -/
theorem readInstruction_of_colon (name arguments : Text) :
    readInstruction (name ++ Text.ofString ":") arguments = none ∧
      mnemonics.lookup (name ++ Text.ofString ":") = none := by
  have last : (name ++ Text.ofString ":").getLast? = some 58 := by
    rw [List.getLast?_append]
    rfl
  have other : ∀ word : Text, word.getLast? ≠ some 58 → name ++ Text.ofString ":" ≠ word := by
    rintro word ne rfl
    exact ne last
  have unknown {α : Type} : ∀ table : List (Text × α), (∀ e ∈ table, e.1.getLast? ≠ some 58) →
      table.lookup (name ++ Text.ofString ":") = none := by
    intro table absent
    rw [List.lookup_eq_none_iff]
    exact fun e mem => bne_iff_ne.2 (other e.1 (absent e mem))
  have mnemonic := unknown mnemonics (by decide)
  refine ⟨?_, mnemonic⟩
  rw [readInstruction, if_neg (other _ (by decide)), if_neg (other _ (by decide)),
    if_neg (other _ (by decide)), mnemonic, unknown branches (by decide)]
  rfl

/-- An indented line whose first word ends with a colon says nothing. -/
theorem readsAs_colon {name : Text} (arguments : Text) {l : Line} (bare : IsBare name)
    (label : labelText? l = none) (target : l.target? = none) (change : l.change? = none) :
    ReadsAs (Text.ofString "  " ++ (name ++ Text.ofString ":") ++ Text.ofString " " ++ arguments)
      l := by
  obtain ⟨unread, unknown⟩ := readInstruction_of_colon name arguments
  have word : IsBare (name ++ Text.ofString ":") := bare.append (by decide)
  refine readsAs_indented _ _ word.1 label ?_ ?_
  · rw [unread, target]
    rfl
  · rw [unknown, change]
    rfl

/-- A conditional jump is read as one, whatever byte its comparison is. -/
theorem readInstruction_jumpMnemonic (op : Comparator) (arguments : Text) :
    (32 : UInt8) ∉ Text.ofString (jumpMnemonic op) ∧
      readInstruction (jumpMnemonic op) arguments =
        some (.branch (op.relation?.getD .ge) arguments) ∧
      mnemonics.lookup (jumpMnemonic op : Text) = none := by
  rw [jumpMnemonic]
  cases op.relation? with
  | none => exact ⟨by decide, rfl, rfl⟩
  | some r => cases r <;> exact ⟨by decide, rfl, rfl⟩

/-- A line with a label is read as the label. -/
theorem readsAs_label {l : Label} (bare : IsBare l.render) :
    ReadsAs (l.render ++ Text.ofString ":") (.label l) := by
  have outdented : ∀ rest, l.render ++ Text.ofString ":" ≠ 32 :: 32 :: rest := by
    intro rest indented
    have mem : 32 ∈ l.render ++ Text.ofString ":" := by simp [indented]
    rw [List.mem_append] at mem
    exact mem.elim bare.1 (by decide)
  have line : readLine (l.render ++ Text.ofString ":") = some (.label l.render) := by
    unfold readLine
    split
    · exact absurd ‹_› (outdented _)
    · simp [show Text.ofString ":" = [58] from rfl]
  refine ⟨?_, ?_, ?_⟩
  · rw [readLabel?, line]
    rfl
  · rw [readTarget?, line]
    rfl
  · unfold readChange?
    split
    · exact absurd ‹_› (outdented _)
    · rfl

/-- The text of a tidy line is read as what the line says. -/
theorem readsAs_render {l : Line} (h : IsTidy l) : ReadsAs l.render l := by
  cases h with
  | dataHead => exact ⟨rfl, rfl, rfl⟩
  | codeHead => exact ⟨rfl, rfl, rfl⟩
  | label h => exact readsAs_label h
  | exit => exact readsAs_indented "exit" _ (by decide) rfl rfl rfl
  | @assign op target source ht hs =>
    have spelling : (32 : UInt8) ∉ Text.ofString op.spelling := by cases op <;> decide
    have line := readsAs_indented _ (target ++ Text.ofString ", " ++ source)
      (l := .assign op target source) spelling rfl ?_ ?_
    · simp only [Line.render, List.append_assoc] at line ⊢
      exact line
    · rw [readInstruction_mnemonic]
      cases readPair (target ++ Text.ofString ", " ++ source) <;> rfl
    · -- the target has no space, and so ends with the comma before the first one
      have comma : Text.ofString ", " = [44, 32] := rfl
      have bare : 32 ∉ target ++ [44] := by simpa using ht.1
      have first : (target ++ Text.ofString ", " ++ source).takeWhile (· ≠ 32) =
          target ++ [44] := by
        rw [comma]
        simpa using takeWhile_ne_append bare source
      rw [first, List.dropLast_concat]
      cases op <;> rfl
  | jump => exact readsAs_indented "jmp" _ (by decide) rfl rfl rfl
  | @compare lhs rhs hl hr =>
    have line := readsAs_indented "cmp" (lhs ++ Text.ofString ", " ++ rhs)
      (l := .compare lhs rhs) (by decide) rfl ?_ rfl
    · simp only [Line.render, List.append_assoc] at line ⊢
      exact line
    · show ((readPair (lhs ++ Text.ofString ", " ++ rhs)).map _).bind _ = _
      cases readPair (lhs ++ Text.ofString ", " ++ rhs) <;> rfl
  | @branch op target h =>
    obtain ⟨bare, read, unchanging⟩ := readInstruction_jumpMnemonic op target.render
    refine readsAs_indented _ _ bare rfl ?_ ?_
    · rw [read]
      rfl
    · rw [unchanging]
      rfl
  | constant => exact readsAs_indented ".equ" _ (by decide) rfl rfl rfl
  | @zero name hn =>
    have line := readsAs_colon ".zero" hn (l := .zero name) rfl rfl rfl
    simp only [Line.render, List.append_assoc] at line ⊢
    exact line
  | @word name value hn hv =>
    have line := readsAs_colon (Text.ofString ".word " ++ value) hn
      (l := .word name value) rfl rfl rfl
    simp only [Line.render, List.append_assoc] at line ⊢
    exact line

/-! ### Whole listings -/

/-- The texts of a tidy line have no line breaks. -/
theorem IsTidy.newline_not_mem {l : Line} (h : IsTidy l) : Text.newline ∉ l.render := by
  refine newline_not_mem_render ?_
  cases h with
  | dataHead | codeHead => simp [Line.texts]
  | label h | exit h | jump h | branch h | zero h => simpa [Line.texts] using h.2
  | assign ha hb | compare ha hb | constant ha hb | word ha hb =>
    simpa [Line.texts] using ⟨ha.2, hb.2⟩

/-- The lines of a listing of two sections. -/
theorem cutLines_sections {data code : List Line} (hd : data ≠ []) (hc : code ≠ [])
    (tidy : ∀ l ∈ data ++ code, IsTidy l) :
    Source.cutLines (render data ++ "\n" ++ render code ++ "\n") =
      (data ++ code).map Line.render := by
  rw [List.forall_mem_append] at tidy
  have second := cutLines_render hc (fun l hl => (tidy.2 l hl).newline_not_mem) []
  rw [List.append_nil] at second
  rw [List.append_assoc, cutLines_render hd fun l hl => (tidy.1 l hl).newline_not_mem, second]
  simp [Source.cutLines]

/-- What is read off tidy lines one by one. -/
theorem filterMap_render {α : Type} {read : Text → Option α} {said : Line → Option α}
    {ls : List Line} (h : ∀ l ∈ ls, read l.render = said l) :
    (ls.map Line.render).filterMap read = ls.filterMap said := by
  rw [List.filterMap_map]
  exact List.filterMap_congr h

/-- What a whole listing is read as. -/
theorem read_sections {data code : List Line} (hd : data ≠ []) (hc : code ≠ [])
    (tidy : ∀ l ∈ data ++ code, IsTidy l) {listing : Text}
    (same : listing = render data ++ "\n" ++ render code ++ "\n") :
    placedLabels listing = labelTexts (data ++ code) ∧
      jumpTargets listing = ((data ++ code).filterMap Line.target?).map Label.render ∧
      changes listing = (data ++ code).filterMap Line.change? := by
  have lines := cutLines_sections hd hc tidy
  rw [← same] at lines
  rw [placedLabels, jumpTargets, changes, lines, List.map_filterMap]
  exact ⟨filterMap_render fun l hl => (readsAs_render (tidy l hl)).label,
    filterMap_render fun l hl => (readsAs_render (tidy l hl)).target,
    filterMap_render fun l hl => (readsAs_render (tidy l hl)).change⟩

end Listing

namespace Program

open Listing

/-- The listing of a program that has been read is read as lines that contain what the program
says; the labels that are made up for it have the numbers from 1 on. -/
theorem exists_contents {s : Source} {ts : List Token} {p : Program} {listing : Text}
    (lexed : s.lex = .ok ts) (parsed : (ofTokens ts).result = .ok p)
    (generated : ofProgram p = .ok listing) :
    ∃ ls ks, Contains [] (Node.statementsAll p.code) ls ks ∧ Fresh 0 (freshLabels p) ks ∧
      placedLabels listing = labelTexts ls ∧
      jumpTargets listing = (ls.filterMap Line.target?).map Label.render ∧
      changes listing = ls.filterMap Line.change? := by
  obtain ⟨ds, cs, rfl, hd, hc⟩ := exists_expressible lexed parsed
  obtain ⟨data, code, ns, ms, laysData, laysCode, fresh, result⟩ := exists_lines (ofSections ds cs)
  have contains := contains_sections hd hc laysData laysCode
  have same : listing = Listing.render data ++ "\n" ++ Listing.render code ++ "\n" := by
    rw [generated] at result
    split at result
    · cases result
    · exact Except.ok.inj result
  have heads : data ≠ [] ∧ code ≠ [] := by
    cases laysData
    cases laysCode
    exact ⟨List.cons_ne_nil _ _, List.cons_ne_nil _ _⟩
  exact ⟨data ++ code, ns ++ ms, contains, fresh, read_sections heads.1 heads.2 contains.tidy same⟩

end Program

end XtAsm
