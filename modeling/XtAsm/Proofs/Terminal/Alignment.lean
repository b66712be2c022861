import Mathlib.Algebra.GroupWithZero.Nat
import Mathlib.Data.List.Fold
import Mathlib.Data.List.Forall2
import Mathlib.Data.List.MinMax
import XtAsm.Proofs.Stateful.Table
import XtAsm.Proofs.Text.Utf8

/-!
# Tables are aligned

A table is built up by calls that add rows and change looks.  The cells may be any bytes: those that
belong to no character are counted one by one, both for the widths and for the offsets.

* `Table.Call`, `Table.perform`, `Table.Fit`: building a table;
* `Table.Holds`: what a table holds after its rows, in particular the width of every column;
* `lineOf`, `IsAligned`: a row on the terminal, and the places of its cells;
* `exists_aligned`: tables can be built from all calls that fit, and are aligned.
-/

namespace XtAsm.Text

/-! ### Characters of joined texts -/

theorem symbols_spaces (n : Nat) : symbols (spaces n) = List.replicate n (.char ' ') := by
  induction n with
  | zero => rfl
  | succ n ih =>
    have first := symbols_cons_of_ascii (a := 32) (by decide) (spaces n)
    rw [List.replicate_succ, ← ih]
    exact first

theorem symbols_append_spaces (t : Text) (n : Nat) :
    symbols (t ++ spaces n) = symbols t ++ List.replicate n (.char ' ') := by
  cases n with
  | zero => simp [spaces]
  | succ n =>
    have last : symbols (t ++ spaces (n + 1)) = symbols t ++ symbols (spaces (n + 1)) :=
      symbols_append_of_ascii (by decide) t (spaces n)
    rw [last, symbols_spaces]

end XtAsm.Text

namespace XtAsm.Terminal

open Text (Symbol symbols charCount)

/-- What stands between two columns. -/
def bar : List Symbol := [.char ' ', .char '|', .char ' ']

theorem symbols_append_bar (t u : Text) :
    symbols (t ++ (" | " : Text) ++ u) = symbols t ++ (bar ++ symbols u) := by
  have start : symbols (t ++ (" | " : Text) ++ u) = symbols t ++ symbols ((" | " : Text) ++ u) := by
    rw [List.append_assoc]
    exact Text.symbols_append_of_ascii (by decide) t _
  rw [start]
  refine congrArg _ ?_
  show symbols (32 :: 124 :: 32 :: u) = _
  rw [Text.symbols_cons_of_ascii (by decide), Text.symbols_cons_of_ascii (by decide),
    Text.symbols_cons_of_ascii (by decide)]
  rfl

namespace Table

/-! ### Building -/

/-- A call that adds a row, changes the look of a cell, or shows the looks or hides them. -/
inductive Call
  | add (cells : List Text)
  | look (column row : Nat) (escape : Escape)
  | showing (shown : Bool)

/-- The rows that a call adds. -/
def Call.rows : Call → List (List Text)
  | .add cells => [cells]
  | .look _ _ _ => []
  | .showing _ => []

/-- A row has a cell for every column, and a cell whose look is changed is there. -/
def Call.Fits (columns rows : Nat) : Call → Prop
  | .add cells => cells.length = columns
  | .look column row _ => column < columns ∧ row < rows
  | .showing _ => True

/-- The calls fit one after the other, from the given number of rows on. -/
def Fit (columns : Nat) : Nat → List Call → Prop
  | _, [] => True
  | rows, call :: calls =>
    call.Fits columns rows ∧ Fit columns (rows + call.rows.length) calls

/-- Makes a call. -/
def perform (t : Table) : Call → Except Fault Table
  | .add cells => do return (← t.addRow cells).1
  | .look column row escape => t.setEscape column row escape
  | .showing shown => return t.showEscapes shown

end Table

/-- Makes a call in place. -/
def Printer.perform : Table.Call → Attempt Text Printer Unit
  | .add cells => do let _ ← addRow cells
  | .look column row escape => setEscape column row escape
  | .showing shown => showEscapes shown

namespace Table

/-- The most characters in a cell of a column. -/
def widest (rows : List (List Text)) (column : Nat) : Nat :=
  ((rows.filterMap (·[column]?)).map charCount).foldl max 0

theorem widest_append {cells : List Text} {column : Nat} {cell : Text}
    (place : cells[column]? = some cell) (rows : List (List Text)) :
    widest (rows ++ [cells]) column = max (widest rows column) (charCount cell) := by
  simp [widest, place, List.filterMap_append]

theorem le_widest {rows : List (List Text)} {cells : List Text} {column : Nat} {cell : Text}
    (listed : cells ∈ rows) (place : cells[column]? = some cell) :
    charCount cell ≤ widest rows column := by
  have counted : charCount cell ∈ (rows.filterMap (·[column]?)).map charCount :=
    List.mem_map_of_mem (List.mem_filterMap.mpr ⟨cells, listed, place⟩)
  rw [widest, List.foldl_eq_foldr]
  exact List.le_max_of_le' 0 counted le_rfl

/-- A table has the given rows, which have a cell for every column, and the columns are as wide as
their widest cells. -/
structure Holds (t : Table) (columns : Nat) (rows : List (List Text)) : Prop where
  texts : t.rows.map (·.map Cell.text) = rows
  widths : t.widths = (List.range columns).map (widest rows)
  full : ∀ cells ∈ rows, cells.length = columns

theorem holds_ofWidth (columns : Nat) : (ofWidth columns).Holds columns [] where
  texts := rfl
  widths := by
    rw [show widest [] = fun _ => 0 from rfl, List.map_const', List.length_range]
    rfl
  full := by simp

section Holds

variable {t : Table} {columns : Nat} {rows : List (List Text)}

theorem Holds.length_widths (h : t.Holds columns rows) : t.widths.length = columns := by
  rw [h.widths, List.length_map, List.length_range]

theorem Holds.push (h : t.Holds columns rows) {cells : List Text} (same : cells.length = columns) :
    (t.push cells).Holds columns (rows ++ [cells]) where
  texts := by
    rw [Table.push, List.map_append, h.texts]
    simp [Function.comp_def]
  widths := by
    refine List.ext_getElem (by simp [Table.push, h.length_widths, same]) fun j left right => ?_
    have place : j < cells.length := by
      rw [Table.push, List.length_zipWith] at left
      omega
    simp [Table.push, h.widths, widest_append (List.getElem?_eq_getElem place)]
  full := by
    intro other mem
    rcases List.mem_append.mp mem with old | new
    · exact h.full other old
    · rwa [List.mem_singleton.mp new]

/-- Every cell fits into its column. -/
theorem Holds.fits (h : t.Holds columns rows) {cells : List Text} (listed : cells ∈ rows) :
    List.Forall₂ (fun width cell => charCount cell ≤ width) t.widths cells := by
  refine List.forall₂_of_length_eq_of_get (h.length_widths.trans (h.full cells listed).symm)
    fun j left right => ?_
  have wide := le_widest listed (List.getElem?_eq_getElem right)
  simpa [h.widths] using wide

/-- A cell whose place lies within the rows and columns is there. -/
theorem Holds.exists_cell (h : t.Holds columns rows) {column row : Nat} (hc : column < columns)
    (hr : row < rows.length) :
    ∃ cells cell, t.rows[row]? = some cells ∧ cells[column]? = some cell := by
  have inside : row < t.rows.length := by
    rwa [← h.texts, List.length_map] at hr
  have full : t.rows[row].length = columns := by
    have listed : t.rows[row].map Cell.text ∈ rows :=
      h.texts ▸ List.mem_map_of_mem (List.getElem_mem inside)
    simpa using h.full _ listed
  exact ⟨_, _, List.getElem?_eq_getElem inside, List.getElem?_eq_getElem (full ▸ hc)⟩

/-- A call that fits is made, in place as well, and adds its rows. -/
theorem Holds.exists_perform (h : t.Holds columns rows) {call : Call}
    (fits : call.Fits columns rows.length) :
    ∃ next, t.perform call = .ok next ∧ next.Holds columns (rows ++ call.rows) ∧
      Yields (Printer.perform call) (.ofTable t) (.ok ⟨⟩) (.ofTable next) := by
  cases call with
  | add cells =>
    have same : cells.length = t.widths.length := fits.trans h.length_widths.symm
    refine ⟨t.push cells, ?_, h.push fits,
      (Printer.yields_addRow t same).bind (yields_pure _ _)⟩
    simp [perform, addRow_of_eq same, bind, Except.bind, pure, Except.pure]
  | look column row escape =>
    obtain ⟨cells, cell, found, place⟩ := h.exists_cell fits.1 fits.2
    obtain ⟨next, changed, -, widths, -, texts⟩ := exists_setEscape found place escape
    refine ⟨next, changed, ?_, Printer.yields_setEscape found place changed⟩
    rw [Call.rows, List.append_nil]
    exact ⟨texts.trans h.texts, widths.trans h.widths, h.full⟩
  | showing shown =>
    refine ⟨t.showEscapes shown, rfl, ?_, yields_modify rfl⟩
    rw [Call.rows, List.append_nil]
    exact ⟨h.texts, h.widths, h.full⟩

/-- So are calls that fit one after the other. -/
theorem Holds.exists_foldlM (h : t.Holds columns rows) {calls : List Call}
    (fit : Fit columns rows.length calls) :
    ∃ next, calls.foldlM perform t = .ok next ∧ next.Holds columns (rows ++ calls.flatMap Call.rows) ∧
      Yields (calls.forM Printer.perform) (.ofTable t) (.ok ⟨⟩) (.ofTable next) := by
  induction calls generalizing t rows with
  | nil => exact ⟨t, rfl, by simpa using h, yields_pure _ _⟩
  | cons call calls ih =>
    obtain ⟨mid, made, holds, first⟩ := h.exists_perform fit.1
    obtain ⟨next, run, kept, rest⟩ := ih holds (by rw [List.length_append]; exact fit.2)
    refine ⟨next, ?_, ?_, ?_⟩
    · rw [List.foldlM_cons, made]
      exact run
    · rwa [List.flatMap_cons, ← List.append_assoc]
    · rw [List.forM_eq_forM, List.forM_cons]
      exact first.bind rest

end Holds

/-! ### Layout -/

theorem flatten_barred (ts : List Text) : (barred ts).flatten = Text.join " | " ts := by
  cases ts with
  | nil => rfl
  | cons t ts =>
    induction ts generalizing t with
    | nil => simp [barred]
    | cons u ts ih =>
      have rest := ih u
      simp only [barred, List.flatten_cons, List.map_cons] at rest ⊢
      rw [Text.join_cons_cons, ← rest]
      simp only [List.append_assoc]

end Table

/-- A row on the terminal, without the end of the line. -/
def lineOf (widths : List Nat) (cells : List Text) : Text :=
  Text.join " | " (List.zipWith Table.pad widths cells)

/-- Without looks, the rows are printed one after the other, each on a line of its own. -/
theorem render_showEscapes (t : Table) :
    (t.showEscapes false).render =
      (t.rows.map (·.map Cell.text)).flatMap (lineOf t.widths · ++ ("\n" : Text)) := by
  have row (cells : List Cell) : ((t.showEscapes false).rowWrites cells).flatten =
      lineOf t.widths (cells.map Cell.text) ++ ("\n" : Text) := by
    have plain : (t.showEscapes false).cellText = fun width cell => Table.pad width cell.text := rfl
    rw [Table.rowWrites_eq, List.flatten_append, Table.flatten_barred, plain, lineOf,
      List.zipWith_map_right]
    simp [Table.showEscapes]
  rw [Table.render, Table.writes, List.flatMap_map]
  show ((t.rows.flatMap _).flatten) = _
  induction t.rows with
  | nil => rfl
  | cons cells rows ih =>
    rw [List.flatMap_cons, List.flatten_append, row, ih, List.flatMap_cons]

/-- Every cell stands at the place of its column, is followed by blanks up to the width of the
column, and, unless it is the last one, by a bar. -/
def IsAligned (widths : List Nat) (cells : List Text) (line : Text) : Prop :=
  ∀ j width cell, widths[j]? = some width → cells[j]? = some cell →
    charCount cell ≤ width ∧ ∃ before after, before.length = (widths.take j).sum + 3 * j ∧
      symbols line = before ++
        (symbols cell ++ List.replicate (width - charCount cell) (.char ' ') ++ after) ∧
      (j + 1 = widths.length → after = []) ∧ (j + 1 < widths.length → bar <+: after)

theorem symbols_pad (width : Nat) (cell : Text) :
    symbols (Table.pad width cell) =
      symbols cell ++ List.replicate (width - charCount cell) (.char ' ') :=
  Text.symbols_append_spaces cell _

theorem length_symbols_pad {width : Nat} {cell : Text} (room : charCount cell ≤ width) :
    (symbols (Table.pad width cell)).length = width := by
  rw [symbols_pad, List.length_append, List.length_replicate]
  exact Nat.add_sub_cancel' room

section Lines

variable {widths : List Nat} {cells : List Text}

/-- A line with more than one cell starts with the first one and a bar. -/
theorem symbols_lineOf_cons {width : Nat} {cell : Text}
    (more : List.Forall₂ (fun width cell => charCount cell ≤ width) widths cells)
    (later : widths ≠ []) :
    symbols (lineOf (width :: widths) (cell :: cells)) =
      symbols (Table.pad width cell) ++ (bar ++ symbols (lineOf widths cells)) := by
  cases more with
  | nil => exact absurd rfl later
  | cons _ _ => exact symbols_append_bar _ _

theorem isAligned_lineOf
    (room : List.Forall₂ (fun width cell => charCount cell ≤ width) widths cells) :
    IsAligned widths cells (lineOf widths cells) := by
  induction room with
  | nil => exact fun _ _ _ hw => nomatch hw
  | @cons first head widths cells fits more ih =>
    intro j width cell hw hc
    cases j with
    | zero =>
      obtain rfl : first = width := Option.some.inj hw
      obtain rfl : head = cell := Option.some.inj hc
      by_cases none : widths = []
      · subst none
        obtain rfl := List.forall₂_nil_left_iff.mp more
        exact ⟨fits, [], [], rfl, by simp [lineOf, symbols_pad], fun _ => rfl,
          fun more => absurd more (Nat.lt_irrefl 1)⟩
      · refine ⟨fits, [], bar ++ symbols (lineOf widths cells), rfl, ?_, fun last => ?_,
          fun _ => List.prefix_append _ _⟩
        · rw [symbols_lineOf_cons more none, symbols_pad, List.nil_append, List.append_assoc]
        · exact absurd (List.eq_nil_of_length_eq_zero (Nat.succ.inj last).symm) none
    | succ j =>
      have later : widths ≠ [] := List.ne_nil_of_mem (List.mem_of_getElem? hw)
      obtain ⟨wide, before, after, place, split, last, next⟩ := ih j width cell hw hc
      refine ⟨wide, symbols (Table.pad first head) ++ (bar ++ before), after, ?_, ?_,
        fun h => last (Nat.succ.inj h), fun h => next (Nat.lt_of_succ_lt_succ h)⟩
      · rw [List.length_append, List.length_append, length_symbols_pad fits, place,
          List.take_succ_cons, List.sum_cons, show bar.length = 3 from rfl]
        omega
      · rw [symbols_lineOf_cons more later, split]
        simp only [List.append_assoc]

theorem charCount_lineOf
    (room : List.Forall₂ (fun width cell => charCount cell ≤ width) widths cells) :
    charCount (lineOf widths cells) = widths.sum + 3 * (widths.length - 1) := by
  induction room with
  | nil => rfl
  | @cons first head widths cells fits more ih =>
    by_cases none : widths = []
    · subst none
      obtain rfl := List.forall₂_nil_left_iff.mp more
      exact length_symbols_pad fits
    · have columns := List.length_pos_iff.mpr none
      rw [charCount] at ih ⊢
      rw [symbols_lineOf_cons more none, List.length_append, List.length_append,
        length_symbols_pad fits, ih, List.sum_cons, List.length_cons, show bar.length = 3 from rfl]
      omega

end Lines

/-- For any columns and any calls that fit, a table is built, in place as well.  Every column is as
wide as its widest cell.  The table is printed up to the first piece that the writer refuses, and
without looks, its text consists of the rows, each on a line of its own with all cells at the same
places.  Another row is refused unless it has a cell for every column. -/
theorem exists_aligned (columns : Nat) (calls : List Table.Call)
    (fit : Table.Fit columns 0 calls) :
    ∃ t, calls.foldlM Table.perform (Table.ofWidth columns) = .ok t ∧
      Yields (calls.forM Printer.perform) (Printer.new columns) (.ok ⟨⟩) (.ofTable t) ∧
      t.widths = (List.range columns).map (Table.widest (calls.flatMap Table.Call.rows)) ∧
      (∀ limit, Printer.Puts limit (Printer.print limit (.ofTable (t.showEscapes false)))
        (t.showEscapes false).writes) ∧
      (t.showEscapes false).render =
        (calls.flatMap Table.Call.rows).flatMap (lineOf t.widths · ++ ("\n" : Text)) ∧
      (∀ cells ∈ calls.flatMap Table.Call.rows, IsAligned t.widths cells (lineOf t.widths cells) ∧
        charCount (lineOf t.widths cells) = t.widths.sum + 3 * (columns - 1)) ∧
      ∀ cells, cells.length ≠ columns → t.addRow cells = .error .columnCount ∧
        Yields (Printer.addRow cells) (.ofTable t) (.error Fault.columnCount.message)
          (.ofTable t) := by
  obtain ⟨t, built, holds, yields⟩ := (Table.holds_ofWidth columns).exists_foldlM fit
  rw [List.nil_append] at holds
  rw [← Printer.new_eq_ofTable] at yields
  refine ⟨t, built, yields, holds.widths, Printer.puts_print ?_, ?_, ?_, ?_⟩
  · intro cells mem
    have listed := holds.full _ (holds.texts ▸ List.mem_map_of_mem mem)
    rw [List.length_map] at listed
    exact listed.trans holds.length_widths.symm
  · rw [render_showEscapes, holds.texts]
  · intro cells listed
    refine ⟨isAligned_lineOf (holds.fits listed), ?_⟩
    rw [charCount_lineOf (holds.fits listed), holds.length_widths]
  · intro cells other
    have refused : cells.length ≠ t.widths.length := holds.length_widths ▸ other
    exact ⟨Table.addRow_of_ne refused, Printer.yields_addRow_of_ne refused⟩

/-- A row with an empty cell. -/
def shortRow : List Text := ["abc", []]

/-- Calls for a table with a letter of two bytes, with the first bytes of a character that is cut
off, and with an empty cell. -/
def mixedCalls : List Table.Call :=
  [.add ["é", [0xE2, 0x82, 65]], .look 0 0 .bold, .showing true, .add shortRow]

theorem exists_aligned_mixed :
    Table.Fit 2 0 mixedCalls ∧
      ∃ t, mixedCalls.foldlM Table.perform (Table.ofWidth 2) = .ok t ∧ t.widths = [3, 3] ∧
        (t.showEscapes false).render =
          ("é   | " : Text) ++ [0xE2, 0x82, 65, Text.newline] ++ ("abc |    \n" : Text) ∧
        (shortRow ∈ mixedCalls.flatMap Table.Call.rows ∧
          charCount (lineOf t.widths shortRow) = 9) ∧
        ([([] : Text)].length ≠ 2 ∧ t.addRow [[]] = .error .columnCount) := by
  have fit : Table.Fit 2 0 mixedCalls := by
    simp [mixedCalls, shortRow, Table.Fit, Table.Call.Fits, Table.Call.rows]
  have listed : shortRow ∈ mixedCalls.flatMap Table.Call.rows := by decide +kernel
  have other : [([] : Text)].length ≠ 2 := by decide
  obtain ⟨t, built, -, maxima, -, lines, aligned, refused⟩ := exists_aligned 2 mixedCalls fit
  have widths : t.widths = [3, 3] := maxima.trans (by decide +kernel)
  refine ⟨fit, t, built, widths, ?_, ⟨listed, ?_⟩, other, (refused _ other).1⟩
  · rw [lines, widths]
    decide +kernel
  · rw [(aligned _ listed).2, widths]
    rfl

end XtAsm.Terminal
