import XtAsm.Proofs.Stateful.Action
import XtAsm.Terminal.Table

/-!
# A table that is built up in place

A table that keeps the texts and the looks of its cells apart, and changes its widths cell by cell
while a row comes in.  What it prints it hands to a writer piece by piece; the writer may refuse a
piece, which ends the printing.

* `Printer`, `addRow`, `setEscape`, `print`: the table;
* `Printer.ofTable`: what it holds of a table;
* `yields_addRow`, `yields_addRow_of_ne`, `yields_setEscape`: rows, and looks, that are added to it
  or refused;
* `puts_print`: a writer receives what `Table.writes` says, up to the first piece that it refuses.
-/

namespace XtAsm.Terminal

namespace Table

/-- The table with a row that has a cell for every column. -/
def push (t : Table) (cells : List Text) : Table :=
  { t with
    widths := List.zipWith (fun width cell => max width (Text.charCount cell)) t.widths cells
    rows := t.rows ++ [cells.map (⟨·, .plain⟩)] }

theorem addRow_of_eq {t : Table} {cells : List Text} (same : cells.length = t.widths.length) :
    t.addRow cells = .ok (t.push cells, t.rows.length) := if_neg fun other => other same

theorem addRow_of_ne {t : Table} {cells : List Text} (other : cells.length ≠ t.widths.length) :
    t.addRow cells = .error .columnCount := if_pos other

theorem set_of_getElem? {α : Type} {as : List α} {i : Nat} {a : α} (h : as[i]? = some a) :
    as.set i a = as := by
  obtain ⟨inside, rfl⟩ := List.getElem?_eq_some_iff.mp h
  exact List.set_getElem_self inside

/-- The look of a cell that there is can be changed, which changes no text. -/
theorem exists_setEscape {t : Table} {column row : Nat} {cells : List Cell} {cell : Cell}
    (found : t.rows[row]? = some cells) (place : cells[column]? = some cell) (escape : Escape) :
    ∃ next, t.setEscape column row escape = .ok next ∧
      next.rows = t.rows.set row (cells.set column { cell with escape }) ∧
      next.widths = t.widths ∧ next.escapes = t.escapes ∧
      next.rows.map (·.map Cell.text) = t.rows.map (·.map Cell.text) := by
  have texts : (cells.set column { cell with escape }).map Cell.text = cells.map Cell.text := by
    rw [List.map_set]
    exact set_of_getElem? (by simp [place])
  refine ⟨{ t with rows := t.rows.set row (cells.set column { cell with escape }) },
    by simp only [setEscape, found, place], rfl, rfl, rfl, ?_⟩
  rw [List.map_set, texts]
  exact set_of_getElem? (by simp [found])

/-- Texts with a bar in front of all but the first. -/
def barred : List Text → List Text
  | [] => []
  | first :: rest => first :: rest.map ((" | " : Text) ++ ·)

theorem rowWrites_eq (t : Table) (cells : List Cell) :
    t.rowWrites cells = barred (List.zipWith t.cellText t.widths cells) ++ [("\n" : Text)] := by
  rw [rowWrites]
  cases List.zipWith t.cellText t.widths cells <;> rfl

end Table

/-- The widths of the columns, the texts and the looks of the cells, and whether the looks are
shown. -/
structure Printer where
  widths : List Nat
  texts : List (List Text)
  looks : List (List Escape)
  shown : Bool

namespace Printer

/-! ### Building -/

/-- A table without rows. -/
def new (columns : Nat) : Printer := ⟨List.replicate columns 0, [], [], false⟩

/-- Makes room for some cells in the columns from the given one on. -/
def widen : Nat → List Text → Attempt Text Printer Unit
  | _, [] => return
  | column, cell :: cells => do
    let p ← get
    let width ← element p.widths column
    set { p with widths := p.widths.set column (max width (Text.charCount cell)) }
    widen (column + 1) cells

/-- Adds a row, which needs a cell for every column, and tells its index. -/
def addRow (cells : List Text) : Attempt Text Printer Nat := do
  if cells.length ≠ (← get).widths.length then throw Fault.columnCount.message
  else
    widen 0 cells
    modify fun p => { p with texts := p.texts ++ [cells] }
    modify fun p => { p with looks := p.looks ++ [List.replicate cells.length .plain] }
    return (← get).texts.length - 1

/-- Changes the look of a cell. -/
def setEscape (column row : Nat) (escape : Escape) : Attempt Text Printer Unit := do
  let p ← get
  let looks ← element p.looks row
  let _ ← element looks column
  set { p with looks := p.looks.set row (looks.set column escape) }

/-- Shows the looks of the cells, or does not. -/
def showEscapes (shown : Bool) : Attempt Text Printer Unit := modify fun p => { p with shown }

/-! ### Printing -/

/-- A text with the look of a cell, if looks are shown. -/
def looked (p : Printer) (row column : Nat) (text : Text) : Except Fault Text :=
  if p.shown then do
    let looks ← element p.looks row
    return (← element looks column).wrap text
  else return text

/-- A cell at the width of its column. -/
def cellText (p : Printer) (row column : Nat) (cell : Text) : Except Fault Text := do
  let width ← element p.widths column
  looked p row column (Table.pad width cell)

/-- Hands a piece to a writer that takes only so many.  The state consists of those it has taken. -/
def put (limit : Nat) (piece : Text) : Attempt Unit (List Text) Unit := do
  let taken ← get
  if taken.length < limit then set (taken ++ [piece]) else throw ⟨⟩

/-- Prints cells of a row from the given column on. -/
def printCells (limit : Nat) (p : Printer) (row : Nat) :
    Nat → List Text → Attempt Unit (List Text) Unit
  | _, [] => return
  | column, cell :: cells => do
    let text ← cellText p row column cell
    put limit (if column ≠ 0 then (" | " : Text) ++ text else text)
    printCells limit p row (column + 1) cells

/-- Prints rows from the given one on. -/
def printRows (limit : Nat) (p : Printer) :
    Nat → List (List Text) → Attempt Unit (List Text) Unit
  | _, [] => return
  | row, cells :: rows => do
    printCells limit p row 0 cells
    put limit "\n"
    printRows limit p (row + 1) rows

/-- Prints the table. -/
def print (limit : Nat) (p : Printer) : Attempt Unit (List Text) Unit := printRows limit p 0 p.texts

/-! ### Agreement while building -/

/-- What is held of a table. -/
def ofTable (t : Table) : Printer :=
  ⟨t.widths, t.rows.map (·.map Cell.text), t.rows.map (·.map Cell.escape), t.escapes⟩

theorem new_eq_ofTable (columns : Nat) : new columns = ofTable (Table.ofWidth columns) := rfl

/-- Every column becomes as wide as its cell, if it is not wider. -/
theorem yields_widen {p : Printer} {front widths : List Nat} {cells : List Text}
    (h : p.widths = front ++ widths) (same : cells.length = widths.length) :
    Yields (widen front.length cells) p (.ok ⟨⟩) { p with
      widths := front ++
        List.zipWith (fun width cell => max width (Text.charCount cell)) widths cells } := by
  induction cells generalizing p front widths with
  | nil =>
    rw [List.eq_nil_of_length_eq_zero same.symm] at h ⊢
    rw [List.zipWith_nil_left, ← h]
    exact yields_pure _ _
  | cons cell cells ih =>
    cases widths with
    | nil => cases same
    | cons width widths =>
      have old : element p.widths front.length = .ok width :=
        h ▸ element_append front widths width rfl
      have changed : p.widths.set front.length (max width (Text.charCount cell)) =
          (front ++ [max width (Text.charCount cell)]) ++ widths := by
        simp [h]
      rw [widen]
      refine (yields_get _).bind ((yields_lift old _).bind ((yields_set rfl _).bind ?_))
      have rest := @ih { p with widths := _ } (front ++ [max width (Text.charCount cell)]) widths
        changed (Nat.succ.inj same)
      simpa using rest

/-- A row with a cell for every column is added. -/
theorem yields_addRow (t : Table) {cells : List Text} (same : cells.length = t.widths.length) :
    Yields (addRow cells) (ofTable t) (.ok t.rows.length) (ofTable (t.push cells)) := by
  have wide := @yields_widen (ofTable t) [] t.widths cells rfl same
  have index : (ofTable (t.push cells)).texts.length - 1 = t.rows.length := by
    simp [ofTable, Table.push]
  have last : Yields (do return (← get).texts.length - 1 : Attempt Text Printer Nat)
      (ofTable (t.push cells)) (.ok t.rows.length) (ofTable (t.push cells)) := by
    rw [← index]
    exact (yields_get _).bind (yields_pure _ _)
  refine (yields_get _).bind ?_
  rw [if_neg (fun other => other same)]
  refine wide.bind ((yields_modify rfl).bind ((yields_modify ?_).bind last))
  simp [ofTable, Table.push, Function.comp_def, List.map_const']

/-- A row with another number of cells is refused, and nothing changes. -/
theorem yields_addRow_of_ne {p : Printer} {cells : List Text}
    (other : cells.length ≠ p.widths.length) :
    Yields (addRow cells) p (.error Fault.columnCount.message) p := by
  refine (yields_get _).bind ?_
  rw [if_pos other]
  exact yields_throw _ _

/-- The looks of a row that there is are found. -/
theorem looks_ofTable {t : Table} {row : Nat} {cells : List Cell}
    (found : t.rows[row]? = some cells) :
    element (ofTable t).looks row = .ok (cells.map Cell.escape) :=
  element_of_getElem? (by simp [ofTable, found])

/-- So is the look of a cell among them. -/
theorem look_of_place {column : Nat} {cells : List Cell} {cell : Cell}
    (place : cells[column]? = some cell) :
    element (cells.map Cell.escape) column = .ok cell.escape :=
  element_of_getElem? (by simp [place])

/-- The look of a cell that there is changes. -/
theorem yields_setEscape {t next : Table} {column row : Nat} {cells : List Cell} {cell : Cell}
    (found : t.rows[row]? = some cells) (place : cells[column]? = some cell) {escape : Escape}
    (changed : t.setEscape column row escape = .ok next) :
    Yields (setEscape column row escape) (ofTable t) (.ok ⟨⟩) (ofTable next) := by
  obtain ⟨other, same, rows, widths, shown, texts⟩ := Table.exists_setEscape found place escape
  obtain rfl : other = next := Except.ok.inj (same.symm.trans changed)
  have changedLooks : other.rows.map (·.map Cell.escape) =
      (t.rows.map (·.map Cell.escape)).set row ((cells.map Cell.escape).set column escape) := by
    rw [rows, List.map_set, List.map_set]
  refine (yields_get _).bind ((yields_lift (looks_ofTable found) _).bind
    ((yields_lift (look_of_place place) _).bind (yields_set ?_ _)))
  rw [ofTable, ofTable, texts, widths, shown, changedLooks]

/-! ### Agreement while printing -/

/-- The writer receives the pieces, up to the first one that it refuses, which ends the action. -/
def Puts (limit : Nat) (x : Attempt Unit (List Text) Unit) (pieces : List Text) : Prop :=
  ∀ taken, taken.length ≤ limit →
    Yields x taken (if taken.length + pieces.length ≤ limit then .ok ⟨⟩ else .error ⟨⟩)
      ((taken ++ pieces).take limit)

section Puts

variable {limit : Nat} {x y : Attempt Unit (List Text) Unit} {pieces more : List Text}

theorem puts_pure (limit : Nat) : Puts limit (return) [] := by
  intro taken fits
  rw [if_pos (by simpa using fits), List.append_nil, List.take_of_length_le fits]
  exact yields_pure _ _

theorem puts_put (limit : Nat) (piece : Text) : Puts limit (put limit piece) [piece] := by
  intro taken fits
  refine (yields_get _).bind ?_
  by_cases room : taken.length < limit
  · have length : (taken ++ [piece]).length ≤ limit := by
      rw [List.length_append]
      exact room
    rw [if_pos room, ← List.length_append, if_pos length, List.take_of_length_le length]
    exact yields_set rfl _
  · rw [if_neg room, if_neg (show ¬ taken.length + [piece].length ≤ limit from room),
      List.take_append_of_le_length (Nat.le_of_not_lt room), List.take_of_length_le fits]
    exact yields_throw _ _

/-- Pieces in a row. -/
theorem Puts.andThen (hx : Puts limit x pieces) (hy : Puts limit y more) :
    Puts limit (do x; y) (pieces ++ more) := by
  intro taken fits
  have first := hx taken fits
  by_cases room : taken.length + pieces.length ≤ limit
  · have length : (taken ++ pieces).length ≤ limit := by
      rw [List.length_append]
      exact room
    rw [if_pos room, List.take_of_length_le length] at first
    have second := hy (taken ++ pieces) length
    rw [List.length_append, List.append_assoc, Nat.add_assoc, ← List.length_append] at second
    exact first.bind second
  · rw [if_neg room] at first
    rw [if_neg (by rw [List.length_append]; omega), ← List.append_assoc,
      List.take_append_of_le_length (by rw [List.length_append]; omega)]
    exact first.bind_error _

/-- A precondition that is met. -/
theorem Puts.lift {α : Type} {e : Except Fault α} {a : α} (met : e = .ok a)
    {f : α → Attempt Unit (List Text) Unit} (hf : Puts limit (f a) pieces) :
    Puts limit (do f (← e)) pieces :=
  fun taken fits => (yields_lift met taken).bind (hf taken fits)

end Puts

/-- Every row has a cell for every column. -/
def IsRectangular (t : Table) : Prop := ∀ cells ∈ t.rows, cells.length = t.widths.length

section Printing

variable {t : Table} {limit row : Nat} {cells front : List Cell} {frontWidths widths : List Nat}

/-- The accesses for a cell are possible. -/
theorem cellText_ofTable {column width : Nat} {cell : Cell} (hw : t.widths[column]? = some width)
    (found : t.rows[row]? = some cells) (place : cells[column]? = some cell) :
    (ofTable t).cellText row column cell.text = .ok (t.cellText width cell) := by
  have wide : element (ofTable t).widths column = .ok width := element_of_getElem? hw
  unfold cellText looked Table.cellText
  rw [wide]
  show (if t.escapes = true then _ else _) = _
  split
  · simp only [looks_ofTable found, look_of_place place, bind, Except.bind]
    rfl
  · rfl

theorem puts_printCells (found : t.rows[row]? = some (front ++ cells))
    (hw : t.widths = frontWidths ++ widths) (same : frontWidths.length = front.length)
    (fits : cells.length = widths.length) (later : front ≠ []) :
    Puts limit (printCells limit (ofTable t) row front.length (cells.map Cell.text))
      ((List.zipWith t.cellText widths cells).map ((" | " : Text) ++ ·)) := by
  induction cells generalizing front frontWidths widths with
  | nil =>
    rw [List.zipWith_nil_right]
    exact puts_pure _
  | cons cell cells ih =>
    cases widths with
    | nil => cases fits
    | cons width widths =>
      have text : (ofTable t).cellText row front.length cell.text = .ok (t.cellText width cell) :=
        cellText_ofTable (by simp [hw, ← same]) found (by simp)
      have column : front.length ≠ 0 := fun none => later (List.eq_nil_of_length_eq_zero none)
      have rest := @ih (front ++ [cell]) (frontWidths ++ [width]) widths (by simp [found])
        (by simp [hw]) (by simp [same]) (Nat.succ.inj fits) (by simp)
      rw [List.length_append, List.length_singleton] at rest
      rw [List.map_cons, printCells, List.zipWith_cons_cons, List.map_cons]
      refine .lift text ?_
      rw [if_pos column]
      exact (puts_put limit _).andThen rest

/-- The cells of a row are printed with bars between them. -/
theorem puts_row (found : t.rows[row]? = some cells) (fits : cells.length = t.widths.length) :
    Puts limit (printCells limit (ofTable t) row 0 (cells.map Cell.text))
      (Table.barred (List.zipWith t.cellText t.widths cells)) := by
  cases cells with
  | nil =>
    rw [List.zipWith_nil_right]
    exact puts_pure limit
  | cons cell cells =>
    obtain ⟨width, widths, hw⟩ := List.exists_cons_of_length_pos
      (Nat.lt_of_lt_of_eq (Nat.succ_pos cells.length) fits)
    have text : (ofTable t).cellText row 0 cell.text = .ok (t.cellText width cell) :=
      cellText_ofTable (by simp [hw]) found rfl
    rw [hw] at fits
    have rest := @puts_printCells t limit row cells [cell] [width] widths found hw rfl
      (Nat.succ.inj fits) (List.cons_ne_nil _ _)
    rw [List.map_cons, printCells, hw]
    refine .lift text ?_
    rw [if_neg fun other => other rfl]
    exact (puts_put limit _).andThen rest

theorem puts_printRows {rows before : List (List Cell)} (h : t.rows = before ++ rows)
    (rectangular : IsRectangular t) :
    Puts limit (printRows limit (ofTable t) before.length (rows.map (·.map Cell.text)))
      (rows.flatMap t.rowWrites) := by
  induction rows generalizing before with
  | nil => exact puts_pure _
  | cons cells rows ih =>
    have found : t.rows[before.length]? = some cells := by simp [h]
    have first := @puts_row t limit before.length cells found (rectangular cells (by simp [h]))
    have rest := @ih (before ++ [cells]) (by simp [h])
    rw [List.length_append, List.length_singleton] at rest
    rw [List.map_cons, printRows, List.flatMap_cons, Table.rowWrites_eq, List.append_assoc]
    exact first.andThen ((puts_put limit _).andThen rest)

/-- A writer receives the pieces of the table, up to the first one that it refuses. -/
theorem puts_print (rectangular : IsRectangular t) (limit : Nat) :
    Puts limit (print limit (ofTable t)) t.writes :=
  @puts_printRows t limit t.rows [] rfl rectangular

end Printing

end Printer

end XtAsm.Terminal
