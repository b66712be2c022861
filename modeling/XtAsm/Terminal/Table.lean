import XtAsm.Fault
import XtAsm.Terminal.Escape
import XtAsm.Text.Utf8

/-!
# Tables

A table lays out rows of cells in columns, which are as wide as their widest cell.

* `Table.addRow`, `Table.setEscape`: build a table;
* `Table.writes`: the pieces in which a table is written, `Table.render`: all of them.
-/

namespace XtAsm.Terminal

/-- A cell and its look. -/
structure Cell where
  text : Text
  escape : Escape
  deriving DecidableEq

/-- The widths of the columns, the rows, and whether the looks of the cells are shown. -/
structure Table where
  widths : List Nat
  rows : List (List Cell)
  escapes : Bool
  deriving DecidableEq

namespace Table

/-- A table without rows. -/
def ofWidth (columns : Nat) : Table := ⟨List.replicate columns 0, [], false⟩

/-- A table without rows, whose widths have to stay within the capacity at eight bytes each. -/
def allocate (columns : Nat) : Except Fault Table :=
  if capacity < 8 * columns then .error .excessiveCount else .ok (ofWidth columns)

/-- The table with one more row, which needs a cell for every column, and the index of the row. -/
def addRow (t : Table) (cells : List Text) : Except Fault (Table × Nat) :=
  if cells.length ≠ t.widths.length then .error .columnCount
  else
    .ok ({ t with
      widths := List.zipWith (fun width cell => max width (Text.charCount cell)) t.widths cells
      rows := t.rows ++ [cells.map (⟨·, .plain⟩)] }, t.rows.length)

/-- A new row changes the widths of the columns, but not their number. -/
theorem length_widths_addRow {t next : Table} {cells : List Text} {row : Nat}
    (h : t.addRow cells = .ok (next, row)) : next.widths.length = t.widths.length := by
  unfold addRow at h
  split at h
  · simp at h
  · next hlen =>
    simp only [Except.ok.injEq, Prod.mk.injEq] at h
    simp only [← h.1, List.length_zipWith]
    omega

/-- The table with a cell's look changed. -/
def setEscape (t : Table) (column row : Nat) (escape : Escape) : Except Fault Table :=
  match t.rows[row]? with
  | none => .error .outOfRange
  | some cells =>
    match cells[column]? with
    | none => .error .outOfRange
    | some cell =>
      .ok { t with rows := t.rows.set row (cells.set column { cell with escape }) }

/-- The table that shows the looks of its cells, or does not. -/
def showEscapes (t : Table) (shown : Bool) : Table := { t with escapes := shown }

/-- A text filled up with spaces to a width. -/
def pad (width : Nat) (t : Text) : Text := t ++ Text.spaces (width - Text.charCount t)

/-- A cell at the width of its column. -/
def cellText (t : Table) (width : Nat) (cell : Cell) : Text :=
  if t.escapes then cell.escape.wrap (pad width cell.text) else pad width cell.text

/-- The pieces of a row: one for every cell, which all but the first start with a bar, and the end
of the line. -/
def rowWrites (t : Table) (cells : List Cell) : List Text :=
  match List.zipWith t.cellText t.widths cells with
  | [] => [("\n" : Text)]
  | first :: rest => first :: rest.map (fun cell => (" | " : Text) ++ cell) ++ [("\n" : Text)]

/-- The pieces of a table, in order. -/
def writes (t : Table) : List Text := t.rows.flatMap t.rowWrites

/-- The text of a table. -/
def render (t : Table) : Text := t.writes.flatten

/-- What a writer that takes only so many pieces receives, and whether that is all. -/
def renderWithin (t : Table) (limit : Nat) : Text × Bool :=
  ((t.writes.take limit).flatten, t.writes.length ≤ limit)

end Table

end XtAsm.Terminal
