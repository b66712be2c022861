import XtAsm.Compiler.Basic
import XtAsm.Terminal.Table

/-!
# Displaying tokens and errors

* `tokenTable`: tokens as a table, under a row of titles;
* `sourceLine`, `highlight`, `showError`: the line of a syntax error, with carets under it.
-/

namespace XtAsm.Terminal

/-- The cells of a token. -/
def tokenRow (t : Token) : Except Fault (List Cell) := do
  let kind ← t.kind.render
  return [⟨t.position.render, .plain⟩, ⟨kind, Escape.plain.colour cyan⟩, ⟨t.text, .plain⟩]

/-- The titles of a token table. -/
def titleRow : List Cell :=
  [⟨"POSITION", .bold⟩, ⟨"KIND", .bold⟩, ⟨"TEXT", .bold⟩]

/-- The table with one more row of cells and their looks. -/
def addCells (t : Table) (cells : List Cell) : Except Fault Table := do
  let (next, row) ← t.addRow (cells.map (·.text))
  (List.range cells.length).zip cells |>.foldlM
    (fun t (column, cell) => t.setEscape column row cell.escape) next

/-- One row for every token, under a row of titles. -/
def tokenTable (tokens : List Token) : Except Fault Table := do
  let rows ← tokens.mapM tokenRow
  (titleRow :: rows).foldlM addCells (Table.ofWidth 3)

/-- The line of a file on which a position lies. -/
def sourceLine (files : Files) (p : Position) : Option Text :=
  match Compiler.readSource files p.file with
  | .error _ => none
  | .ok source =>
    if p.line < 1 then none
    else (source.lines[p.line.toNat - 1]?).map (·.text)

/-- A line, and under it carets from a column on; there is always at least one. -/
def highlight (line : Text) (column length : Int) (colour : Bool) : Except Fault Text := do
  let marker := if colour then Escape.bold.colour red else Escape.plain
  let margin ← Text.repeated 32 (distance 1 column)
  let carets ← Text.repeated 94 (max 1 length)
  return line ++ "\n" ++ margin ++ marker.wrap carets ++ "\n"

/-- The display of a syntax error: nothing, if its line cannot be found. -/
def showError (files : Files) (e : SyntaxError) (colour : Bool) : Except Fault Text :=
  match sourceLine files e.position with
  | none => .ok []
  | some line => highlight line e.position.column e.length colour

end XtAsm.Terminal
