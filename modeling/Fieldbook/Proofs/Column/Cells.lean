import Fieldbook.Column.Filling

/-!
# Proofs/Column/Cells — a column is read row by row

A column is a list of cells of one type.  How a filling makes a cell of a row takes nothing but that
row and the type of the column (`Filling.cell`), and the type is known beforehand but for calculated
columns, which have that of their first result (`Filling.type`).  A column that is filled with rows
has the type and the cells that this tells (`column_eq`), one for each row in their order.
-/

namespace Fieldbook

/-- What the cells of a column are. -/
inductive CellType where
  | text
  | number
  | flag
  | date
  deriving DecidableEq

/-- A cell with its value; a gap has none, and among numbers NaN is the gap. -/
inductive Cell where
  | text (s : Option String)
  | number (x : Double)
  | flag (b : Option Bool)
  | date (d : Option Date)
  deriving DecidableEq

namespace Column

def type : Column → CellType
  | .texts _ => .text
  | .numbers _ => .number
  | .flags _ => .flag
  | .dates _ => .date

/-- The cells of a column, from the first row to the last. -/
def cells : Column → List Cell
  | .texts cells => cells.map .text
  | .numbers cells => cells.map .number
  | .flags cells => cells.map .flag
  | .dates cells => cells.map .date

theorem length_cells (c : Column) : c.cells.length = c.length := by
  cases c <;> exact List.length_map _

end Column

namespace Filling

/-- The type of the first result that is not missing; numbers if there is none. -/
def typeOfResults : List Expr.Operand → CellType
  | [] => .number
  | .missing :: rest => typeOfResults rest
  | .text _ :: _ => .text
  | .boolean _ :: _ => .flag
  | .number _ :: _ => .number

/-- The type of the column that rows fill, which is told by the filling alone unless it is a
calculation. -/
def type (source : CellSource) (rows : List Submission) : Filling → CellType
  | .texts | .choices .. => .text
  | .quantities | .years => .number
  | .flags => .flag
  | .dates => .date
  | .calculated e => typeOfResults (rows.map fun row => resultIn e (source.scope row))

/-- The cell for a result, in a column of a type: a gap if the result is of another one. -/
def resultCell (type : CellType) (result : Expr.Operand) : Cell :=
  match type with
  | .text => .text (resultText result)
  | .number => .number (resultNumber result)
  | .flag => .flag (resultFlag result)
  | .date => .date none

/-- **The cell that a row fills,** in a column of a type. -/
def cell (source : CellSource) (type : CellType) (row : Submission) : Filling → Cell
  | .texts => .text ((source.read row).bind textCell)
  | .quantities => .number (((source.read row).bind FieldValue.quantity?).getD .nan)
  | .years => .number (((source.read row).bind yearCell).getD .nan)
  | .flags => .flag ((source.read row).bind FieldValue.boolean?)
  | .choices cardinality items => .text ((source.read row).bind (choiceCell cardinality items))
  | .dates => .date ((source.read row).bind dateCell)
  | .calculated e => resultCell type (resultIn e (source.scope row))

theorem typeOfResults_eq (results : List Expr.Operand) : typeOfResults results =
    match results.find? (· ≠ .missing) with
    | some (.text _) => .text
    | some (.boolean _) => .flag
    | _ => .number := by
  induction results with
  | nil => rfl
  | cons result rest ih =>
    cases result with
    | missing => exact ih
    | _ => rfl

/-- The column of some results has the type of the first that is not missing, and each result
stands in it as a cell of that type. -/
theorem ofResults_eq (results : List Expr.Operand) :
    (ofResults results).type = typeOfResults results ∧
      (ofResults results).cells = results.map (resultCell (typeOfResults results)) := by
  rw [typeOfResults_eq, ofResults]
  generalize results.find? (· ≠ .missing) = first
  cases first with
  | none => exact ⟨rfl, List.map_map⟩
  | some result => cases result <;> exact ⟨rfl, List.map_map⟩

/-- **A column is read row by row.** -/
theorem column_eq (filling : Filling) (source : CellSource) (rows : List Submission) :
    (filling.column source rows).type = filling.type source rows ∧
      (filling.column source rows).cells =
        rows.map fun row => filling.cell source (filling.type source rows) row := by
  cases filling with
  | calculated e =>
    obtain ⟨htype, hcells⟩ := ofResults_eq (rows.map fun row => resultIn e (source.scope row))
    exact ⟨htype, hcells.trans List.map_map⟩
  | _ => exact ⟨rfl, List.map_map⟩

end Filling

end Fieldbook
